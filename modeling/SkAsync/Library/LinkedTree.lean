import SkAsync.Library.Heap
import Mathlib.Data.List.Perm.Basic
import Mathlib.Data.List.Nodup

/-!
# Linked binary trees

A node on the heap has two edges and a pointer to its parent.  `Represents`
says that the nodes below an address are the nodes of a given tree.  Code that
walks over such nodes holds a pointer into the middle of the tree; the tree is
then seen as a context, the nodes above with the subtrees aside, and the
subtree in focus.  `plug` puts the two together.

`descend` and `climb` are the walks that follow one edge from each node and
that go back to a parent.
-/

namespace SkAsync.Library

universe u

/-- A node: its data, its two edges and its parent. -/
structure Cell (α : Type u) where
  data : α
  edges : Bool → Option Address
  parent : Option Address

/-- A binary tree with the address of every node. -/
inductive LinkedTree (α : Type u)
  | empty
  | node (address : Address) (data : α) (children : Bool → LinkedTree α)

namespace LinkedTree

variable {α : Type u}

/-- The pointer to a tree. -/
def address : LinkedTree α → Option Address
  | .empty => none
  | .node address _ _ => some address

@[simp]
theorem address_empty : (empty : LinkedTree α).address = none :=
  rfl

@[simp]
theorem address_node (a : Address) (data : α) (children : Bool → LinkedTree α) :
    (node a data children).address = some a :=
  rfl

theorem address_eq_none_iff {t : LinkedTree α} : t.address = none ↔ t = .empty := by
  cases t <;> simp

theorem empty_or_node (t : LinkedTree α) :
    t = .empty ∨ ∃ a data children, t = .node a data children := by
  cases t with
  | empty => exact Or.inl rfl
  | node a data children => exact Or.inr ⟨a, data, children, rfl⟩

def addresses : LinkedTree α → List Address
  | .empty => []
  | .node address _ children =>
      address :: ((children false).addresses ++ (children true).addresses)

@[simp]
theorem addresses_empty : (empty : LinkedTree α).addresses = [] :=
  rfl

@[simp]
theorem addresses_node (a : Address) (data : α) (children : Bool → LinkedTree α) :
    (node a data children).addresses =
      a :: ((children false).addresses ++ (children true).addresses) :=
  rfl

/-- A node without children. -/
def leaf (a : Address) (data : α) : LinkedTree α :=
  .node a data fun _ => .empty

/-- Two subtrees, the first on the given edge. -/
def onEdge (edge : Bool) (t other : LinkedTree α) : Bool → LinkedTree α :=
  fun e => if e = edge then t else other

@[simp]
theorem onEdge_self (edge : Bool) (t other : LinkedTree α) : onEdge edge t other edge = t :=
  if_pos rfl

@[simp]
theorem onEdge_not (edge : Bool) (t other : LinkedTree α) : onEdge edge t other (!edge) = other :=
  if_neg (by cases edge <;> decide)

theorem onEdge_children (edge : Bool) (children : Bool → LinkedTree α) :
    onEdge edge (children edge) (children (!edge)) = children := by
  funext e
  cases e <;> cases edge <;> rfl

/-- What holds on both edges holds of both subtrees. -/
theorem forall_onEdge_iff (property : Bool → LinkedTree α → Prop) {edge : Bool}
    {t other : LinkedTree α} :
    (∀ e, property e (onEdge edge t other e)) ↔ property edge t ∧ property (!edge) other := by
  constructor
  · intro both
    have first := both edge
    have second := both (!edge)
    rw [onEdge_self] at first
    rw [onEdge_not] at second
    exact ⟨first, second⟩
  · rintro ⟨first, second⟩ e
    by_cases same : e = edge
    · subst same
      rwa [onEdge_self]
    · have other_edge : e = !edge := by
        cases e <;> cases edge <;> simp_all
      rwa [other_edge, onEdge_not]

/-- The addresses of a node's subtrees, in an order chosen by an edge. -/
theorem addresses_node_perm (a : Address) (data : α) (edge : Bool)
    (children : Bool → LinkedTree α) :
    (node a data children).addresses.Perm
      (a :: ((children edge).addresses ++ (children (!edge)).addresses)) := by
  cases edge with
  | false => exact List.Perm.refl _
  | true => exact List.Perm.cons a List.perm_append_comm

end LinkedTree

/-- A node above the focus: its data, the edge that leads to the focus and the
subtree on the other edge. -/
structure Frame (α : Type u) where
  address : Address
  data : α
  edge : Bool
  sibling : LinkedTree α

/-- The node of a frame with a subtree on its open edge. -/
def Frame.fill {α : Type u} (frame : Frame α) (t : LinkedTree α) : LinkedTree α :=
  .node frame.address frame.data (LinkedTree.onEdge frame.edge t frame.sibling)

/-- The nodes above the focus, the nearest first. -/
abbrev Context (α : Type u) := List (Frame α)

variable {α : Type u}

/-- The tree that has `t` in the focus. -/
def plug : Context α → LinkedTree α → LinkedTree α
  | [], t => t
  | frame :: context, t => plug context (frame.fill t)

@[simp]
theorem plug_nil (t : LinkedTree α) : plug [] t = t :=
  rfl

@[simp]
theorem plug_cons (frame : Frame α) (context : Context α) (t : LinkedTree α) :
    plug (frame :: context) t = plug context (frame.fill t) :=
  rfl

theorem plug_append (inner outer : Context α) (t : LinkedTree α) :
    plug (inner ++ outer) t = plug outer (plug inner t) := by
  induction inner generalizing t with
  | nil => rfl
  | cons frame inner ih => exact ih (frame.fill t)

/-- Going down an edge does not change the tree. -/
@[simp]
theorem fill_child (a : Address) (data : α) (edge : Bool) (children : Bool → LinkedTree α) :
    Frame.fill ⟨a, data, edge, children (!edge)⟩ (children edge) = .node a data children := by
  rw [Frame.fill, LinkedTree.onEdge_children]

/-- A node has an address, also when it is seen from above. -/
theorem plug_ne_empty (context : Context α) {t : LinkedTree α} (nonempty : t ≠ .empty) :
    plug context t ≠ .empty := by
  induction context generalizing t with
  | nil => exact nonempty
  | cons frame context ih => exact ih (fun impossible => by cases impossible)

/-- The parent of what is in the focus. -/
def Context.parent : Context α → Option Address
  | [] => none
  | frame :: _ => some frame.address

@[simp]
theorem Context.parent_nil : Context.parent ([] : Context α) = none :=
  rfl

@[simp]
theorem Context.parent_cons (frame : Frame α) (context : Context α) :
    Context.parent (frame :: context) = some frame.address :=
  rfl

/-- The addresses outside the focus. -/
def Context.addresses : Context α → List Address
  | [] => []
  | frame :: context => frame.address :: (frame.sibling.addresses ++ Context.addresses context)

@[simp]
theorem Context.addresses_nil : Context.addresses ([] : Context α) = [] :=
  rfl

@[simp]
theorem Context.addresses_cons (frame : Frame α) (context : Context α) :
    Context.addresses (frame :: context) =
      frame.address :: (frame.sibling.addresses ++ Context.addresses context) :=
  rfl

theorem addresses_plug (context : Context α) (t : LinkedTree α) :
    (plug context t).addresses.Perm (t.addresses ++ Context.addresses context) := by
  induction context generalizing t with
  | nil => simp
  | cons frame context ih =>
      refine (ih (frame.fill t)).trans ?_
      have filled : (frame.fill t).addresses.Perm
          (frame.address :: (t.addresses ++ frame.sibling.addresses)) := by
        have := LinkedTree.addresses_node_perm frame.address frame.data frame.edge
          (LinkedTree.onEdge frame.edge t frame.sibling)
        rwa [LinkedTree.onEdge_self, LinkedTree.onEdge_not] at this
      refine (filled.append_right _).trans ?_
      rw [Context.addresses_cons, List.cons_append, List.append_assoc]
      exact (List.perm_middle).symm

/-- A node is in a tree at one place only. -/
def LinkedTree.Distinct (t : LinkedTree α) : Prop :=
  t.addresses.Nodup

theorem distinct_plug_iff {context : Context α} {t : LinkedTree α} :
    (plug context t).Distinct ↔ t.Distinct ∧ (Context.addresses context).Nodup ∧
      ∀ a ∈ t.addresses, a ∉ Context.addresses context := by
  unfold LinkedTree.Distinct
  rw [(addresses_plug context t).nodup_iff, List.nodup_append]
  constructor
  · rintro ⟨focus, around, apart⟩
    exact ⟨focus, around, fun a inside outside => apart a inside a outside rfl⟩
  · rintro ⟨focus, around, apart⟩
    refine ⟨focus, around, ?_⟩
    rintro a inside _ outside rfl
    exact apart a inside outside

theorem LinkedTree.Distinct.child {a : Address} {data : α} {children : Bool → LinkedTree α}
    (distinct : (LinkedTree.node a data children).Distinct) (edge : Bool) :
    (children edge).Distinct := by
  rw [LinkedTree.Distinct, (LinkedTree.addresses_node_perm a data edge children).nodup_iff,
    List.nodup_cons, List.nodup_append] at distinct
  exact distinct.2.1

/-- The parts of a tree around a node have no address in common. -/
theorem LinkedTree.Distinct.apart {context : Context α} {a : Address} {data : α}
    {children : Bool → LinkedTree α} (distinct : (plug context (.node a data children)).Distinct)
    (edge : Bool) :
    (a ∉ (children edge).addresses ∧ a ∉ Context.addresses context) ∧
      ∀ b ∈ (children edge).addresses,
        b ∉ (children (!edge)).addresses ∧ b ∉ Context.addresses context := by
  rcases distinct_plug_iff.mp distinct with ⟨focus, _, apart⟩
  rw [LinkedTree.Distinct, (LinkedTree.addresses_node_perm a data edge children).nodup_iff,
    List.nodup_cons, List.nodup_append] at focus
  rcases focus with ⟨notBelow, _, _, sides⟩
  have inside : ∀ b ∈ (children edge).addresses,
      b ∈ (LinkedTree.node a data children).addresses := by
    intro b member
    rw [(LinkedTree.addresses_node_perm a data edge children).mem_iff]
    simp [member]
  refine ⟨⟨fun member => notBelow (by simp [member]), apart a (by simp)⟩, fun b member => ?_⟩
  exact ⟨fun other => sides b member b other rfl, apart b (inside b member)⟩

/-- Nodes may be left out and a fresh one may be added. -/
theorem LinkedTree.Distinct.of_subperm {t t' : LinkedTree α} (distinct : t.Distinct)
    {fresh : List Address}
    (freshDistinct : fresh.Nodup) (isFresh : ∀ a ∈ fresh, a ∉ t.addresses)
    (sub : t'.addresses.Subperm (fresh ++ t.addresses)) : t'.Distinct := by
  have whole : (fresh ++ t.addresses).Nodup := by
    rw [List.nodup_append]
    refine ⟨freshDistinct, distinct, ?_⟩
    rintro a isNew _ isOld rfl
    exact isFresh a isNew isOld
  rcases sub with ⟨l, perm, sublist⟩
  exact perm.nodup_iff.mp (sublist.nodup whole)

/-- The tree in the focus may be replaced by one of its nodes and fresh ones. -/
theorem distinct_plug_of_subperm {context : Context α} {t t' : LinkedTree α}
    {fresh : List Address} (distinct : (plug context t).Distinct) (freshDistinct : fresh.Nodup)
    (isFresh : ∀ a ∈ fresh, a ∉ (plug context t).addresses)
    (sub : t'.addresses.Subperm (fresh ++ t.addresses)) : (plug context t').Distinct := by
  apply distinct.of_subperm freshDistinct isFresh
  have around : ((fresh ++ t.addresses) ++ context.addresses).Perm
      (fresh ++ (plug context t).addresses) := by
    rw [List.append_assoc]
    exact (addresses_plug context t).symm.append_left fresh
  exact (addresses_plug context t').subperm.trans
    (((List.subperm_append_right _).mpr sub).trans around.subperm)

/-- A fresh leaf may take the place of a child. -/
theorem distinct_plug_leaf {context : Context α} {a b : Address} {data data' : α}
    {children : Bool → LinkedTree α} (distinct : (plug context (.node a data children)).Distinct)
    (isFresh : b ∉ (plug context (.node a data children)).addresses) (edge : Bool) :
    (plug (⟨a, data, edge, children (!edge)⟩ :: context) (.leaf b data')).Distinct := by
  rw [plug_cons]
  apply distinct_plug_of_subperm distinct (List.nodup_singleton b) (by simpa using isFresh)
  have before := LinkedTree.addresses_node_perm a data edge children
  have after := LinkedTree.addresses_node_perm a data edge
    (LinkedTree.onEdge edge (.leaf b data') (children (!edge)))
  rw [LinkedTree.onEdge_self, LinkedTree.onEdge_not] at after
  refine after.subperm.trans (List.Subperm.trans ?_ (before.symm.append_left [b]).subperm)
  have moved : (a :: ((LinkedTree.leaf b data').addresses ++ (children (!edge)).addresses)).Perm
      ([b] ++ a :: (children (!edge)).addresses) := List.Perm.swap b a _
  refine moved.subperm.trans (List.Sublist.subperm ?_)
  simp

/-! ## Trees on the heap -/

/-- The nodes at and below the root of `t` are on the heap, with the links of `t`. -/
def Represents (heap : Heap (Cell α)) (parent : Option Address) : LinkedTree α → Prop
  | .empty => True
  | .node a data children =>
      heap.read a = some ⟨data, fun e => (children e).address, parent⟩ ∧
        ∀ e, Represents heap (some a) (children e)

@[simp]
theorem represents_empty (heap : Heap (Cell α)) (parent : Option Address) :
    Represents heap parent .empty :=
  trivial

theorem represents_node {heap : Heap (Cell α)} {parent : Option Address} {a : Address} {data : α}
    {children : Bool → LinkedTree α} :
    Represents heap parent (.node a data children) ↔
      heap.read a = some ⟨data, fun e => (children e).address, parent⟩ ∧
        ∀ e, Represents heap (some a) (children e) :=
  Iff.rfl

/-- The nodes above the focus and aside of it are on the heap; `hole` is the
pointer to the focus. -/
def ContextRepresents (heap : Heap (Cell α)) : Context α → (hole : Option Address) → Prop
  | [], _ => True
  | frame :: context, hole =>
      heap.read frame.address = some ⟨frame.data,
          fun e => if e = frame.edge then hole else frame.sibling.address,
          Context.parent context⟩ ∧
        Represents heap (some frame.address) frame.sibling ∧
        ContextRepresents heap context (some frame.address)

theorem represents_fill_iff {heap : Heap (Cell α)} {parent : Option Address} {frame : Frame α}
    {t : LinkedTree α} :
    Represents heap parent (frame.fill t) ↔
      heap.read frame.address = some ⟨frame.data,
          fun e => if e = frame.edge then t.address else frame.sibling.address, parent⟩ ∧
        Represents heap (some frame.address) frame.sibling ∧
        Represents heap (some frame.address) t := by
  have edges_eq : (fun e => (LinkedTree.onEdge frame.edge t frame.sibling e).address) =
      fun e => if e = frame.edge then t.address else frame.sibling.address := by
    funext e
    unfold LinkedTree.onEdge
    split <;> rfl
  rw [Frame.fill, represents_node, edges_eq,
    LinkedTree.forall_onEdge_iff fun _ => Represents heap (some frame.address)]
  exact and_congr_right fun _ => and_comm

/-- A tree on the heap is a context and a focus on the heap. -/
theorem represents_plug_iff {heap : Heap (Cell α)} {context : Context α} {t : LinkedTree α} :
    Represents heap none (plug context t) ↔
      ContextRepresents heap context t.address ∧ Represents heap (Context.parent context) t := by
  induction context generalizing t with
  | nil => simp [ContextRepresents]
  | cons frame context ih =>
      rw [plug_cons, ih, represents_fill_iff]
      constructor
      · rintro ⟨outer, cell, sibling, focus⟩
        exact ⟨⟨cell, sibling, outer⟩, focus⟩
      · rintro ⟨⟨cell, sibling, outer⟩, focus⟩
        exact ⟨outer, cell, sibling, focus⟩

/-- A tree does not depend on the cells of other nodes. -/
theorem Represents.congr {heap heap' : Heap (Cell α)} {parent : Option Address} {t : LinkedTree α}
    (represented : Represents heap parent t)
    (agree : ∀ a ∈ t.addresses, heap'.read a = heap.read a) : Represents heap' parent t := by
  induction t generalizing parent with
  | empty => trivial
  | node a data children ih =>
      refine ⟨(agree a (by simp)).trans represented.1, fun e => ?_⟩
      apply ih e (represented.2 e)
      intro b inside
      apply agree b
      cases e <;> simp [inside]

theorem ContextRepresents.congr {heap heap' : Heap (Cell α)} {context : Context α}
    {hole : Option Address} (represented : ContextRepresents heap context hole)
    (agree : ∀ a ∈ Context.addresses context, heap'.read a = heap.read a) :
    ContextRepresents heap' context hole := by
  induction context generalizing hole with
  | nil => trivial
  | cons frame context ih =>
      rcases represented with ⟨cell, sibling, outer⟩
      refine ⟨(agree _ (by simp)).trans cell, ?_, ?_⟩
      · apply sibling.congr
        intro a inside
        exact agree a (by simp [inside])
      · apply ih outer
        intro a inside
        exact agree a (by simp [inside])

/-- Every node of a tree is on the heap. -/
theorem Represents.exists_read {heap : Heap (Cell α)} {parent : Option Address} {t : LinkedTree α}
    (represented : Represents heap parent t) {a : Address} (inside : a ∈ t.addresses) :
    ∃ cell, heap.read a = some cell := by
  induction t generalizing parent with
  | empty => cases inside
  | node b data children ih =>
      rw [LinkedTree.addresses_node, List.mem_cons, List.mem_append] at inside
      rcases inside with rfl | inside | inside
      · exact ⟨_, represented.1⟩
      · exact ih false (represented.2 false) inside
      · exact ih true (represented.2 true) inside

/-- What is below an address is one tree. -/
theorem Represents.unique {heap : Heap (Cell α)} {parent parent' : Option Address}
    {t t' : LinkedTree α} (represented : Represents heap parent t)
    (represented' : Represents heap parent' t') (same : t.address = t'.address) : t = t' := by
  induction t generalizing parent parent' t' with
  | empty => exact (LinkedTree.address_eq_none_iff.mp same.symm).symm
  | node a data children ih =>
      cases t' with
      | empty => cases same
      | node a' data' children' =>
          cases same
          have cells := represented.1.symm.trans represented'.1
          simp only [Option.some.injEq, Cell.mk.injEq] at cells
          rcases cells with ⟨rfl, edges, _⟩
          congr 1
          funext e
          exact ih e (represented.2 e) (represented'.2 e) (congrFun edges e)

theorem Represents.lt_size {heap : Heap (Cell α)} {parent : Option Address} {t : LinkedTree α}
    (represented : Represents heap parent t) {a : Address} (inside : a ∈ t.addresses) :
    a < heap.size := by
  rcases represented.exists_read inside with ⟨cell, live⟩
  exact Heap.lt_size_of_read live

/-- A tree has no more nodes than were ever allocated. -/
theorem Represents.length_le {heap : Heap (Cell α)} {parent : Option Address} {t : LinkedTree α}
    (represented : Represents heap parent t) (distinct : t.Distinct) :
    t.addresses.length ≤ heap.size := by
  have inside : t.addresses ⊆ List.range heap.size := by
    intro a member
    exact List.mem_range.mpr (represented.lt_size member)
  have bound := (List.subperm_of_subset distinct inside).length_le
  rwa [List.length_range] at bound

/-! ## Properties of all nodes -/

/-- Every node of a tree has a property. -/
def LinkedTree.All (property : α → Prop) : LinkedTree α → Prop
  | .empty => True
  | .node _ data children => property data ∧ ∀ e, (children e).All property

theorem LinkedTree.All.imp {property property' : α → Prop} {t : LinkedTree α} (all : t.All property)
    (implies : ∀ data, property data → property' data) : t.All property' := by
  induction t with
  | empty => trivial
  | node a data children ih => exact ⟨implies data all.1, fun e => ih e (all.2 e)⟩

/-- What holds of all cells on the heap holds of a tree there. -/
theorem Represents.all {heap : Heap (Cell α)} {parent : Option Address} {t : LinkedTree α}
    {property : α → Prop} (represented : Represents heap parent t)
    (everywhere : ∀ a cell, heap.read a = some cell → property cell.data) : t.All property := by
  induction t generalizing parent with
  | empty => trivial
  | node a data children ih =>
      exact ⟨everywhere a _ represented.1, fun e => ih e (represented.2 e)⟩

/-- What holds of all nodes of a tree holds of the cells at its addresses. -/
theorem Represents.data_of_all {heap : Heap (Cell α)} {parent : Option Address}
    {t : LinkedTree α} {property : α → Prop} (represented : Represents heap parent t)
    (all : t.All property) {b : Address} (inside : b ∈ t.addresses) {cell : Cell α}
    (live : heap.read b = some cell) : property cell.data := by
  induction t generalizing parent with
  | empty => cases inside
  | node a data children ih =>
      rw [LinkedTree.addresses_node, List.mem_cons, List.mem_append] at inside
      rcases inside with rfl | inside | inside
      · rw [represented.1] at live
        cases live
        exact all.1
      · exact ih false (represented.2 false) (all.2 false) inside
      · exact ih true (represented.2 true) (all.2 true) inside

theorem all_fill_iff {property : α → Prop} {frame : Frame α} {t : LinkedTree α} :
    (frame.fill t).All property ↔
      property frame.data ∧ t.All property ∧ frame.sibling.All property :=
  and_congr_right fun _ => LinkedTree.forall_onEdge_iff fun _ => LinkedTree.All property

theorem all_plug_iff {property : α → Prop} {context : Context α} {t : LinkedTree α} :
    (plug context t).All property ↔
      t.All property ∧ ∀ frame ∈ context, property frame.data ∧ frame.sibling.All property := by
  induction context generalizing t with
  | nil => simp
  | cons frame context ih =>
      rw [plug_cons, ih, all_fill_iff, List.forall_mem_cons]
      constructor
      · rintro ⟨⟨here, focus, sibling⟩, around⟩
        exact ⟨focus, ⟨here, sibling⟩, around⟩
      · rintro ⟨focus, ⟨here, sibling⟩, around⟩
        exact ⟨⟨here, focus, sibling⟩, around⟩

/-! ## Trees of one shape -/

/-- Two trees have the same shape, and related data in the same places.  Their
addresses do not matter. -/
def LinkedTree.Similar {β : Type u} (same : α → β → Prop) : LinkedTree α → LinkedTree β → Prop
  | .empty, .empty => True
  | .node _ data children, .node _ data' children' =>
      same data data' ∧ ∀ e, (children e).Similar same (children' e)
  | _, _ => False

theorem LinkedTree.similar_node_iff {β : Type u} {same : α → β → Prop} {a b : Address} {data : α}
    {data' : β} {children : Bool → LinkedTree α} {children' : Bool → LinkedTree β} :
    (node a data children).Similar same (node b data' children') ↔
      same data data' ∧ ∀ e, (children e).Similar same (children' e) :=
  Iff.rfl

/-! ## Walks -/

/-- Follow one edge from each node, while the node asks for it and the edge is
there. -/
def LinkedTree.descend (continues : α → Bool) (turn : α → Bool) :
    Context α → LinkedTree α → Context α × LinkedTree α
  | context, .empty => (context, .empty)
  | context, .node a data children =>
      if continues data ∧ (children (turn data)).address.isSome then
        LinkedTree.descend continues turn (⟨a, data, turn data, children (!turn data)⟩ :: context)
          (children (turn data))
      else
        (context, .node a data children)

/-- Go back to the parents, as long as they ask for it. -/
def climb (continues : α → Bool) : Context α → LinkedTree α → Context α × LinkedTree α
  | [], t => ([], t)
  | frame :: context, t =>
      if continues frame.data then climb continues context (frame.fill t)
      else (frame :: context, t)

/-- A walk down does not change the tree. -/
theorem plug_descend (continues turn : α → Bool) (context : Context α) (t : LinkedTree α) :
    plug (t.descend continues turn context).1 (t.descend continues turn context).2 =
      plug context t := by
  induction t generalizing context with
  | empty => rfl
  | node a data children ih =>
      unfold LinkedTree.descend
      split
      · rw [ih (turn data), plug_cons, fill_child]
      · rfl

/-- What is known where a walk down ends: every node on the way asked to go on
in the direction taken, and the last one does not or cannot. -/
theorem descend_end {continues turn : α → Bool} {context context' : Context α} {t t' : LinkedTree α}
    (walked : t.descend continues turn context = (context', t')) (nonempty : t ≠ .empty)
    (before : ∀ frame ∈ context, continues frame.data = true ∧ frame.edge = turn frame.data) :
    (∀ frame ∈ context', continues frame.data = true ∧ frame.edge = turn frame.data) ∧
      ∃ a data children, t' = .node a data children ∧
        (continues data = true → children (turn data) = .empty) := by
  induction t generalizing context with
  | empty => exact absurd rfl nonempty
  | node a data children ih =>
      unfold LinkedTree.descend at walked
      split at walked
      · rename_i goes
        apply ih (turn data) walked
        · intro isEmpty
          rw [isEmpty] at goes
          cases goes.2
        · intro frame member
          rcases List.mem_cons.mp member with rfl | member
          · exact ⟨goes.1, rfl⟩
          · exact before frame member
      · rename_i stays
        cases walked
        refine ⟨before, a, data, children, rfl, fun asks => ?_⟩
        rw [← LinkedTree.address_eq_none_iff, ← Option.not_isSome_iff_eq_none]
        exact fun present => stays ⟨asks, present⟩

/-- A walk from the root passes every context that asks for it. -/
theorem descend_plug {continues turn : α → Bool} {context : Context α} (outer : Context α)
    {t : LinkedTree α} (nonempty : t ≠ .empty)
    (follows : ∀ frame ∈ context, continues frame.data = true ∧ frame.edge = turn frame.data) :
    (plug context t).descend continues turn outer =
      t.descend continues turn (context ++ outer) := by
  induction context generalizing t with
  | nil => rfl
  | cons frame context ih =>
      have here := follows frame List.mem_cons_self
      rw [plug_cons, ih (fun impossible => by cases impossible)
        fun other member => follows other (List.mem_cons_of_mem frame member)]
      have present :
          (LinkedTree.onEdge frame.edge t frame.sibling (turn frame.data)).address.isSome := by
        rw [← here.2, LinkedTree.onEdge_self, Option.isSome_iff_ne_none, ne_eq,
          LinkedTree.address_eq_none_iff]
        exact nonempty
      rw [Frame.fill, LinkedTree.descend, if_pos ⟨here.1, present⟩, ← here.2,
        LinkedTree.onEdge_self,
        LinkedTree.onEdge_not]
      rfl

/-- What is known where a climb ends: the nodes passed asked to go on, and the
next one, if there is one, does not. -/
theorem climb_end {continues : α → Bool} {context context' : Context α} {t t' : LinkedTree α}
    (walked : climb continues context t = (context', t')) :
    ∃ passed, context = passed ++ context' ∧ t' = plug passed t ∧
      (∀ frame ∈ passed, continues frame.data = true) ∧
      ∀ frame ∈ context'.head?, continues frame.data = false := by
  induction context generalizing t with
  | nil =>
      cases walked
      exact ⟨[], rfl, rfl, by simp, by simp⟩
  | cons frame context ih =>
      unfold climb at walked
      split at walked
      · rename_i goes
        rcases ih walked with ⟨passed, context_eq, tree_eq, asked, last⟩
        refine ⟨frame :: passed, by rw [context_eq, List.cons_append], tree_eq, ?_, last⟩
        intro other member
        rcases List.mem_cons.mp member with rfl | member
        · exact goes
        · exact asked other member
      · rename_i stays
        cases walked
        refine ⟨[], rfl, rfl, by simp, ?_⟩
        intro other member
        cases member
        exact Bool.eq_false_iff.mpr stays

/-- A walk passes different nodes. -/
theorem Context.length_le_addresses (context : Context α) :
    context.length ≤ (Context.addresses context).length := by
  induction context with
  | nil => simp
  | cons frame context ih =>
      rw [Context.addresses_cons, List.length_cons, List.length_cons, List.length_append]
      omega

end SkAsync.Library

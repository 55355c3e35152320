import SkAsync.Library.LinkedTree

/-!
# Pre-order of a linked tree

`following` is what a pre-order walk visits after the node in focus: the nodes
below it, and then the right subtrees of the nodes above that the walk left on
their left edge.  It is computed from the focus alone, without a stack.
-/

namespace SkAsync.Library

universe u

variable {α : Type u}

/-- The nodes of a tree, each before those below it. -/
def LinkedTree.preorder : LinkedTree α → List (Address × α)
  | .empty => []
  | .node a data children =>
      (a, data) :: ((children false).preorder ++ (children true).preorder)

@[simp]
theorem LinkedTree.preorder_empty : (empty : LinkedTree α).preorder = [] :=
  rfl

theorem LinkedTree.preorder_node (a : Address) (data : α) (children : Bool → LinkedTree α) :
    (node a data children).preorder =
      (a, data) :: ((children false).preorder ++ (children true).preorder) :=
  rfl

theorem LinkedTree.length_preorder (t : LinkedTree α) : t.preorder.length = t.addresses.length := by
  induction t with
  | empty => rfl
  | node a data children ih =>
      rw [preorder_node, addresses_node, List.length_cons, List.length_cons, List.length_append,
        List.length_append, ih, ih]

/-- The nodes above the focus that are still to be visited, with their subtrees. -/
def Context.pending : Context α → List (Address × α)
  | [] => []
  | frame :: context =>
      (if frame.edge = false then frame.sibling.preorder else []) ++ Context.pending context

@[simp]
theorem Context.pending_nil : Context.pending ([] : Context α) = [] :=
  rfl

theorem Context.pending_left (a : Address) (data : α) (sibling : LinkedTree α)
    (context : Context α) :
    Context.pending (⟨a, data, false, sibling⟩ :: context) =
      sibling.preorder ++ Context.pending context := by
  rw [pending, if_pos rfl]

theorem Context.pending_right (a : Address) (data : α) (sibling : LinkedTree α)
    (context : Context α) :
    Context.pending (⟨a, data, true, sibling⟩ :: context) = Context.pending context := by
  rw [pending, if_neg (by simp), List.nil_append]

/-- What comes after the node in focus. -/
def following (context : Context α) (children : Bool → LinkedTree α) : List (Address × α) :=
  (children false).preorder ++ (children true).preorder ++ Context.pending context

/-- At the root, everything else comes after it. -/
theorem preorder_eq_following (a : Address) (data : α) (children : Bool → LinkedTree α) :
    (LinkedTree.node a data children).preorder = (a, data) :: following [] children := by
  rw [LinkedTree.preorder_node, following, Context.pending_nil, List.append_nil]

/-- The node after the focus is the left child. -/
theorem following_of_left {context : Context α} (a : Address) (data : α) {b : Address} {data' : α}
    {children children' : Bool → LinkedTree α} (found : children false = .node b data' children') :
    following context children =
      (b, data') :: following (⟨a, data, false, children true⟩ :: context) children' := by
  rw [following, following, found, LinkedTree.preorder_node, Context.pending_left]
  simp

/-- Without a left child it is the right child. -/
theorem following_of_right {context : Context α} (a : Address) (data : α) {b : Address} {data' : α}
    {children children' : Bool → LinkedTree α} (noLeft : children false = .empty)
    (found : children true = .node b data' children') :
    following context children =
      (b, data') :: following (⟨a, data, true, children false⟩ :: context) children' := by
  rw [following, following, noLeft, found, LinkedTree.preorder_node, Context.pending_right]
  simp

/-- Without children it is what is pending. -/
theorem following_of_leaf {context : Context α} {children : Bool → LinkedTree α}
    (noChild : ∀ e, children e = .empty) :
    following context children = Context.pending context := by
  rw [following, noChild, noChild]
  rfl

theorem Context.length_pending_le (context : Context α) :
    (Context.pending context).length ≤ (Context.addresses context).length := by
  induction context with
  | nil => simp
  | cons frame context ih =>
      rw [pending, List.length_append, addresses_cons, List.length_cons, List.length_append]
      split
      · rw [LinkedTree.length_preorder]
        omega
      · rw [List.length_nil]
        omega

/-- There are not more nodes to come than there are in the tree. -/
theorem length_following_lt {context : Context α} (a : Address) (data : α)
    {children : Bool → LinkedTree α} :
    (following context children).length <
      (plug context (.node a data children)).addresses.length := by
  rw [(addresses_plug context _).length_eq, List.length_append, LinkedTree.addresses_node,
    List.length_cons, List.length_append, following, List.length_append, List.length_append,
    LinkedTree.length_preorder, LinkedTree.length_preorder]
  have bound := Context.length_pending_le context
  omega

/-- An entry of two lists in a row is in the first or in the second. -/
theorem append_eq_append_cons {β : Type u} {l r before after : List β} {b : β}
    (same : l ++ r = before ++ b :: after) :
    (∃ middle, l = before ++ b :: middle ∧ after = middle ++ r) ∨
      ∃ middle, before = l ++ middle ∧ r = middle ++ b :: after := by
  rcases List.append_eq_append_iff.mp same with ⟨middle, before_eq, r_eq⟩ | ⟨middle, l_eq, rest_eq⟩
  · exact Or.inr ⟨middle, before_eq, r_eq⟩
  · cases middle with
    | nil => exact Or.inr ⟨[], by rw [l_eq, List.append_nil, List.append_nil], rest_eq.symm⟩
    | cons c middle =>
        cases rest_eq
        exact Or.inl ⟨middle, l_eq, rfl⟩

/-- Every node of a walk can be put into the focus, with the nodes that come after it. -/
theorem exists_plug_of_preorder {t : LinkedTree α} {before after : List (Address × α)} {a : Address}
    {data : α} (context : Context α) (preorder_eq : t.preorder = before ++ (a, data) :: after) :
    ∃ context' children, plug context' (.node a data children) = plug context t ∧
      following context' children = after ++ Context.pending context := by
  induction t generalizing before after context with
  | empty => simp at preorder_eq
  | node b data' children ih =>
      rw [LinkedTree.preorder_node] at preorder_eq
      cases before with
      | nil =>
          cases preorder_eq
          exact ⟨context, children, rfl, rfl⟩
      | cons first before =>
          rw [List.cons_append, List.cons.injEq] at preorder_eq
          rcases append_eq_append_cons preorder_eq.2 with
            ⟨middle, left_eq, rfl⟩ | ⟨middle, _, right_eq⟩
          · rcases ih false (⟨b, data', false, children true⟩ :: context) left_eq with
              ⟨context', children', whole, rest⟩
            rw [Context.pending_left, ← List.append_assoc] at rest
            refine ⟨context', children', whole.trans ?_, rest⟩
            exact congrArg (plug context) (fill_child b data' false children)
          · rcases ih true (⟨b, data', true, children false⟩ :: context) right_eq with
              ⟨context', children', whole, rest⟩
            rw [Context.pending_right] at rest
            refine ⟨context', children', whole.trans ?_, rest⟩
            exact congrArg (plug context) (fill_child b data' true children)

/-- A property of all nodes is one of those of a walk. -/
theorem LinkedTree.All.mem_preorder {property : α → Prop} {t : LinkedTree α} (all : t.All property)
    {entry : Address × α} (member : entry ∈ t.preorder) : property entry.2 := by
  induction t with
  | empty => cases member
  | node a data children ih =>
      rw [preorder_node, List.mem_cons, List.mem_append] at member
      rcases member with rfl | member | member
      · exact all.1
      · exact ih false (all.2 false) member
      · exact ih true (all.2 true) member

/-- The nodes of a walk are on the heap. -/
theorem Represents.read_preorder {heap : Heap (Cell α)} {parent : Option Address} {t : LinkedTree α}
    (represented : Represents heap parent t) {entry : Address × α} (member : entry ∈ t.preorder) :
    ∃ cell, heap.read entry.1 = some cell ∧ cell.data = entry.2 := by
  induction t generalizing parent with
  | empty => cases member
  | node a data children ih =>
      rw [LinkedTree.preorder_node, List.mem_cons, List.mem_append] at member
      rcases member with rfl | member | member
      · exact ⟨_, represented.1, rfl⟩
      · exact ih false (represented.2 false) member
      · exact ih true (represented.2 true) member

/-! ## The way to the focus -/

/-- The node in focus and those above it, the nearest first. -/
def pathUp (context : Context α) (a : Address) (data : α) : List (Address × α) :=
  (a, data) :: context.map fun frame => (frame.address, frame.data)

/-- Each of them can be put into the focus. -/
theorem exists_plug_of_mem_pathUp {context : Context α} {a : Address} {data : α}
    (children : Bool → LinkedTree α) {entry : Address × α}
    (member : entry ∈ pathUp context a data) :
    ∃ context' children', plug context' (.node entry.1 entry.2 children') =
      plug context (.node a data children) := by
  induction context generalizing a data children with
  | nil =>
      rw [pathUp, List.map_nil, List.mem_singleton] at member
      subst member
      exact ⟨[], children, rfl⟩
  | cons frame context ih =>
      rcases List.mem_cons.mp member with rfl | above
      · exact ⟨frame :: context, children, rfl⟩
      · exact ih _ above

/-- A walk down passes the node where it starts, and stays below those above it. -/
theorem pathUp_descend {continues turn : α → Bool} {t : LinkedTree α} {context context' : Context α}
    {b : Address} {data' : α} {children' : Bool → LinkedTree α}
    (walked : t.descend continues turn context = (context', .node b data' children')) :
    (∀ frame ∈ context, (frame.address, frame.data) ∈ pathUp context' b data') ∧
      ∀ a data children, t = .node a data children → (a, data) ∈ pathUp context' b data' := by
  induction t generalizing context with
  | empty => cases walked
  | node a data children ih =>
      unfold LinkedTree.descend at walked
      split at walked
      · rcases ih _ walked with ⟨above, _⟩
        refine ⟨fun frame member => above frame (List.mem_cons_of_mem _ member), ?_⟩
        rintro _ _ _ ⟨rfl, rfl, rfl⟩
        exact above _ List.mem_cons_self
      · cases walked
        refine ⟨fun frame member => List.mem_cons_of_mem _ (List.mem_map.mpr ⟨frame, member, rfl⟩),
          ?_⟩
        rintro _ _ _ ⟨rfl, rfl, rfl⟩
        exact List.mem_cons_self

/-- In a list along which a relation decreases, the first match is above every other. -/
theorem find?_eq_or_rel {β : Type u} {rel : β → β → Prop} {property : β → Bool} {l : List β}
    {first other : β}
    (decreasing : l.Pairwise rel) (found : l.find? property = some first) (member : other ∈ l)
    (holds : property other = true) : other = first ∨ rel first other := by
  induction l with
  | nil => cases member
  | cons b l ih =>
      rw [List.pairwise_cons] at decreasing
      rw [List.find?_cons] at found
      cases here : property b with
      | true =>
          rw [here] at found
          cases found
          rcases List.mem_cons.mp member with rfl | later
          · exact Or.inl rfl
          · exact Or.inr (decreasing.1 other later)
      | false =>
          rw [here] at found
          rcases List.mem_cons.mp member with rfl | later
          · rw [here] at holds
            cases holds
          · exact ih decreasing.2 found later

end SkAsync.Library

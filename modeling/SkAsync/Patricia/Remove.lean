import SkAsync.Patricia.Find

/-!
# Removing a node

`remove_node` clears a node with two children, and otherwise takes the node out
and goes on with its parent while that has no value and less than two children.
Each of its cases is one change of the tree on the heap; none of them changes
what another key is found to have.
-/

namespace SkAsync.Patricia

open SkAsync.Library PatriciaTrie

variable {T : Type}

/-- A node without its value; the key keeps its bytes. -/
def cleared (data : NodeData T) : NodeData T :=
  { data with value := none, key := { data.key with bits := 0 } }

/-- The number of subtrees of a node. -/
def childCount (children : Bool → LinkedTree (NodeData T)) : Nat :=
  (if (children left).address = none then 0 else 1) +
    (if (children right).address = none then 0 else 1)

theorem edgecount_eq (data : NodeData T) (children : Bool → LinkedTree (NodeData T))
    (parent : NodePtr) :
    edgecount ⟨data, fun e => (children e).address, parent⟩ = childCount children :=
  rfl

/-- The number says which children there are. -/
theorem childCount_eq_two_iff {children : Bool → LinkedTree (NodeData T)} :
    childCount children = 2 ↔ ∀ e, children e ≠ .empty := by
  unfold childCount
  rw [Bool.forall_bool]
  by_cases l : children left = .empty <;> by_cases r : children right = .empty <;>
    simp [LinkedTree.address_eq_none_iff, l, r]

theorem childCount_eq_zero_iff {children : Bool → LinkedTree (NodeData T)} :
    childCount children = 0 ↔ ∀ e, children e = .empty := by
  unfold childCount
  rw [Bool.forall_bool]
  by_cases l : children left = .empty <;> by_cases r : children right = .empty <;>
    simp [LinkedTree.address_eq_none_iff, l, r]

theorem childCount_eq_one_iff {children : Bool → LinkedTree (NodeData T)} :
    childCount children = 1 ↔ ¬ (∀ e, children e ≠ .empty) ∧ ¬ ∀ e, children e = .empty := by
  rw [← childCount_eq_two_iff, ← childCount_eq_zero_iff]
  unfold childCount
  split <;> split <;> simp

/-- The loop asks it of the edges. -/
theorem childCount_ne_two_iff {children : Bool → LinkedTree (NodeData T)} :
    childCount children ≠ 2 ↔
      ¬ ((children left).address ≠ none ∧ (children right).address ≠ none) := by
  rw [ne_eq, childCount_eq_two_iff, Bool.forall_bool]
  simp only [ne_eq, LinkedTree.address_eq_none_iff]

/-- What takes the place of a node with less than two children. -/
def onlyChild (children : Bool → LinkedTree (NodeData T)) : LinkedTree (NodeData T) :=
  children (if (children left).address ≠ none then left else right)

/-- A node with one child: the edge that the source chooses is the one with the child. -/
theorem only_child {children : Bool → LinkedTree (NodeData T)}
    (notBoth : ¬ ∀ e, children e ≠ .empty)
    (notNone : ¬ ∀ e, children e = .empty) :
    ∃ edge, (if (children left).address ≠ none then left else right) = edge ∧
      children edge ≠ .empty ∧ children (!edge) = .empty := by
  rw [Bool.forall_bool] at notBoth notNone
  by_cases here : children left = .empty
  · refine ⟨right, if_neg (by simp [here]), fun other => notNone ⟨here, other⟩, here⟩
  · have there : children right = .empty := by
      by_contra other
      exact notBoth ⟨here, other⟩
    refine ⟨left, if_pos ?_, here, there⟩
    rw [ne_eq, LinkedTree.address_eq_none_iff]
    exact here

/-! ## The changes on the heap -/

section Changes

variable {heap : NodeHeap T} {context : Context (NodeData T)} {frame : Frame (NodeData T)}
  {a : Address} {data : NodeData T} {children : Bool → LinkedTree (NodeData T)}

/-- The focus is taken out: its cell is released, and the edge to it is cut. -/
theorem cut_focus {heap' : NodeHeap T} {root : NodePtr}
    (onHeap : OnHeap ⟨root, heap⟩ (plug (frame :: context) (.node a data children)))
    (read_eq : ∀ b, heap'.read b = if b = a then none else if b = frame.address then
      some ⟨frame.data, fun e => if e = frame.edge then none else frame.sibling.address,
        Context.parent context⟩ else heap.read b) :
    OnHeap ⟨root, heap'⟩ (plug (frame :: context) .empty) := by
  have aboveNotSelf := (frame_apart onHeap.distinct).1
  refine ⟨?_, ?_, ?_⟩
  · rw [onHeap.root_eq]
    exact address_plug_cons frame context _ _
  · rw [represents_plug_iff]
    refine ⟨?_, trivial⟩
    apply context_congr onHeap.represents onHeap.distinct
    · intro b _ outside notAbove
      have notSelf : b ≠ a := by
        rintro rfl
        exact outside (by simp)
      rw [read_eq, if_neg notSelf, if_neg notAbove]
    · rw [read_eq, if_neg aboveNotSelf, if_pos rfl]
      rfl
  · exact distinct_plug_of_subperm onHeap.distinct List.nodup_nil (by simp) List.nil_subperm

/-- A childless node is taken out. -/
theorem removeLeaf_spec (build : Build) {root : NodePtr}
    (onHeap : OnHeap ⟨root, heap⟩ (plug (frame :: context) (.node a data children)))
    (childless : ∀ e, children e = .empty) :
    ∃ heap', removeLeaf build heap (some a) = .ok (some frame.address, heap') ∧
      OnHeap ⟨root, heap'⟩ (plug (frame :: context) .empty) ∧ heap'.size = heap.size := by
  have self := focus_read onHeap.represents
  have above := frame_read onHeap.represents
  have aboveNotSelf := (frame_apart onHeap.distinct).1
  have inHeap := Heap.lt_size_of_read above
  generalize detached_eq : heap.write frame.address ⟨frame.data,
    fun e => if e = frame.edge then none else frame.sibling.address,
    Context.parent context⟩ = detached
  have read_detached : ∀ b, detached.read b = if b = frame.address then some ⟨frame.data,
      fun e => if e = frame.edge then none else frame.sibling.address,
      Context.parent context⟩ else heap.read b := by
    intro b
    rw [← detached_eq, Heap.read_write inHeap]
  have self_detached : detached.read a = some ⟨data, fun e => (children e).address,
      some frame.address⟩ := by
    rw [read_detached, if_neg aboveNotSelf.symm, self]
    rfl
  refine ⟨detached.release a, ?_, cut_focus onHeap ?_, ?_⟩
  · have noEdges : ∀ e, (children e).address = none := by
      intro e
      rw [childless e]
      rfl
    have onEdge : (if left = frame.edge then some a else frame.sibling.address) = some a ∨
        (if right = frame.edge then some a else frame.sibling.address) = some a := by
      cases frame.edge
      · exact Or.inl (if_pos rfl)
      · exact Or.inr (if_pos rfl)
    rw [removeLeaf, deref_eq self, ok_bind]
    dsimp only
    rw [Context.parent_cons, deref_eq above, ok_bind]
    dsimp only
    rw [LinkedTree.address_node, skCheck_of onEdge, ok_bind, which_frame onHeap.distinct above,
      ok_bind, update_eq above, ok_bind]
    dsimp only
    rw [LinkedTree.address_node, setEdge_frame, detached_eq,
      deleteSelf_of_no_edges self_detached noEdges]
    rfl
  · intro b
    rw [Heap.read_release, read_detached]
  · rw [Heap.size_release, ← detached_eq, Heap.size_write]

/-! ### Cutting off the only child -/

section OnlyChild

variable {edge : Bool} {c : Address} {childData : NodeData T}
  {grandchildren : Bool → LinkedTree (NodeData T)}

/-- What is below the child is elsewhere than the child and what is above it. -/
theorem below_child_apart (distinct : (plug context (.node a data children)).Distinct)
    (child_eq : children edge = .node c childData grandchildren) {e : Bool} {b : Address}
    (member : b ∈ (grandchildren e).addresses) :
    b ≠ a ∧ b ≠ c ∧ b ∉ Context.addresses context := by
  have apart := distinct.apart edge
  have childDistinct := (distinct_plug_iff.mp distinct).1.child edge
  have inside : b ∈ (LinkedTree.node c childData grandchildren).addresses :=
    mem_addresses_of_child member
  rw [child_eq] at apart childDistinct
  refine ⟨?_, ?_, (apart.2 b inside).2⟩
  · rintro rfl
    exact apart.1.1 inside
  · rintro rfl
    have childDistinct' : (plug [] (LinkedTree.node b childData grandchildren)).Distinct :=
      childDistinct
    exact (childDistinct'.apart e).1.1 member

/-- `detach` changes the node and the child, and nothing else. -/
theorem detach_child (represented : Represents heap none (plug context (.node a data children)))
    (distinct : (plug context (.node a data children)).Distinct)
    (child_eq : children edge = .node c childData grandchildren) :
    c ≠ a ∧ ∃ heap', detach heap (some a) edge = .ok (some c, heap') ∧ heap'.size = heap.size ∧
      heap'.read a = some ⟨data, setEdge (fun e => (children e).address) edge none,
        Context.parent context⟩ ∧
      heap'.read c = some ⟨childData, fun e => (grandchildren e).address, none⟩ ∧
      ∀ b, b ≠ a → b ≠ c → heap'.read b = heap.read b := by
  have self := focus_read represented
  have apart := distinct.apart edge
  have below := (represents_plug_iff.mp represented).2.2 edge
  have edge_eq : (children edge).address = some c := by
    rw [child_eq]
    rfl
  rw [child_eq] at apart below
  have childNotSelf : c ≠ a := by
    rintro rfl
    exact apart.1.1 (by simp)
  refine ⟨childNotSelf, _, detach_of_some self edge_eq below.1 childNotSelf, ?_, ?_, ?_, ?_⟩
  · rw [Heap.size_write, Heap.size_write]
  · rw [Heap.read_write (by simpa using Heap.lt_size_of_read below.1), if_neg childNotSelf.symm,
      Heap.read_write (Heap.lt_size_of_read self), if_pos rfl]
  · rw [Heap.read_write (by simpa using Heap.lt_size_of_read below.1), if_pos rfl]
  · intro b notSelf notChild
    rw [Heap.read_write (by simpa using Heap.lt_size_of_read below.1), if_neg notChild,
      Heap.read_write (Heap.lt_size_of_read self), if_neg notSelf]

/-- Then the node has no edges. -/
theorem no_edges_of_only_child (noOther : children (!edge) = .empty) (e : Bool) :
    setEdge (fun e => (children e).address) edge none e = none := by
  rw [setEdge_children, noOther]
  dsimp only
  split <;> rfl

end OnlyChild

/-- A node with one child is replaced by the child. -/
theorem removeInner_spec (build : Build) {root : NodePtr} {edge : Bool}
    (onHeap : OnHeap ⟨root, heap⟩ (plug (frame :: context) (.node a data children)))
    (chosen : (if (children left).address ≠ none then left else right) = edge)
    (child : children edge ≠ .empty) (noOther : children (!edge) = .empty) :
    ∃ heap', removeInner build heap (some a) = .ok (some frame.address, heap') ∧
      OnHeap ⟨root, heap'⟩ (plug (frame :: context) (children edge)) ∧
      heap'.size = heap.size := by
  have represented := onHeap.represents
  have distinct := onHeap.distinct
  have self := focus_read represented
  have above := frame_read represented
  have aboveNotSelf := (frame_apart distinct).1
  have apart := distinct.apart edge
  have below := (represents_plug_iff.mp represented).2.2 edge
  cases child_eq : children edge with
  | empty => exact absurd child_eq child
  | node c childData grandchildren =>
      rw [child_eq] at apart below
      have aboveNotChild : frame.address ≠ c := by
        rintro rfl
        exact (apart.2 frame.address (by simp)).2 (by simp)
      -- the child is cut off from the node
      rcases detach_child represented distinct child_eq with
        ⟨childNotSelf, detached, detach_eq, detached_size, self_detached, child_detached,
          detached_kept⟩
      have above_detached := (detached_kept _ aboveNotSelf aboveNotChild).trans above
      -- and attached to the node above
      rcases attach_frame above_detached self_detached child_detached aboveNotSelf aboveNotChild
        childNotSelf.symm with
        ⟨attached, attach_eq, size_eq, above_eq, child_attached, self_attached, others⟩
      have kept : ∀ b, b ≠ a → b ≠ c → b ≠ frame.address →
          (attached.release a).read b = heap.read b := by
        intro b notSelf notChild notAbove
        rw [Heap.read_release, if_neg notSelf, others b notAbove notChild notSelf,
          detached_kept b notSelf notChild]
      refine ⟨attached.release a, ?_, ⟨?_, ?_, ?_⟩, ?_⟩
      · rw [removeInner, deref_eq self, ok_bind]
        dsimp only
        rw [Context.parent_cons, which_frame distinct above, ok_bind, chosen, detach_eq, ok_bind]
        dsimp only
        rw [attach_eq, ok_bind]
        dsimp only
        rw [deleteSelf_of_no_edges self_attached (no_edges_of_only_child noOther)]
        rfl
      · rw [onHeap.root_eq]
        exact address_plug_cons frame context _ _
      · rw [represents_plug_iff]
        refine ⟨?_, ?_, ?_⟩
        · apply context_congr represented distinct
          · intro b _ outside notAbove
            apply kept b _ _ notAbove
            · rintro rfl
              exact outside (by simp)
            · rintro rfl
              have inside : b ∈ (children edge).addresses := by
                rw [child_eq]
                simp
              exact outside (mem_addresses_of_child inside)
          · rw [Heap.read_release, if_neg aboveNotSelf, above_eq]
            rfl
        · rw [Heap.read_release, if_neg childNotSelf, child_attached]
          rfl
        · intro e
          apply (below.2 e).congr
          intro b member
          rcases below_child_apart distinct child_eq member with ⟨notSelf, notChild, outside⟩
          apply kept b notSelf notChild
          rintro rfl
          exact outside (by simp)
      · apply distinct_plug_of_subperm distinct List.nodup_nil (by simp)
        have node_perm := LinkedTree.addresses_node_perm a data edge children
        rw [child_eq, noOther] at node_perm
        refine List.Subperm.trans (List.Sublist.subperm ?_) node_perm.symm.subperm
        simp
      · rw [Heap.size_release, size_eq, detached_size]

theorem cleared_eq_self (noValue : data.value = none) (noKey : data.key.bits = 0) :
    cleared data = data := by
  rcases data with ⟨bit, value, ⟨bytes, bits⟩⟩
  dsimp only at noValue noKey
  subst noValue noKey
  rfl

/-- The first step at the root: the value is cleared, if there is one. -/
theorem clearRoot_spec {trie : PatriciaTrie T} (onHeap : OnHeap trie (.node a data children))
    (noKey : data.value = none → data.key.bits = 0) :
    ∃ heap', clearRoot trie.heap (some a) = .ok heap' ∧
      OnHeap ⟨trie.root, heap'⟩ (.node a (cleared data) children) := by
  unfold clearRoot
  rw [deref_eq onHeap.represents.1, ok_bind]
  dsimp only
  cases present : data.value.isSome with
  | true =>
      have onHeap' : OnHeap trie (plug [] (.node a data children)) := onHeap
      rcases update_focus onHeap' cleared with ⟨heap', updated, changed⟩
      exact ⟨heap', updated, changed⟩
  | false =>
      rw [Option.isSome_eq_false_iff, Option.isNone_iff_eq_none] at present
      rw [cleared_eq_self present (noKey present)]
      exact ⟨trie.heap, rfl, onHeap⟩

/-- A root without children stays, without a value. -/
theorem removeRoot_of_childless (build : Build) {trie : PatriciaTrie T}
    (onHeap : OnHeap trie (.node a data children)) (noKey : data.value = none → data.key.bits = 0)
    (childless : ∀ e, children e = .empty) :
    ∃ trie', removeRoot build trie (some a) = .ok trie' ∧
      OnHeap trie' (.node a (cleared data) children) := by
  rcases clearRoot_spec onHeap noKey with ⟨heap', clear_eq, onHeap'⟩
  refine ⟨⟨trie.root, heap'⟩, ?_, onHeap'⟩
  have count : edgecount ⟨data, fun e => (children e).address, none⟩ ≤ 1 :=
    (childCount_eq_zero_iff.mpr childless).le.trans (Nat.zero_le 1)
  have noEdges : (children left).address = none ∧ (children right).address = none := by
    rw [childless, childless]
    exact ⟨rfl, rfl⟩
  rw [removeRoot, deref_eq onHeap.represents.1, ok_bind, skCheck_of rfl, ok_bind,
    skCheck_of count, ok_bind, clear_eq, ok_bind, if_pos noEdges]
  rfl

/-- The only child of the root becomes the root. -/
theorem removeRoot_of_child (build : Build) {trie : PatriciaTrie T} {edge : Bool}
    (onHeap : OnHeap trie (.node a data children)) (noKey : data.value = none → data.key.bits = 0)
    (chosen : (if (children left).address ≠ none then left else right) = edge)
    (child : children edge ≠ .empty) (noOther : children (!edge) = .empty) :
    ∃ trie', removeRoot build trie (some a) = .ok trie' ∧ OnHeap trie' (children edge) := by
  rcases clearRoot_spec onHeap noKey with ⟨heap', clear_eq, onHeap'⟩
  have represented : Represents heap' none (plug [] (.node a (cleared data) children)) :=
    onHeap'.represents
  have distinct : (plug [] (LinkedTree.node a (cleared data) children)).Distinct := onHeap'.distinct
  have childDistinct := onHeap'.distinct.child edge
  have below := onHeap'.represents.2 edge
  cases child_eq : children edge with
  | empty => exact absurd child_eq child
  | node c childData grandchildren =>
      rw [child_eq] at below childDistinct
      rcases detach_child represented distinct child_eq with
        ⟨childNotSelf, detached, detach_eq, _, self_detached, child_detached, detached_kept⟩
      refine ⟨⟨some c, detached.release a⟩, ?_, rfl, ⟨?_, ?_⟩, childDistinct⟩
      · have count : edgecount ⟨data, fun e => (children e).address, none⟩ ≤ 1 := by
          unfold edgecount
          cases edge
          · have noRight : children right = .empty := noOther
            simp [noRight]
            split <;> simp
          · have noLeft : children left = .empty := noOther
            simp [noLeft]
            split <;> simp
        have someEdge : ¬ ((children left).address = none ∧ (children right).address = none) := by
          rintro ⟨noLeft, noRight⟩
          rw [LinkedTree.address_eq_none_iff] at noLeft noRight
          cases edge
          · exact child noLeft
          · exact child noRight
        rw [removeRoot, deref_eq onHeap.represents.1, ok_bind, skCheck_of rfl, ok_bind,
          skCheck_of count, ok_bind, clear_eq, ok_bind, if_neg someEdge]
        dsimp only
        rw [chosen, detach_eq, ok_bind]
        dsimp only
        rw [deleteSelf_of_no_edges self_detached (no_edges_of_only_child noOther)]
        rfl
      · rw [Heap.read_release, if_neg childNotSelf, child_detached]
      · intro e
        apply (below.2 e).congr
        intro b member
        rcases below_child_apart distinct child_eq member with ⟨notSelf, notChild, _⟩
        rw [Heap.read_release, if_neg notSelf, detached_kept b notSelf notChild]

end Changes

/-! ## The whole removal -/

/-- The pointer to the root is that of a node above the focus. -/
theorem address_plug_mem {frame : Frame (NodeData T)} {context : Context (NodeData T)}
    {t : LinkedTree (NodeData T)} {r : Address}
    (root : (plug (frame :: context) t).address = some r) :
    r ∈ Context.addresses (frame :: context) := by
  induction context generalizing frame t with
  | nil =>
      cases root
      simp
  | cons frame' context ih =>
      have above := ih (show (plug (frame' :: context) (frame.fill t)).address = some r from root)
      rw [Context.addresses_cons]
      simp only [List.mem_cons, List.mem_append] at above ⊢
      exact Or.inr (Or.inr (by simpa using above))

theorem root_ne_focus {trie : PatriciaTrie T} {frame : Frame (NodeData T)}
    {context : Context (NodeData T)} {a : Address} {data : NodeData T}
    {children : Bool → LinkedTree (NodeData T)}
    (onHeap : OnHeap trie (plug (frame :: context) (.node a data children))) :
    some a ≠ trie.root := by
  intro same
  rw [onHeap.root_eq] at same
  exact (distinct_plug_iff.mp onHeap.distinct).2.2 a (by simp) (address_plug_mem same.symm)

theorem cleared_labelled {data : NodeData T} {label : List Bool} (labelled : Labelled data label) :
    Labelled (cleared data) label :=
  ⟨labelled.length_eq, Or.inl rfl, (fun impossible => by cases impossible), fun _ => rfl⟩

/-- A node without a value and with one child is only a way to the child. -/
theorem lookup_only_child {a : Address} {data : NodeData T}
    {children : Bool → LinkedTree (NodeData T)}
    {label : List Bool} {edge : Bool} (labelled : Labelled data label)
    (inside : ∀ e, WellFormed (label ++ [e]) (children e)) (noOther : children (!edge) = .empty)
    (q : List Bool) : lookup (.node a (cleared data) children) q = lookup (children edge) q := by
  have bit_eq : (cleared data).bit = label.length := labelled.length_eq.symm
  have absent : ¬ label ++ [edge] <+: q → lookup (children edge) q = none :=
    (inside edge).lookup_eq_none
  rw [lookup_node, bit_eq]
  by_cases longer : label.length < q.length
  · rw [if_pos longer]
    by_cases sameEdge : bitAt q label.length = edge
    · rw [sameEdge]
    · rw [eq_not_of_ne sameEdge, noOther, absent]
      · rfl
      · exact fun below => sameEdge (append_singleton_prefix_iff.mp below).2.2
  · rw [if_neg longer, absent]
    · split <;> rfl
    · exact fun below => longer (append_singleton_prefix_iff.mp below).2.1

theorem clearValue_spec {trie : PatriciaTrie T} {context : Context (NodeData T)} {a : Address}
    {data : NodeData T} {children : Bool → LinkedTree (NodeData T)}
    (onHeap : OnHeap trie (plug context (.node a data children))) :
    ∃ heap', clearValue trie.heap (some a) = .ok heap' ∧
      OnHeap ⟨trie.root, heap'⟩ (plug context (.node a (cleared data) children)) :=
  update_focus onHeap cleared

/-- A node below the root with less than two children is replaced by its child,
or by nothing. -/
theorem removeBelow_eq (build : Build) {trie : PatriciaTrie T} {frame : Frame (NodeData T)}
    {context : Context (NodeData T)} {a : Address} {data : NodeData T}
    {children : Bool → LinkedTree (NodeData T)}
    (onHeap : OnHeap trie (plug (frame :: context) (.node a data children)))
    (notBoth : ¬ ∀ e, children e ≠ .empty) :
    ∃ heap', removeBelow build trie.heap (some a) = .ok (some frame.address, heap') ∧
      OnHeap ⟨trie.root, heap'⟩ (plug (frame :: context) (onlyChild children)) := by
  rw [removeBelow, focus_deref onHeap.represents, ok_bind, edgecount_eq, onlyChild]
  by_cases childless : ∀ e, children e = .empty
  · rw [if_pos (childCount_eq_zero_iff.mpr childless), childless]
    rcases removeLeaf_spec build onHeap childless with ⟨heap', removed, onHeap', _⟩
    exact ⟨heap', removed, onHeap'⟩
  · rw [if_neg (fun zero => childless (childCount_eq_zero_iff.mp zero))]
    rcases only_child notBoth childless with ⟨edge, chosen, child, noOther⟩
    rcases removeInner_spec build onHeap chosen child noOther with ⟨heap', removed, onHeap', _⟩
    rw [chosen]
    exact ⟨heap', removed, onHeap'⟩

/-- The tree without the value of the node in focus, and without the nodes that
have become superfluous. -/
def pruned : Context (NodeData T) → Address → NodeData T → (Bool → LinkedTree (NodeData T)) →
    LinkedTree (NodeData T)
  | [], a, data, children =>
      if childCount children = 1 then onlyChild children else .node a (cleared data) children
  | frame :: context, a, data, children =>
      if childCount children = 2 then plug (frame :: context) (.node a (cleared data) children)
      else if frame.data.value.isNone ∧
          childCount (LinkedTree.onEdge frame.edge (onlyChild children) frame.sibling) ≠ 2 then
        pruned context frame.address frame.data
          (LinkedTree.onEdge frame.edge (onlyChild children) frame.sibling)
      else plug (frame :: context) (onlyChild children)

/-- The loop clears the node and takes out what has become superfluous.  The
induction is on the nodes above, which the loop goes through. -/
theorem removeLoop_eq (build : Build) {context : Context (NodeData T)} :
    ∀ {trie : PatriciaTrie T} {a : Address} {data : NodeData T}
      {children : Bool → LinkedTree (NodeData T)} {fuel : Nat},
    OnHeap trie (plug context (.node a data children)) →
    (data.value = none → data.key.bits = 0) →
    (∀ frame ∈ context, frame.data.value = none → frame.data.key.bits = 0) →
    context.length < fuel →
    ∃ trie', removeLoop build fuel trie (some a) = .ok trie' ∧
      OnHeap trie' (pruned context a data children) := by
  induction context with
  | nil =>
      intro trie a data children fuel onHeap noKey _ enough
      cases fuel with
      | zero => cases enough
      | succ fuel =>
          have isRoot : some a = trie.root := onHeap.root_eq.symm
          rw [removeLoop, focus_deref onHeap.represents, ok_bind, edgecount_eq, pruned]
          by_cases both : ∀ e, children e ≠ .empty
          · rcases clearValue_spec onHeap with ⟨heap', clear_eq, changed⟩
            have two := childCount_eq_two_iff.mpr both
            rw [if_pos two, if_neg (by omega), clear_eq]
            exact ⟨⟨trie.root, heap'⟩, rfl, changed⟩
          · rw [if_neg (fun two => both (childCount_eq_two_iff.mp two)), if_pos isRoot]
            by_cases childless : ∀ e, children e = .empty
            · have zero := childCount_eq_zero_iff.mpr childless
              rw [if_neg (by omega)]
              exact removeRoot_of_childless build onHeap noKey childless
            · rcases only_child both childless with ⟨edge, chosen, child, noOther⟩
              rw [if_pos (childCount_eq_one_iff.mpr ⟨both, childless⟩), onlyChild, chosen]
              exact removeRoot_of_child build onHeap noKey chosen child noOther
  | cons frame context ih =>
      intro trie a data children fuel onHeap noKey noKeys enough
      cases fuel with
      | zero => cases enough
      | succ fuel =>
          rw [List.forall_mem_cons] at noKeys
          rw [removeLoop, focus_deref onHeap.represents, ok_bind, edgecount_eq, pruned]
          by_cases both : childCount children = 2
          · rcases clearValue_spec onHeap with ⟨heap', clear_eq, changed⟩
            rw [if_pos both, if_pos both, clear_eq]
            exact ⟨⟨trie.root, heap'⟩, rfl, changed⟩
          · rw [if_neg both, if_neg both, if_neg (root_ne_focus onHeap)]
            rcases removeBelow_eq build onHeap
                (fun all => both (childCount_eq_two_iff.mpr all)) with
              ⟨heap', removed, onHeap'⟩
            have above : OnHeap ⟨trie.root, heap'⟩ (plug context (.node frame.address frame.data
                (LinkedTree.onEdge frame.edge (onlyChild children) frame.sibling))) := onHeap'
            rw [removed, ok_bind]
            dsimp only
            rw [focus_deref above.represents, ok_bind]
            dsimp only
            by_cases goes : frame.data.value.isNone = true ∧
                childCount (LinkedTree.onEdge frame.edge (onlyChild children) frame.sibling) ≠ 2
            · -- the loop goes on with the node above, which has no value
              rw [if_pos goes, if_pos ⟨goes.1, childCount_ne_two_iff.mp goes.2⟩]
              exact ih above noKeys.1 noKeys.2 (Nat.lt_of_succ_lt_succ enough)
            · rw [if_neg goes, if_neg]
              · exact ⟨⟨trie.root, heap'⟩, rfl, onHeap'⟩
              · exact fun asked => goes ⟨asked.1, childCount_ne_two_iff.mpr asked.2⟩

/-! ## What a removal preserves -/

/-- What survives that a superfluous node is taken out holds of the tree that is
left, if it holds without the value. -/
theorem pruned_rule (property : LinkedTree (NodeData T) → Prop) {context : Context (NodeData T)}
    {a : Address} {data : NodeData T} {children : Bool → LinkedTree (NodeData T)}
    (noKeys : ∀ frame ∈ context, frame.data.value = none → frame.data.key.bits = 0)
    (takeOut : ∀ (context : Context (NodeData T)) (a : Address) (data : NodeData T)
      (children : Bool → LinkedTree (NodeData T)) (edge : Bool), data.value = none →
      children (!edge) = .empty → property (plug context (.node a data children)) →
      property (plug context (children edge)))
    (start : property (plug context (.node a (cleared data) children))) :
    property (pruned context a data children) := by
  -- the edge that the source chooses has the only child, if there is one
  have noOther : ∀ {children : Bool → LinkedTree (NodeData T)}, childCount children ≠ 2 →
      children (!(if (children left).address ≠ none then left else right)) = .empty := by
    intro children notBoth
    rw [ne_eq, childCount_eq_two_iff] at notBoth
    by_cases childless : ∀ e, children e = .empty
    · exact childless _
    · rcases only_child notBoth childless with ⟨edge, chosen, _, noOther⟩
      rw [chosen, noOther]
  induction context generalizing a data children with
  | nil =>
      rw [pruned]
      split
      · rename_i one
        exact takeOut [] a (cleared data) children _ rfl (noOther (by omega)) start
      · exact start
  | cons frame context ih =>
      rw [List.forall_mem_cons] at noKeys
      rw [pruned]
      split
      · exact start
      · rename_i notBoth
        have out : property (plug (frame :: context) (onlyChild children)) :=
          takeOut (frame :: context) a (cleared data) children _ rfl (noOther notBoth) start
        split
        · rename_i goes
          have noValue := Option.isNone_iff_eq_none.mp goes.1
          apply ih noKeys.2
          rw [cleared_eq_self noValue (noKeys.1 noValue)]
          exact out
        · exact out

/-- A node with a value may lose a child. -/
theorem rootBranching_of_lost_child {strict : Nat → Prop} {frame : Frame (NodeData T)}
    {context : Context (NodeData T)} (hasValue : frame.data.value ≠ none)
    (aroundBranching : ContextBranching strict (frame :: context)) :
    RootBranching strict (plug (frame :: context) .empty) := by
  rcases aroundBranching with ⟨_, sibling, around⟩
  cases context with
  | nil =>
      exact ⟨fun noValue => absurd noValue hasValue, (forall_onEdge_iff _).mpr ⟨trivial, sibling⟩⟩
  | cons frame' context =>
      rw [plug_cons, rootBranching_plug_iff (fun impossible => by cases impossible)]
      exact ⟨branching_fill_iff.mpr ⟨fun noValue => absurd noValue hasValue, trivial, sibling⟩,
        around⟩

/-- The tree that is left branches: no node without a value stays with less than two children. -/
theorem pruned_branching {strict : Nat → Prop} {context : Context (NodeData T)} {a : Address}
    {data : NodeData T} {children : Bool → LinkedTree (NodeData T)}
    (around : ContextBranching strict context) (below : ∀ e, Branching (children e)) :
    RootBranching strict (pruned context a data children) := by
  induction context generalizing a data children with
  | nil =>
      rw [pruned]
      split
      · rename_i one
        cases child_eq : onlyChild children with
        | empty => trivial
        | node c childData grandchildren =>
            have branching : Branching (onlyChild children) := below _
            rw [child_eq] at branching
            exact ⟨fun noValue _ => Or.inl (branching.1 noValue), branching.2⟩
      · rename_i notOne
        refine ⟨fun _ _ => ?_, below⟩
        rw [childCount_eq_one_iff] at notOne
        by_contra neither
        rw [not_or] at neither
        exact notOne neither
  | cons frame context ih =>
      rw [pruned]
      split
      · rename_i both
        exact (rootBranching_plug_iff (fun impossible => by cases impossible)).mpr
          ⟨⟨fun _ => childCount_eq_two_iff.mp both, below⟩, around⟩
      · have branching : Branching (onlyChild children) := below _
        split
        · exact ih around.2.2 ((forall_onEdge_iff _).mpr ⟨branching, around.2.1⟩)
        · rename_i stays
          by_cases nonempty : onlyChild children = .empty
          · rw [nonempty] at stays ⊢
            apply rootBranching_of_lost_child _ around
            intro noValue
            refine stays ⟨Option.isNone_iff_eq_none.mpr noValue, fun both => ?_⟩
            have present := childCount_eq_two_iff.mp both frame.edge
            rw [LinkedTree.onEdge_self] at present
            exact present rfl
          · exact (rootBranching_plug_iff nonempty).mpr ⟨branching, around⟩

/-- What a removal leaves: a well-formed tree with given values. -/
structure Left (strict : Nat → Prop) (trie : PatriciaTrie T) (values : List Bool → Option T)
    (t : LinkedTree (NodeData T)) : Prop where
  onHeap : OnHeap trie t
  wellFormed : WellFormed [] t
  branching : RootBranching strict t
  lookup_eq : ∀ q, lookup t q = values q

theorem Left.congr {strict : Nat → Prop} {trie : PatriciaTrie T}
    {values values' : List Bool → Option T}
    {t : LinkedTree (NodeData T)} (left : Left strict trie values t)
    (same : ∀ q, values q = values' q) :
    Left strict trie values' t :=
  ⟨left.onHeap, left.wellFormed, left.branching, fun q => (left.lookup_eq q).trans (same q)⟩

/-- The nodes around the focus have no key without a value. -/
theorem ContextWellFormed.no_keys {context : Context (NodeData T)} {lower : List Bool}
    (wellFormed : ContextWellFormed context lower) :
    ∀ frame ∈ context, frame.data.value = none → frame.data.key.bits = 0 := by
  induction context generalizing lower with
  | nil => exact fun frame member => by cases member
  | cons frame context ih =>
      rcases wellFormed with ⟨outer, label, _, _, labelled, _, around⟩
      exact List.forall_mem_cons.mpr ⟨labelled.no_key, ih around⟩

/-- Taking out a superfluous node leaves a well-formed tree with the same values. -/
theorem wellFormed_of_taken_out {context : Context (NodeData T)} {a : Address} {data : NodeData T}
    {children : Bool → LinkedTree (NodeData T)} {edge : Bool} (noValue : data.value = none)
    (noOther : children (!edge) = .empty)
    (wellFormed : WellFormed [] (plug context (.node a data children))) :
    WellFormed [] (plug context (children edge)) ∧
      ∀ q, lookup (plug context (children edge)) q =
        lookup (plug context (.node a data children)) q := by
  rcases wellFormed_plug_iff.mp wellFormed with ⟨lower, around, label, extends_, labelled, inside⟩
  have child : WellFormed lower (children edge) :=
    (inside edge).mono (extends_.trans (List.prefix_append _ _))
  have node : WellFormed lower (.node a data children) := ⟨label, extends_, labelled, inside⟩
  refine ⟨wellFormed_plug_iff.mpr ⟨lower, around, child⟩, fun q => ?_⟩
  apply lookup_plug_congr child node
  intro _
  have same := lookup_only_child (a := a) labelled inside noOther q
  rw [cleared_eq_self noValue (labelled.no_key noValue)] at same
  exact same.symm

/-- The loop leaves a well-formed tree without the value of the node. -/
theorem removeLoop_spec (build : Build) {strict : Nat → Prop} {context : Context (NodeData T)}
    {trie : PatriciaTrie T} {a : Address} {data : NodeData T}
    {children : Bool → LinkedTree (NodeData T)} {lower label : List Bool} {fuel : Nat}
    (onHeap : OnHeap trie (plug context (.node a data children)))
    (around : ContextWellFormed context lower) (extends_ : lower <+: label)
    (labelled : Labelled data label) (inside : ∀ e, WellFormed (label ++ [e]) (children e))
    (aroundBranching : ContextBranching strict context) (branching : ∀ e, Branching (children e))
    (enough : context.length < fuel) :
    ∃ trie' t', removeLoop build fuel trie (some a) = .ok trie' ∧
      Left strict trie' (lookup (plug context (.node a (cleared data) children))) t' := by
  rcases removeLoop_eq build onHeap labelled.no_key around.no_keys enough with
    ⟨trie', removed, onHeap'⟩
  have kept : WellFormed [] (pruned context a data children) ∧
      ∀ q, lookup (pruned context a data children) q =
        lookup (plug context (.node a (cleared data) children)) q := by
    apply pruned_rule (fun t => WellFormed [] t ∧
      ∀ q, lookup t q = lookup (plug context (.node a (cleared data) children)) q) around.no_keys
    · rintro context b data' children' edge noValue noOther ⟨formed, same⟩
      rcases wellFormed_of_taken_out noValue noOther formed with ⟨formed', same'⟩
      exact ⟨formed', fun q => (same' q).trans (same q)⟩
    · refine ⟨wellFormed_plug_iff.mpr ⟨lower, around, label, extends_, ?_, inside⟩, fun _ => rfl⟩
      exact cleared_labelled labelled
  exact ⟨trie', _, removed, onHeap', kept.1, pruned_branching aroundBranching branching, kept.2⟩

/-- Removing a node of a well-formed tree takes away the value of its label. -/
theorem removeNode_spec (build : Build) {strict : Nat → Prop} {trie : PatriciaTrie T}
    {context : Context (NodeData T)} {a : Address} {data : NodeData T}
    {children : Bool → LinkedTree (NodeData T)} {value : T}
    (onHeap : OnHeap trie (plug context (.node a data children)))
    (wellFormed : WellFormed [] (plug context (.node a data children)))
    (branching : RootBranching strict (plug context (.node a data children)))
    (hasValue : data.value = some value) :
    ∃ trie' t', removeNode build trie (some a) = .ok trie' ∧
      Left strict trie' (fun q => if q = data.key.content then none
        else lookup (plug context (.node a data children)) q) t' := by
  rcases wellFormed_plug_iff.mp wellFormed with ⟨lower, around, label, extends_, labelled, inside⟩
  have content_eq := labelled.content_eq (by rw [hasValue]; rfl)
  have aroundBranching := branching.focus
  have bound := onHeap.length_le
  have enough : context.length < trie.heap.size + 1 := by omega
  rcases removeLoop_spec build onHeap around extends_ labelled inside aroundBranching.1
    aroundBranching.2 enough with ⟨trie', t', removed, left⟩
  refine ⟨trie', t', removed, left.congr fun q => ?_⟩
  rw [content_eq]
  apply lookup_plug_update (.node a data children) (.node a (cleared data) children) none around
    ⟨label, extends_, labelled, inside⟩
    ⟨label, extends_, cleared_labelled labelled, inside⟩ extends_
  intro q _
  rw [lookup_node, lookup_node]
  have bit_eq : (cleared data).bit = data.bit := rfl
  rw [bit_eq, ← labelled.length_eq]
  by_cases here : q = label
  · subst here
    rw [if_neg (Nat.lt_irrefl _), if_pos rfl]
    split <;> rfl
  · rw [if_neg here, content_eq, if_neg (Ne.symm here)]
    split
    · rfl
    · split <;> rfl

end SkAsync.Patricia

import SkAsync.Patricia.Iterate
import SkAsync.Patricia.Remove

/-!
# Deleting a tree of nodes

`_delete_children` goes through the nodes in pre-order and deletes each node
when it leaves it for the last time.  What is still there is a tree at any
time: the nodes above the pointer, without what was on their left.
-/

namespace SkAsync.Patricia

open SkAsync.Library

variable {T : Type}

section Walk

variable {old heap : NodeHeap T} {root : NodePtr} {whole t : LinkedTree (NodeData T)}
  {context : Context (NodeData T)} {a : Address} {data : NodeData T}

/-- Of the tree `whole` on the heap `old`, the tree `t` is left. -/
structure Deleting (old : NodeHeap T) (whole : LinkedTree (NodeData T)) (root : NodePtr)
    (heap : NodeHeap T) (t : LinkedTree (NodeData T)) : Prop where
  onHeap : OnHeap ⟨root, heap⟩ t
  size_eq : heap.size = old.size
  inside : ∀ b ∈ t.addresses, b ∈ whole.addresses
  gone : ∀ b ∈ whole.addresses, b ∉ t.addresses → heap.read b = none
  kept : ∀ b, b ∉ whole.addresses → heap.read b = old.read b

/-- Nothing is left on the left of the way to the focus. -/
def Passed (context : Context (NodeData T)) : Prop :=
  ∀ frame ∈ context, frame.edge = right → frame.sibling = .empty

theorem deleteEdge_of_none {e : Edge} {node : PatriciaNode T} (live : heap.read a = some node)
    (noEdge : node.edges e = none) : deleteEdge heap (some a) e = .ok heap := by
  rw [deleteEdge, deref_eq live, ok_bind, if_pos noEdge]
  rfl

/-- The heap without the focus. -/
def cutHeap (heap : NodeHeap T) (frame : Frame (NodeData T)) (context : Context (NodeData T))
    (a : Address) : NodeHeap T :=
  (heap.write frame.address ⟨frame.data,
    fun e => if e = frame.edge then none else frame.sibling.address,
    Context.parent context⟩).release a

/-- When the focus is deleted, the rest of the tree is left. -/
theorem Deleting.cut {frame : Frame (NodeData T)}
    (deleting : Deleting old whole root heap (plug (frame :: context) (.leaf a data))) :
    Deleting old whole root (cutHeap heap frame context a) (plug (frame :: context) .empty) := by
  rcases deleting with ⟨onHeap, size_eq, inside, gone, kept⟩
  have inHeap := Heap.lt_size_of_read (frame_read onHeap.represents)
  have read_eq : ∀ b, (cutHeap heap frame context a).read b = if b = a then none
      else if b = frame.address then some ⟨frame.data,
        fun e => if e = frame.edge then none else frame.sibling.address, Context.parent context⟩
      else heap.read b := by
    intro b
    rw [cutHeap, Heap.read_release, Heap.read_write inHeap]
  have member_iff : ∀ b, b ∈ (plug (frame :: context) (.leaf a data)).addresses ↔
      b = a ∨ b ∈ (plug (frame :: context) .empty).addresses := by
    intro b
    rw [mem_addresses_plug, mem_addresses_plug]
    simp [LinkedTree.leaf]
  have isThere : frame.address ∈ (plug (frame :: context) .empty).addresses :=
    mem_addresses_plug.mpr (Or.inr (by simp))
  refine ⟨cut_focus onHeap read_eq, ?_, ?_, ?_, ?_⟩
  · rw [cutHeap, Heap.size_release, Heap.size_write, size_eq]
  · exact fun b member => inside b ((member_iff b).mpr (Or.inr member))
  · intro b member notLeft
    rw [read_eq]
    split
    · rfl
    · rename_i other
      have notAbove : b ≠ frame.address := by
        rintro rfl
        exact notLeft isThere
      rw [if_neg notAbove]
      exact gone b member fun still => ((member_iff b).mp still).elim other notLeft
  · intro b outside
    have notSelf : b ≠ a := fun same => outside (inside b ((member_iff b).mpr (Or.inl same)))
    have notAbove : b ≠ frame.address := fun same =>
      outside (inside b ((member_iff b).mpr (Or.inr (same ▸ isThere))))
    rw [read_eq, if_neg notSelf, if_neg notAbove, kept b outside]

/-- The focus is cut off and deleted. -/
theorem cut_eq {frame : Frame (NodeData T)}
    (onHeap : OnHeap ⟨root, heap⟩ (plug (frame :: context) (.leaf a data))) :
    ((update heap (some frame.address) fun n =>
        { n with edges := setEdge n.edges frame.edge none }) >>= fun heap =>
      deleteNode heap (some a)) = .ok (cutHeap heap frame context a) := by
  have self := focus_read onHeap.represents
  have above := frame_read onHeap.represents
  have aboveNotSelf := (frame_apart onHeap.distinct).1
  have still : (heap.write frame.address ⟨frame.data,
      fun e => if e = frame.edge then none else frame.sibling.address,
      Context.parent context⟩).read a = some ⟨data, fun _ => none, some frame.address⟩ := by
    rw [Heap.read_write (Heap.lt_size_of_read above), if_neg aboveNotSelf.symm]
    exact self
  rw [update_eq above, ok_bind]
  dsimp only
  rw [setEdge_frame, deleteNode_eq still]
  rfl

/-- The last child of the node above is deleted, on whichever edge it is. -/
theorem deleteEdges_eq {frame : Frame (NodeData T)}
    (onHeap : OnHeap ⟨root, heap⟩ (plug (frame :: context) (.leaf a data)))
    (last : frame.sibling = .empty) :
    (deleteEdge heap (some frame.address) left >>= fun heap =>
      deleteEdge heap (some frame.address) right) = .ok (cutHeap heap frame context a) := by
  have above : heap.read frame.address = some ⟨frame.data,
      fun e => if e = frame.edge then some a else frame.sibling.address, Context.parent context⟩ :=
    frame_read onHeap.represents
  have aboveNotSelf := (frame_apart onHeap.distinct).1
  have after : (cutHeap heap frame context a).read frame.address = some ⟨frame.data,
      fun e => if e = frame.edge then none else frame.sibling.address,
      Context.parent context⟩ := by
    rw [cutHeap, Heap.read_release, if_neg aboveNotSelf,
      Heap.read_write (Heap.lt_size_of_read above), if_pos rfl]
  have onEdge : deleteEdge heap (some frame.address) frame.edge =
      .ok (cutHeap heap frame context a) := by
    rw [deleteEdge, deref_eq above, ok_bind, if_neg (by simp)]
    dsimp only
    rw [if_pos rfl]
    exact cut_eq onHeap
  cases edge_eq : frame.edge with
  | false =>
      rw [edge_eq] at onEdge
      rw [onEdge, ok_bind]
      apply deleteEdge_of_none after
      simp [edge_eq, last]
  | true =>
      rw [edge_eq] at onEdge
      have noLeft : deleteEdge heap (some frame.address) left = .ok heap := by
        apply deleteEdge_of_none above
        simp [edge_eq, last]
      rw [noLeft, ok_bind, onEdge]

/-- How a climb ends: at a node that was pending, or with nothing but the root
left, when nothing was. -/
inductive ClimbEnds (old : NodeHeap T) (whole : LinkedTree (NodeData T)) (root : NodePtr)
    (pending : List (Address × NodeData T)) : Except Fault (NodePtr × NodeHeap T) → Prop
  | done {heap r data} (left_ : Deleting old whole root heap (.leaf r data))
      (nothing : pending = []) : ClimbEnds old whole root pending (.ok (none, heap))
  | next {heap context c data children}
      (left_ : Deleting old whole root heap (plug context (.node c data children)))
      (passed : Passed context) (isNext : pending = (c, data) :: following context children) :
      ClimbEnds old whole root pending (.ok (some c, heap))

/-- The climb deletes what is left behind. -/
theorem deleteClimb_spec {fuel : Nat}
    (deleting : Deleting old whole root heap (plug context (.leaf a data)))
    (passed : Passed context) (enough : context.length < fuel) :
    ClimbEnds old whole root (Context.pending context) (deleteClimb fuel heap (some a)) := by
  induction context generalizing heap a data fuel with
  | nil =>
      cases fuel with
      | zero => cases enough
      | succ fuel =>
          rw [deleteClimb, deref_eq deleting.onHeap.represents.1, ok_bind]
          exact .done deleting rfl
  | cons frame context ih =>
      cases fuel with
      | zero => cases enough
      | succ fuel =>
          have self := focus_read deleting.onHeap.represents
          have above := frame_read deleting.onHeap.represents
          have apart := frame_apart deleting.onHeap.distinct
          have cut := deleting.cut
          rcases List.forall_mem_cons.mp passed with ⟨passedHere, passedAbove⟩
          rcases frame with ⟨p, data₁, edge, sibling⟩
          dsimp only at above apart passedHere
          rw [deleteClimb, deref_eq self, ok_bind]
          dsimp only
          rw [Context.parent_cons, if_neg (Option.some_ne_none p), deref_eq above, ok_bind]
          dsimp only
          -- the climb goes on from the node above, if it has no child left
          have climbs : sibling = .empty → Context.pending (⟨p, data₁, edge, sibling⟩ :: context) =
              Context.pending context →
              ClimbEnds old whole root (Context.pending (⟨p, data₁, edge, sibling⟩ :: context))
                (deleteEdge heap (some p) left >>= fun heap =>
                  deleteEdge heap (some p) right >>= fun heap =>
                    deleteClimb fuel heap (some p)) := by
            rintro rfl same
            have edges := deleteEdges_eq deleting.onHeap rfl
            have childless : plug (⟨p, data₁, edge, .empty⟩ :: context) .empty =
                plug context (.leaf p data₁) := by
              rw [plug_cons, Frame.fill, LinkedTree.leaf]
              congr 2
              funext e
              unfold LinkedTree.onEdge
              split <;> rfl
            rw [childless] at cut
            rw [same, ← bind_assoc, edges, ok_bind]
            exact ih cut passedAbove (Nat.lt_of_succ_lt_succ enough)
          cases edge with
          | true =>
              rw [if_neg]
              · exact climbs (passedHere rfl) (Context.pending_right _ _ _ _)
              · rintro ⟨isLeft, _⟩
                exact apart.2 isLeft
          | false =>
              cases sibling with
              | empty =>
                  rw [if_neg]
                  · exact climbs rfl (Context.pending_left _ _ _ _)
                  · rintro ⟨_, present⟩
                    exact present rfl
              | node c data' children' =>
                  have moved : plug (⟨p, data₁, left, .node c data' children'⟩ :: context) .empty =
                      plug (⟨p, data₁, right, .empty⟩ :: context) (.node c data' children') := by
                    rw [plug_cons, plug_cons, Frame.fill, Frame.fill]
                    congr 2
                    funext e
                    cases e <;> rfl
                  rw [moved] at cut
                  rw [if_pos ⟨rfl, by simp⟩]
                  change ClimbEnds old whole root _ ((update heap (some p) fun n =>
                    { n with edges := setEdge n.edges left none }) >>= fun heap =>
                      deleteNode heap (some a) >>= fun heap => pure (some c, heap))
                  rw [← bind_assoc, cut_eq deleting.onHeap, ok_bind]
                  refine .next cut (List.forall_mem_cons.mpr ⟨fun _ => rfl, passedAbove⟩) ?_
                  rw [Context.pending_left, LinkedTree.preorder_node, following,
                    Context.pending_right]
                  rfl

/-- The loop deletes everything but the root. -/
theorem deleteLoop_spec {children : Bool → LinkedTree (NodeData T)} {fuel : Nat}
    (deleting : Deleting old whole root heap (plug context (.node a data children)))
    (passed : Passed context) (enough : (following context children).length < fuel) :
    ∃ heap' r data', deleteLoop fuel heap (some a) = .ok heap' ∧
      Deleting old whole root heap' (.leaf r data') := by
  induction fuel generalizing heap context a data children with
  | zero => cases enough
  | succ fuel ih =>
      rw [deleteLoop, focus_deref deleting.onHeap.represents, ok_bind]
      dsimp only
      rcases (children left).empty_or_node with onLeft | ⟨b, data', children', onLeft⟩
      · rw [if_neg (by simp [onLeft])]
        rcases (children right).empty_or_node with onRight | ⟨b, data', children', onRight⟩
        · rw [if_neg (by simp [onRight])]
          have noChild : ∀ e, children e = .empty := by
            intro e
            cases e with
            | false => exact onLeft
            | true => exact onRight
          have isLeaf : LinkedTree.node a data children = .leaf a data :=
            congrArg (LinkedTree.node a data) (funext noChild)
          have bound := deleting.onHeap.length_le
          dsimp only at bound
          have enough' : context.length < heap.size + 1 := by omega
          rw [following_of_leaf noChild] at enough
          rw [isLeaf] at deleting
          have climbed := deleteClimb_spec deleting passed enough'
          rcases result : deleteClimb (heap.size + 1) heap (some a) with fault | ⟨next, heap'⟩
          · rw [result] at climbed
            cases climbed
          · rw [result] at climbed
            rw [ok_bind]
            dsimp only
            cases climbed with
            | done left_ nothing => exact ⟨heap', _, _, rfl, left_⟩
            | next left_ passed' isNext =>
                rw [if_neg (Option.some_ne_none _)]
                rw [isNext] at enough
                exact ih left_ passed' (Nat.lt_of_succ_lt_succ enough)
        · have isRight : (children right).address = some b := by
            rw [onRight]
            rfl
          have moved : plug context (.node a data children) =
              plug (⟨a, data, right, children left⟩ :: context) (.node b data' children') := by
            rw [plug_cons, ← onRight]
            exact congrArg (plug context) (fill_child a data right children).symm
          have passed' : Passed (⟨a, data, right, children left⟩ :: context) :=
            List.forall_mem_cons.mpr ⟨fun _ => onLeft, passed⟩
          rw [if_pos (by simp [onRight]), isRight]
          rw [following_of_right a data onLeft onRight] at enough
          rw [moved] at deleting
          exact ih deleting passed' (Nat.lt_of_succ_lt_succ enough)
      · have isLeft : (children left).address = some b := by
          rw [onLeft]
          rfl
        have moved : plug context (.node a data children) =
            plug (⟨a, data, left, children right⟩ :: context) (.node b data' children') := by
          rw [plug_cons, ← onLeft]
          exact congrArg (plug context) (fill_child a data left children).symm
        have passed' : Passed (⟨a, data, left, children right⟩ :: context) :=
          List.forall_mem_cons.mpr ⟨(fun impossible => by cases impossible), passed⟩
        rw [if_pos (by simp [onLeft]), isLeft]
        rw [following_of_left a data onLeft] at enough
        rw [moved] at deleting
        exact ih deleting passed' (Nat.lt_of_succ_lt_succ enough)

end Walk

/-! ## Whole trees -/

/-- What is at some addresses is deleted, and nothing else changes. -/
def Deleted (heap heap' : NodeHeap T) (addresses : List Address) : Prop :=
  heap'.size = heap.size ∧
    ∀ b, heap'.read b = if b ∈ addresses then none else heap.read b

section Trees

variable {heap : NodeHeap T} {parent : NodePtr} {a : Address} {data : NodeData T}
  {children : Bool → LinkedTree (NodeData T)}

/-- `_delete_children` and the deletion of the node itself. -/
theorem deleteChildren_spec (represented : Represents heap parent (.node a data children))
    (distinct : (LinkedTree.node a data children).Distinct) :
    ∃ heap', (deleteChildren heap (some a) >>= fun heap => deleteNode heap (some a)) = .ok heap' ∧
      Deleted heap heap' (LinkedTree.node a data children).addresses := by
  have live := represented.1
  have inHeap := Heap.lt_size_of_read live
  generalize cut_eq : heap.write a ⟨data, fun e => (children e).address, none⟩ = cut
  have read_eq : ∀ b, cut.read b = if b = a then
      some ⟨data, fun e => (children e).address, none⟩ else heap.read b := by
    intro b
    rw [← cut_eq, Heap.read_write inHeap]
  have onHeap : OnHeap ⟨some a, cut⟩ (.node a data children) := by
    refine ⟨rfl, ⟨(read_eq a).trans (if_pos rfl), fun e => ?_⟩, distinct⟩
    apply (represented.2 e).congr
    intro b member
    have notSelf : b ≠ a := by
      rintro rfl
      have whole : (plug [] (LinkedTree.node b data children)).Distinct := distinct
      exact (whole.apart e).1.1 member
    rw [read_eq, if_neg notSelf]
  have start : Deleting cut (.node a data children) (some a) cut
      (plug [] (.node a data children)) :=
    ⟨onHeap, rfl, fun _ member => member, fun b member gone => absurd member gone,
      fun _ _ => rfl⟩
  have behind : (following [] children).length <
      (plug [] (LinkedTree.node a data children)).addresses.length := length_following_lt a data
  have bound := onHeap.represents.length_le distinct
  have enough : (following [] children).length < cut.size + 1 :=
    behind.trans_le (bound.trans (Nat.le_succ _))
  rcases deleteLoop_spec start (fun frame member => by cases member) enough with
    ⟨heap', r, data', looped, done⟩
  have same : some a = some r := done.onHeap.root_eq
  cases same
  refine ⟨heap'.release a, ?_, ?_, fun b => ?_⟩
  · rw [deleteChildren, update_eq live, ok_bind, cut_eq, looped, ok_bind]
    exact deleteNode_eq done.onHeap.represents.1
  · rw [Heap.size_release, done.size_eq, ← cut_eq, Heap.size_write]
  · rw [Heap.read_release]
    by_cases member : b ∈ (LinkedTree.node a data children).addresses
    · rw [if_pos member]
      split
      · rfl
      · rename_i notSelf
        exact done.gone b member (by simpa [LinkedTree.leaf] using notSelf)
    · have notSelf : b ≠ a := by
        rintro rfl
        exact member (by simp)
      rw [if_neg member, if_neg notSelf, done.kept b member, read_eq, if_neg notSelf]

/-- One half of `delete_self` deletes the subtree on its edge. -/
theorem deleteSubtree_spec {node : PatriciaNode T} {t : LinkedTree (NodeData T)} {e : Edge}
    (live : heap.read a = some node) (edge_eq : node.edges e = t.address)
    (represented : Represents heap (some a) t) (distinct : t.Distinct) :
    ∃ heap', deleteSubtree heap (some a) e = .ok heap' ∧ Deleted heap heap' t.addresses := by
  rw [deleteSubtree, deref_eq live, ok_bind, edge_eq]
  cases t with
  | empty => exact ⟨heap, rfl, rfl, fun b => (if_neg (by simp)).symm⟩
  | node b data children =>
      rw [LinkedTree.address_node, if_neg (Option.some_ne_none b)]
      exact deleteChildren_spec represented distinct

/-- The two halves of `delete_self` delete all nodes below the node, and leave it as it is. -/
theorem deleteSubtrees_spec (represented : Represents heap parent (.node a data children))
    (distinct : (LinkedTree.node a data children).Distinct) :
    ∃ heap₁ heap₂, deleteSubtree heap (some a) left = .ok heap₁ ∧
      deleteSubtree heap₁ (some a) right = .ok heap₂ ∧ heap₁.read a = heap.read a ∧
      heap₂.read a = heap.read a ∧
      Deleted heap heap₂ ((children left).addresses ++ (children right).addresses) := by
  have whole : (plug [] (LinkedTree.node a data children)).Distinct := distinct
  have notLeft := (whole.apart left).1.1
  have notRight := (whole.apart right).1.1
  rcases deleteSubtree_spec (e := left) represented.1 rfl (represented.2 left)
    (distinct.child left) with ⟨heap₁, left_ok, size₁, read₁⟩
  have self₁ : heap₁.read a = heap.read a := by
    rw [read₁, if_neg notLeft]
  have right₁ : Represents heap₁ (some a) (children right) := by
    apply (represented.2 right).congr
    intro b member
    have otherSide : b ∉ (children left).addresses := ((whole.apart right).2 b member).1
    rw [read₁, if_neg otherSide]
  rcases deleteSubtree_spec (e := right) (self₁.trans represented.1) rfl right₁
    (distinct.child right) with ⟨heap₂, right_ok, size₂, read₂⟩
  have self₂ : heap₂.read a = heap.read a := by
    rw [read₂, if_neg notRight, self₁]
  refine ⟨heap₁, heap₂, left_ok, right_ok, self₁, self₂, size₂.trans size₁, fun b => ?_⟩
  rw [read₂, read₁]
  simp only [List.mem_append]
  split_ifs <;> simp_all

/-- `delete_self` deletes all nodes of the tree, and no other. -/
theorem deleteSelf_spec (represented : Represents heap parent (.node a data children))
    (distinct : (LinkedTree.node a data children).Distinct) :
    ∃ heap', deleteSelf heap (some a) = .ok heap' ∧
      Deleted heap heap' (LinkedTree.node a data children).addresses := by
  rcases deleteSubtrees_spec represented distinct with
    ⟨heap₁, heap₂, left_ok, right_ok, _, self₂, size_eq, read_eq⟩
  refine ⟨heap₂.release a, ?_, ?_, fun b => ?_⟩
  · rw [deleteSelf, left_ok, ok_bind, right_ok, ok_bind,
      deleteNode_eq (self₂.trans represented.1)]
  · rw [Heap.size_release, size_eq]
  · rw [Heap.read_release, read_eq, LinkedTree.addresses_node]
    simp only [List.mem_cons]
    split_ifs <;> simp_all

end Trees

end SkAsync.Patricia

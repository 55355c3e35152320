import SkAsync.Patricia.Iterate

/-!
# Copying a trie

`copy` goes through the nodes in pre-order, by the same climbs as an iterator,
and keeps a second pointer at the copy of the node where it is.  What is copied
so far is a tree of its own: the nodes above the second pointer, with what was
copied to their left, and nothing yet to their right.
-/

namespace SkAsync.Patricia

open SkAsync.Library

variable {T : Type}

/-- `shallow_copy`. -/
def shallowCopy (heap : NodeHeap T) (n : NodePtr) : Except Fault (NodePtr × NodeHeap T) := do
  let node ← deref heap n
  let (newNode, heap) := makeNode heap node.data.key node.data.bit
  let heap ← update heap newNode fun m =>
    { m with data := { m.data with value := node.data.value } }
  let heap ← update heap newNode fun m => { m with parent := node.parent }
  pure (newNode, heap)

/-- The shallow copy of a node on an edge of `newPtr`, its parent. -/
def copyTo (heap : NodeHeap T) (n newPtr : NodePtr) (e : Edge) :
    Except Fault (NodePtr × NodeHeap T) := do
  let (newNode, heap) ← shallowCopy heap n
  let heap ← update heap newPtr fun m => { m with edges := setEdge m.edges e newNode }
  let heap ← update heap newNode fun m => { m with parent := newPtr }
  pure (newNode, heap)

/-- The inner loop of `copy`: climb in both trees to a node with a right
sibling, and copy that sibling; at the top, return no node. -/
def copyClimb : (fuel : Nat) → NodeHeap T → (current newPtr : NodePtr) →
    Except Fault ((NodePtr × NodePtr) × NodeHeap T)
  | 0, _, _, _ => .error .diverged
  | fuel + 1, heap, current, newPtr => do
      let node ← deref heap current
      let above ← deref heap node.parent
      let new ← deref heap newPtr
      if above.edges left = current ∧ above.edges right ≠ none then
        let (newNode, heap) ← copyTo heap (above.edges right) new.parent right
        pure ((above.edges right, newNode), heap)
      else if above.parent = none then pure ((none, none), heap)
      else copyClimb fuel heap node.parent new.parent

/-- One iteration of the outer loop of `copy`. -/
def copyStep (heap : NodeHeap T) (current newPtr : NodePtr) :
    Except Fault ((NodePtr × NodePtr) × NodeHeap T) := do
  let node ← deref heap current
  if node.edges left ≠ none then
    let (newNode, heap) ← copyTo heap (node.edges left) newPtr left
    pure ((node.edges left, newNode), heap)
  else if node.edges right ≠ none then
    let (newNode, heap) ← copyTo heap (node.edges right) newPtr right
    pure ((node.edges right, newNode), heap)
  else copyClimb (heap.size + 1) heap current newPtr

/-- The outer loop of `copy`. -/
def copyLoop : (fuel : Nat) → NodeHeap T → (current newPtr : NodePtr) → Except Fault (NodeHeap T)
  | 0, _, _, _ => .error .diverged
  | fuel + 1, heap, current, newPtr => do
      let ((next, newNext), heap) ← copyStep heap current newPtr
      if next = none then pure heap else copyLoop fuel heap next newNext

/-- `copy`. -/
def copy (heap : NodeHeap T) (self : NodePtr) : Except Fault (NodePtr × NodeHeap T) := do
  let (newRoot, heap) ← shallowCopy heap self
  let heap ← copyLoop (heap.size + 1) heap self newRoot
  pure (newRoot, heap)

/-! ## One node -/

/-- What `shallow_copy` puts into a node. -/
def copied (data : NodeData T) : NodeData T :=
  ⟨data.bit, data.value, if data.key.isEmpty then .empty else data.key⟩

/-- Two nodes have the same bit, the same key and the same value; an empty key
may have lost its bytes. -/
structure Copied (data data' : NodeData T) : Prop where
  bit_eq : data'.bit = data.bit
  bits_eq : data'.key.bits = data.key.bits
  content_eq : data'.key.content = data.key.content
  value_eq : data'.value = data.value

theorem copied_spec (data : NodeData T) : Copied data (copied data) := by
  unfold copied PatriciaKey.isEmpty
  by_cases noBits : data.key.bits = 0
  · rw [if_pos (decide_eq_true noBits)]
    exact ⟨rfl, noBits.symm, (PatriciaKey.content_of_bits_eq_zero noBits).symm, rfl⟩
  · rw [if_neg (by simpa using noBits)]
    exact ⟨rfl, rfl, rfl, rfl⟩

section Heaps

variable {heap : NodeHeap T}

theorem shallowCopy_spec {a : Address} {node : PatriciaNode T} (live : heap.read a = some node) :
    ∃ heap', shallowCopy heap (some a) = .ok (some heap.size, heap') ∧
      heap'.size = heap.size + 1 ∧
      heap'.read heap.size = some ⟨copied node.data, fun _ => none, node.parent⟩ ∧
      ∀ b, b ≠ heap.size → heap'.read b = heap.read b := by
  generalize made_eq : heap.allocate (⟨⟨node.data.bit, none,
    if node.data.key.isEmpty then .empty else node.data.key⟩, fun _ => none, none⟩ :
      PatriciaNode T) = made
  have read_made : ∀ b, made.read b = if b = heap.size then some ⟨⟨node.data.bit, none,
      if node.data.key.isEmpty then .empty else node.data.key⟩, fun _ => none, none⟩
      else heap.read b := by
    intro b
    rw [← made_eq, Heap.read_allocate]
  have made_live := (read_made heap.size).trans (if_pos rfl)
  have inMade := Heap.lt_size_of_read made_live
  have valued : update made (some heap.size) (fun m =>
      { m with data := { m.data with value := node.data.value } }) =
      .ok (made.write heap.size ⟨copied node.data, fun _ => none, none⟩) :=
    update_eq made_live _
  have valued_live : (made.write heap.size ⟨copied node.data, fun _ => none, none⟩).read heap.size =
      some ⟨copied node.data, fun _ => none, none⟩ := by
    rw [Heap.read_write inMade, if_pos rfl]
  have inValued := Heap.lt_size_of_read valued_live
  refine ⟨(made.write heap.size ⟨copied node.data, fun _ => none, none⟩).write heap.size
    ⟨copied node.data, fun _ => none, node.parent⟩, ?_, ?_, ?_, ?_⟩
  · rw [shallowCopy, deref_eq live, ok_bind, makeNode]
    dsimp only
    rw [made_eq, Heap.next_eq_size, valued, ok_bind, update_eq valued_live]
    rfl
  · rw [Heap.size_write, Heap.size_write, ← made_eq, Heap.size_allocate]
  · rw [Heap.read_write inValued, if_pos rfl]
  · intro b other
    rw [Heap.read_write inValued, if_neg other, Heap.read_write inMade, if_neg other, read_made,
      if_neg other]

theorem copyTo_spec {a b : Address} {node target : PatriciaNode T} (e : Edge)
    (live : heap.read a = some node) (live' : heap.read b = some target) :
    ∃ heap', copyTo heap (some a) (some b) e = .ok (some heap.size, heap') ∧
      heap'.size = heap.size + 1 ∧
      heap'.read heap.size = some ⟨copied node.data, fun _ => none, some b⟩ ∧
      heap'.read b = some { target with edges := setEdge target.edges e (some heap.size) } ∧
      ∀ c, c ≠ heap.size → c ≠ b → heap'.read c = heap.read c := by
  rcases shallowCopy_spec live with ⟨made, made_ok, size_eq, made_live, others⟩
  have notNew : b ≠ heap.size := (Heap.lt_size_of_read live').ne
  have target_live := (others b notNew).trans live'
  have inMade := Heap.lt_size_of_read target_live
  have new_live :
      (made.write b { target with edges := setEdge target.edges e (some heap.size) }).read
        heap.size = some ⟨copied node.data, fun _ => none, node.parent⟩ := by
    rw [Heap.read_write inMade, if_neg notNew.symm, made_live]
  have inMade' := Heap.lt_size_of_read new_live
  refine ⟨(made.write b { target with edges := setEdge target.edges e (some heap.size) }).write
    heap.size ⟨copied node.data, fun _ => none, some b⟩, ?_, ?_, ?_, ?_, ?_⟩
  · rw [copyTo, made_ok, ok_bind]
    dsimp only
    rw [update_eq target_live, ok_bind, update_eq new_live]
    rfl
  · rw [Heap.size_write, Heap.size_write, size_eq]
  · rw [Heap.read_write inMade', if_pos rfl]
  · rw [Heap.read_write inMade', if_neg notNew, Heap.read_write inMade, if_pos rfl]
  · intro c other notTarget
    rw [Heap.read_write inMade', if_neg other, Heap.read_write inMade, if_neg notTarget,
      others c other]

/-- The copy of a node is put on an edge of the node in focus, and comes into the focus. -/
theorem copyTo_represents {a b : Address} {node : PatriciaNode T} {data : NodeData T}
    {context : Context (NodeData T)} {children : Bool → LinkedTree (NodeData T)} {e : Edge}
    (live : heap.read a = some node)
    (represented : Represents heap none (plug context (.node b data children)))
    (distinct : (plug context (.node b data children)).Distinct) :
    ∃ heap', copyTo heap (some a) (some b) e = .ok (some heap.size, heap') ∧
      heap'.size = heap.size + 1 ∧
      Represents heap' none (plug (⟨b, data, e, children (!e)⟩ :: context)
        (.leaf heap.size (copied node.data))) ∧
      (plug (⟨b, data, e, children (!e)⟩ :: context)
        (.leaf heap.size (copied node.data))).Distinct ∧
      ∀ c, c ≠ heap.size → c ≠ b → heap'.read c = heap.read c := by
  rcases copyTo_spec e live (focus_read represented) with
    ⟨heap', copied_ok, size_eq, new_eq, self_eq, others⟩
  have isFresh := notMem_size represented
  have notFresh : ∀ c ∈ (plug context (.node b data children)).addresses, c ≠ heap.size := by
    rintro c member rfl
    exact isFresh member
  have apart := distinct.apart (!e)
  rw [Bool.not_not] at apart
  refine ⟨heap', copied_ok, size_eq, ?_, ?_, others⟩
  · rcases represents_plug_iff.mp represented with ⟨outer, _, below⟩
    rw [represents_plug_iff]
    refine ⟨⟨?_, ?_, ?_⟩, new_eq, fun _ => trivial⟩
    · rw [self_eq, setEdge_children]
      rfl
    · apply (below (!e)).congr
      intro c member
      apply others c (notFresh c (mem_addresses_plug.mpr (Or.inl (mem_addresses_of_child member))))
      rintro rfl
      exact apart.1.1 member
    · apply outer.congr
      intro c member
      apply others c (notFresh c (mem_addresses_plug.mpr (Or.inr member)))
      rintro rfl
      exact apart.1.2 member
  · exact distinct_plug_leaf distinct isFresh e

end Heaps

/-! ## The walk in two trees -/

/-- A node above the pointer, and its copy: what is on the left was copied, and
what is on the right was not yet. -/
structure FrameCopied (frame frame' : Frame (NodeData T)) : Prop where
  data : Copied frame.data frame'.data
  edge_eq : frame'.edge = frame.edge
  before : frame.edge = right → frame.sibling.Similar Copied frame'.sibling
  after : frame.edge = left → frame'.sibling = .empty

/-- The copy of a tree on the heap `old` is under way.  The first pointer is at
the focus of `plug context t`; the second is at that of `plug context' t'`, which
is what was copied so far. -/
structure Copying (old : NodeHeap T) (newRoot : Address) (heap : NodeHeap T)
    (context context' : Context (NodeData T)) (t t' : LinkedTree (NodeData T)) : Prop where
  original : Represents old none (plug context t)
  originalDistinct : (plug context t).Distinct
  kept : ∀ b < old.size, heap.read b = old.read b
  grown : old.size ≤ heap.size
  represents : Represents heap none (plug context' t')
  distinct : (plug context' t').Distinct
  fresh : ∀ b ∈ (plug context' t').addresses, old.size ≤ b
  root_eq : (plug context' t').address = some newRoot
  around : List.Forall₂ FrameCopied context context'

section Walk

variable {old heap : NodeHeap T} {newRoot : Address} {context context' : Context (NodeData T)}
  {t t' : LinkedTree (NodeData T)}

/-- The original is still there. -/
theorem Copying.originalNow (copying : Copying old newRoot heap context context' t t') :
    Represents heap none (plug context t) := by
  apply copying.original.congr
  intro b member
  exact copying.kept b (copying.original.lt_size member)

/-- Both pointers go to the node above. -/
theorem Copying.goUp {frame frame' : Frame (NodeData T)}
    (copying : Copying old newRoot heap (frame :: context) (frame' :: context') t t') :
    Copying old newRoot heap context context' (frame.fill t) (frame'.fill t') := by
  rcases copying with
    ⟨original, originalDistinct, kept, grown, represents, distinct, fresh, root_eq, around⟩
  exact ⟨original, originalDistinct, kept, grown, represents, distinct, fresh, root_eq,
    (List.forall₂_cons.mp around).2⟩

/-- A child is copied, and both pointers go down to it. -/
theorem Copying.goDown {a b c : Address} {data data' childData : NodeData T}
    {children children' grandchildren : Bool → LinkedTree (NodeData T)} {e : Edge}
    (copying : Copying old newRoot heap context context' (.node a data children)
      (.node b data' children'))
    (child_eq : children e = .node c childData grandchildren)
    (frameCopied : FrameCopied ⟨a, data, e, children (!e)⟩ ⟨b, data', e, children' (!e)⟩) :
    ∃ heap', copyTo heap (some c) (some b) e = .ok (some heap.size, heap') ∧
      Copying old newRoot heap' (⟨a, data, e, children (!e)⟩ :: context)
        (⟨b, data', e, children' (!e)⟩ :: context') (.node c childData grandchildren)
        (.leaf heap.size (copied childData)) := by
  have below := (represents_plug_iff.mp copying.originalNow).2.2 e
  rw [child_eq] at below
  rcases copyTo_represents below.1 copying.represents copying.distinct with
    ⟨heap', copied_ok, size_eq, represents, distinct, others⟩
  have whole : plug (⟨a, data, e, children (!e)⟩ :: context) (.node c childData grandchildren) =
      plug context (.node a data children) := by
    rw [plug_cons, ← child_eq, fill_child]
  refine ⟨heap', copied_ok, ?_, ?_, ?_, ?_, represents, distinct, ?_, ?_,
    List.Forall₂.cons frameCopied copying.around⟩
  · rw [whole]
    exact copying.original
  · rw [whole]
    exact copying.originalDistinct
  · intro x old_
    have notNew : x ≠ heap.size := (old_.trans_le copying.grown).ne
    have notTarget : x ≠ b := by
      rintro rfl
      have isFresh := copying.fresh x (mem_addresses_plug.mpr (Or.inl (by simp)))
      exact Nat.not_lt.mpr isFresh old_
    rw [others x notNew notTarget, copying.kept x old_]
  · rw [size_eq]
    exact copying.grown.trans (Nat.le_succ _)
  · intro x member
    rw [mem_addresses_plug] at member
    rcases member with new | above
    · rw [LinkedTree.leaf, LinkedTree.addresses_node, LinkedTree.addresses_empty, List.append_nil,
        List.mem_singleton] at new
      rw [new]
      exact copying.grown
    · apply copying.fresh x
      rw [mem_addresses_plug, LinkedTree.addresses_node, List.mem_cons, List.mem_append]
      rw [Context.addresses_cons, List.mem_cons, List.mem_append] at above
      rcases above with self | sibling | outer
      · exact Or.inl (Or.inl self)
      · cases e with
        | false => exact Or.inl (Or.inr (Or.inr sibling))
        | true => exact Or.inl (Or.inr (Or.inl sibling))
      · exact Or.inr outer
  · rw [← copying.root_eq]
    exact address_plug context' rfl

/-- The node that the walk arrives at, with the nodes that come after it. -/
def CopiesNext (old : NodeHeap T) (newRoot : Address) (whole : LinkedTree (NodeData T))
    (pending : List (Address × NodeData T))
    (result : Except Fault ((NodePtr × NodePtr) × NodeHeap T)) : Prop :=
  ∃ heap context context' c data children n, result = .ok ((some c, some n), heap) ∧
    Copying old newRoot heap context context' (.node c data children) (.leaf n (copied data)) ∧
    plug context (.node c data children) = whole ∧ context ≠ [] ∧
    pending = (c, data) :: following context children

/-- Nothing is left to copy. -/
def CopyEnds (old : NodeHeap T) (newRoot : Address) (whole : LinkedTree (NodeData T))
    (result : Except Fault ((NodePtr × NodePtr) × NodeHeap T)) : Prop :=
  ∃ heap whole', result = .ok ((none, none), heap) ∧
    Copying old newRoot heap [] [] whole whole' ∧ whole.Similar Copied whole'

theorem similar_fill {frame frame' : Frame (NodeData T)} (frameCopied : FrameCopied frame frame')
    (similar : t.Similar Copied t') (sibling : frame.sibling.Similar Copied frame'.sibling) :
    (frame.fill t).Similar Copied (frame'.fill t') := by
  refine ⟨frameCopied.data, fun e => ?_⟩
  rw [frameCopied.edge_eq]
  unfold LinkedTree.onEdge
  split
  · exact similar
  · exact sibling

/-- The climb ends at the first node that is pending, which is then copied. -/
theorem copyClimb_spec {fuel : Nat}
    (copying : Copying old newRoot heap context context' t t') (nonempty : t ≠ .empty)
    (similar : t.Similar Copied t') (belowRoot : context ≠ []) (enough : context.length ≤ fuel) :
    (CopyEnds old newRoot (plug context t) (copyClimb fuel heap t.address t'.address) ∧
        Context.pending context = []) ∨
      CopiesNext old newRoot (plug context t) (Context.pending context)
        (copyClimb fuel heap t.address t'.address) := by
  induction context generalizing context' t t' fuel with
  | nil => exact absurd rfl belowRoot
  | cons frame context ih =>
      cases fuel with
      | zero => simp at enough
      | succ fuel =>
          rcases t.empty_or_node with isEmpty | ⟨a, data, children, rfl⟩
          · exact absurd isEmpty nonempty
          rcases t'.empty_or_node with rfl | ⟨b, data', children', rfl⟩
          · exact similar.elim
          rcases context' with _ | ⟨frame', context'⟩
          · cases copying.around
          have frameCopied := (List.forall₂_cons.mp copying.around).1
          have apart := frame_apart copying.originalDistinct
          have live := frame_read copying.originalNow
          have above := copying.goUp
          rcases frame with ⟨p, data₁, edge, sibling⟩
          rcases frame' with ⟨p', data₁', edge', sibling'⟩
          have edge_eq : edge' = edge := frameCopied.edge_eq
          subst edge_eq
          dsimp only at apart live
          rw [copyClimb, LinkedTree.address_node, LinkedTree.address_node,
            focus_deref copying.originalNow, ok_bind]
          dsimp only
          rw [Context.parent_cons, deref_eq live, ok_bind, focus_deref copying.represents, ok_bind]
          dsimp only
          rw [Context.parent_cons]
          -- both climbs go on from the node above, if nothing is pending at it
          have climbs : sibling.Similar Copied sibling' →
              Context.pending (⟨p, data₁, edge', sibling⟩ :: context) = Context.pending context →
              (CopyEnds old newRoot (plug (⟨p, data₁, edge', sibling⟩ :: context)
                  (.node a data children)) (if Context.parent context = none then
                    pure ((none, none), heap) else copyClimb fuel heap (some p) (some p')) ∧
                Context.pending (⟨p, data₁, edge', sibling⟩ :: context) = []) ∨
              CopiesNext old newRoot (plug (⟨p, data₁, edge', sibling⟩ :: context)
                  (.node a data children)) (Context.pending (⟨p, data₁, edge', sibling⟩ :: context))
                (if Context.parent context = none then pure ((none, none), heap)
                  else copyClimb fuel heap (some p) (some p')) := by
            intro siblings same
            have filled := similar_fill frameCopied similar siblings
            rw [same]
            cases context with
            | nil =>
                cases above.around
                exact Or.inl ⟨⟨heap, _, rfl, above, filled⟩, rfl⟩
            | cons frame context =>
                rw [Context.parent_cons, if_neg (Option.some_ne_none _)]
                exact ih above (fun impossible => by cases impossible) filled
                  (List.cons_ne_nil _ _) (Nat.le_of_succ_le_succ enough)
          cases edge' with
          | true =>
              rw [if_neg]
              · exact climbs (frameCopied.before rfl) (Context.pending_right _ _ _ _)
              · rintro ⟨isLeft, _⟩
                exact apart.2 isLeft
          | false =>
              have notYet : sibling' = .empty := frameCopied.after rfl
              subst notYet
              cases sibling with
              | empty =>
                  rw [if_neg]
                  · exact climbs trivial (Context.pending_left _ _ _ _)
                  · rintro ⟨_, present⟩
                    exact present rfl
              | node c childData grandchildren =>
                  right
                  have next : FrameCopied ⟨p, data₁, right, .node a data children⟩
                      ⟨p', data₁', right, .node b data' children'⟩ :=
                    ⟨frameCopied.data, rfl, fun _ => similar, fun impossible => by cases impossible⟩
                  rcases above.goDown (e := right) (c := c) rfl next with
                    ⟨heap', copied_ok, copying'⟩
                  refine ⟨heap', _, _, c, childData, grandchildren, heap.size, ?_, copying', ?_,
                    List.cons_ne_nil _ _, ?_⟩
                  · rw [if_pos ⟨rfl, by simp⟩]
                    exact congrArg (· >>= _) copied_ok
                  · rw [plug_cons, plug_cons, Frame.fill, Frame.fill]
                    congr 2
                    funext e
                    cases e <;> rfl
                  · rw [Context.pending_left, LinkedTree.preorder_node, following,
                      Context.pending_right]
                    rfl

/-- One step copies the node that comes next.  At a root without children there
is no parent to climb to. -/
theorem copyStep_spec {a n : Address} {data : NodeData T}
    {children : Bool → LinkedTree (NodeData T)}
    (copying : Copying old newRoot heap context context' (.node a data children)
      (.leaf n (copied data)))
    (notAlone : context = [] → ∃ e, children e ≠ .empty) :
    (CopyEnds old newRoot (plug context (.node a data children))
        (copyStep heap (some a) (some n)) ∧ following context children = []) ∨
      CopiesNext old newRoot (plug context (.node a data children)) (following context children)
        (copyStep heap (some a) (some n)) := by
  rw [copyStep, focus_deref copying.originalNow, ok_bind]
  dsimp only
  rcases (children left).empty_or_node with onLeft | ⟨b, data', children', onLeft⟩
  · have notLeft : ¬ (children left).address ≠ none := by
      rw [onLeft]
      simp
    rw [if_neg notLeft]
    rcases (children right).empty_or_node with onRight | ⟨b, data', children', onRight⟩
    · have noChild : ∀ e, children e = .empty := by
        intro e
        cases e with
        | false => exact onLeft
        | true => exact onRight
      have belowRoot : context ≠ [] := by
        intro atRoot
        rcases notAlone atRoot with ⟨e, child⟩
        exact child (noChild e)
      have length := copying.originalNow.length_le copying.originalDistinct
      rw [(addresses_plug context _).length_eq, List.length_append] at length
      have walk := Context.length_le_addresses context
      have notRight : ¬ (children right).address ≠ none := by
        rw [onRight]
        simp
      have similar : (LinkedTree.node a data children).Similar Copied (.leaf n (copied data)) := by
        refine ⟨copied_spec data, fun e => ?_⟩
        rw [noChild e]
        trivial
      rw [if_neg notRight, following_of_leaf noChild]
      exact copyClimb_spec copying (fun impossible => by cases impossible) similar belowRoot
        (by omega)
    · right
      have next : FrameCopied ⟨a, data, right, children (!right)⟩
          ⟨n, copied data, right, .empty⟩ := by
        refine ⟨copied_spec data, rfl, fun _ => ?_, fun impossible => by cases impossible⟩
        exact (congrArg (fun t => t.Similar Copied .empty) onLeft).mpr trivial
      rcases copying.goDown onRight next with ⟨heap', copied_ok, copying'⟩
      have isRight : (children right).address = some b := by
        rw [onRight]
        rfl
      refine ⟨heap', _, _, b, data', children', heap.size, ?_, copying', ?_, List.cons_ne_nil _ _,
        following_of_right a data onLeft onRight⟩
      · rw [if_pos (by rw [isRight]; exact Option.some_ne_none b), isRight, copied_ok]
        rfl
      · rw [plug_cons, ← onRight, fill_child]
  · right
    have next : FrameCopied ⟨a, data, left, children (!left)⟩ ⟨n, copied data, left, .empty⟩ :=
      ⟨copied_spec data, rfl, (fun impossible => by cases impossible), fun _ => rfl⟩
    rcases copying.goDown onLeft next with ⟨heap', copied_ok, copying'⟩
    have isLeft : (children left).address = some b := by
      rw [onLeft]
      rfl
    refine ⟨heap', _, _, b, data', children', heap.size, ?_, copying', ?_, List.cons_ne_nil _ _,
      following_of_left a data onLeft⟩
    · rw [if_pos (by rw [isLeft]; exact Option.some_ne_none b), isLeft, copied_ok]
      rfl
    · rw [plug_cons, ← onLeft, fill_child]

/-- The loop copies all nodes to come.  The induction is on these. -/
theorem copyLoop_spec {a n : Address} {data : NodeData T}
    {children : Bool → LinkedTree (NodeData T)} {fuel : Nat}
    (copying : Copying old newRoot heap context context' (.node a data children)
      (.leaf n (copied data)))
    (notAlone : context = [] → ∃ e, children e ≠ .empty)
    (enough : (following context children).length < fuel) :
    ∃ heap' whole', copyLoop fuel heap (some a) (some n) = .ok heap' ∧
      Copying old newRoot heap' [] [] (plug context (.node a data children)) whole' ∧
      (plug context (.node a data children)).Similar Copied whole' := by
  generalize rest_eq : following context children = rest at enough
  induction rest generalizing heap context context' a n data children fuel with
  | nil =>
      cases fuel with
      | zero => cases enough
      | succ fuel =>
          rcases copyStep_spec copying notAlone with
            ⟨⟨heap', whole', stepped, done, similar⟩, _⟩ | ⟨_, _, _, _, _, _, _, _, _, _, _, same⟩
          · refine ⟨heap', whole', ?_, done, similar⟩
            rw [copyLoop, stepped, ok_bind]
            rfl
          · rw [rest_eq] at same
            cases same
  | cons entry rest ih =>
      cases fuel with
      | zero => cases enough
      | succ fuel =>
          rcases copyStep_spec copying notAlone with
            ⟨_, same⟩ | ⟨heap₁, context₁, context₁', c, data₁, children₁, n₁, stepped, copying₁,
              whole, below, same⟩
          · rw [rest_eq] at same
            cases same
          · rw [rest_eq] at same
            cases same
            rcases ih copying₁ (fun atRoot => absurd atRoot below) rfl
              (Nat.lt_of_succ_lt_succ enough) with ⟨heap', whole', looped, done, similar⟩
            rw [whole] at done similar
            refine ⟨heap', whole', ?_, done, similar⟩
            rw [copyLoop, stepped, ok_bind]
            dsimp only
            rw [if_neg (Option.some_ne_none c), looped]

end Walk

/-- The copy of the root alone is the beginning. -/
theorem copying_root {heap : NodeHeap T} {a : Address} {data : NodeData T}
    {children : Bool → LinkedTree (NodeData T)}
    (represented : Represents heap none (.node a data children))
    (distinct : (LinkedTree.node a data children).Distinct) :
    ∃ heap', shallowCopy heap (some a) = .ok (some heap.size, heap') ∧
      heap'.size = heap.size + 1 ∧
      Copying heap heap.size heap' [] [] (.node a data children)
        (.leaf heap.size (copied data)) := by
  rcases shallowCopy_spec represented.1 with ⟨heap', copied_ok, size_eq, new_eq, others⟩
  refine ⟨heap', copied_ok, size_eq, represented, distinct, ?_, ?_, ⟨new_eq, fun _ => trivial⟩,
    ?_, ?_, rfl, List.Forall₂.nil⟩
  · intro b old
    exact others b old.ne
  · rw [size_eq]
    exact Nat.le_succ _
  · simp [LinkedTree.Distinct, LinkedTree.leaf]
  · intro b member
    rw [plug_nil, LinkedTree.leaf, LinkedTree.addresses_node, LinkedTree.addresses_empty,
      List.append_nil, List.mem_singleton] at member
    exact member.ge

/-- `copy` of a root with a child makes a tree of new nodes, with the same shape and
the same data, and leaves the original as it is. -/
theorem copy_faithful {heap : NodeHeap T} {a : Address} {data : NodeData T}
    {children : Bool → LinkedTree (NodeData T)}
    (represented : Represents heap none (.node a data children))
    (distinct : (LinkedTree.node a data children).Distinct) (child : ∃ e, children e ≠ .empty) :
    ∃ heap' t', copy heap (some a) = .ok (t'.address, heap') ∧
      Represents heap' none t' ∧ t'.Distinct ∧ (∀ b ∈ t'.addresses, heap.read b = none) ∧
      (LinkedTree.node a data children).Similar Copied t' ∧
      Represents heap' none (.node a data children) ∧
      ∀ b node, heap.read b = some node → heap'.read b = some node := by
  rcases copying_root represented distinct with ⟨made, made_ok, size_eq, copying⟩
  have enough : (following [] children).length < made.size + 1 := by
    have bound := represented.length_le distinct
    have behind : (following [] children).length <
        (plug [] (LinkedTree.node a data children)).addresses.length :=
      length_following_lt a data
    rw [plug_nil] at behind
    omega
  rcases copyLoop_spec copying (fun _ => child) enough with ⟨heap', t', looped, done, similar⟩
  refine ⟨heap', t', ?_, done.represents, done.distinct, ?_, similar, done.originalNow, ?_⟩
  · have root_eq : t'.address = some heap.size := done.root_eq
    rw [copy, made_ok, ok_bind]
    dsimp only
    rw [looped, root_eq]
    rfl
  · intro b member
    have isFresh := done.fresh b member
    cases live : heap.read b with
    | none => rfl
    | some node => exact absurd (Heap.lt_size_of_read live) (Nat.not_lt.mpr isFresh)
  · intro b node live
    rw [done.kept b (Heap.lt_size_of_read live), live]

/-- Two keys of one byte, below a root without a key. -/
def bytesBelow (e : Bool) : LinkedTree (NodeData Nat) :=
  if e then .leaf 2 ⟨8, some 4, ⟨[0x80], 8⟩⟩ else .leaf 1 ⟨8, some 7, ⟨[0x00], 8⟩⟩

def bytesHeap : NodeHeap Nat :=
  ⟨[some ⟨⟨0, none, .empty⟩, fun e => (bytesBelow e).address, none⟩,
    some ⟨⟨8, some 7, ⟨[0x00], 8⟩⟩, fun _ => none, some 0⟩,
    some ⟨⟨8, some 4, ⟨[0x80], 8⟩⟩, fun _ => none, some 0⟩]⟩

theorem copy_bytes :
    ∃ heap' t', copy bytesHeap (some 0) = .ok (t'.address, heap') ∧
      (∀ b ∈ t'.addresses, bytesHeap.read b = none) ∧
      (LinkedTree.node 0 ⟨0, none, .empty⟩ bytesBelow).Similar Copied t' := by
  have represented : Represents bytesHeap none (.node 0 ⟨0, none, .empty⟩ bytesBelow) := by
    refine ⟨rfl, ?_⟩
    rintro (_ | _)
    · exact ⟨rfl, fun _ => trivial⟩
    · exact ⟨rfl, fun _ => trivial⟩
  have distinct : (LinkedTree.node 0 (⟨0, none, .empty⟩ : NodeData Nat) bytesBelow).Distinct := by
    simp [LinkedTree.Distinct, bytesBelow, LinkedTree.leaf]
  rcases copy_faithful represented distinct ⟨left, fun impossible => by cases impossible⟩ with
    ⟨heap', t', copied_ok, _, _, fresh, similar, _⟩
  exact ⟨heap', t', copied_ok, fresh, similar⟩

end SkAsync.Patricia

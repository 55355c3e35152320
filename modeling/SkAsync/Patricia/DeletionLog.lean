import SkAsync.Library.AccessLog
import SkAsync.Patricia.Teardown

/-!
# What deleting a tree does to its nodes

`_delete_children` and `delete_self` once more, on a heap that records every
access to a node, with the reads where the source has them: a node is read again
after each assignment and each deletion in between.  The recorded functions
leave the same heap as those on the plain heap; the record says in addition in
which order the nodes go, and that none is touched after it is gone.
-/

namespace SkAsync.Patricia

open SkAsync.Library

variable {T : Type} {start : NodeHeap T}

namespace Logged

def deref (state : Recorded start) (ptr : NodePtr) :
    Except Fault (PatriciaNode T × Recorded start) :=
  match ptr with
  | none => .error .nullDereference
  | some address =>
      match state.read address with
      | none => .error .danglingDereference
      | some found => .ok found

def update (state : Recorded start) (ptr : NodePtr) (change : PatriciaNode T → PatriciaNode T) :
    Except Fault (Recorded start) :=
  match ptr with
  | none => .error .nullDereference
  | some address =>
      match state.modify address change with
      | none => .error .danglingDereference
      | some next => .ok next

/-- `delete`, which reads the size of the key in `operator delete`. -/
def deleteNode (state : Recorded start) (ptr : NodePtr) : Except Fault (Recorded start) :=
  match ptr with
  | none => .ok state
  | some address => do
      let (_, state) ← deref state ptr
      match state.release address with
      | none => .error .danglingDereference
      | some next => .ok next

/-- `std::exchange(current->edges[e], nullptr)`. -/
def exchangeEdge (state : Recorded start) (current : NodePtr) (e : Edge) :
    Except Fault (NodePtr × Recorded start) := do
  let (node, state) ← deref state current
  let state ← update state current fun n => { n with edges := setEdge n.edges e none }
  pure (node.edges e, state)

/-- `delete std::exchange(current->edges[e], nullptr)`, if there is a node. -/
def deleteEdge (state : Recorded start) (current : NodePtr) (e : Edge) :
    Except Fault (Recorded start) := do
  let (node, state) ← deref state current
  if node.edges e = none then pure state
  else
    let (child, state) ← exchangeEdge state current e
    deleteNode state child

/-- From a left node to its sibling.  The sibling is read before the left node, which
`current` still points to, is deleted. -/
def moveRight (state : Recorded start) (current : NodePtr) :
    Except Fault (NodePtr × Recorded start) := do
  let (node, state) ← deref state current
  let (tmp, state) ← exchangeEdge state node.parent left
  let (node, state) ← deref state current
  let (above, state) ← deref state node.parent
  let state ← deleteNode state tmp
  pure (above.edges right, state)

/-- The inner loop of `_delete_children`. -/
def deleteClimb : (fuel : Nat) → Recorded start → NodePtr →
    Except Fault (NodePtr × Recorded start)
  | 0, _, _ => .error .diverged
  | fuel + 1, state, current => do
      let (node, state) ← deref state current
      if node.parent = none then pure (none, state)
      else
        let (above, state) ← deref state node.parent
        if above.edges left = current ∧ above.edges right ≠ none then moveRight state current
        else
          let state ← deleteEdge state node.parent left
          let state ← deleteEdge state node.parent right
          deleteClimb fuel state node.parent

/-- The outer loop of `_delete_children`. -/
def deleteLoop : (fuel : Nat) → Recorded start → NodePtr → Except Fault (Recorded start)
  | 0, _, _ => .error .diverged
  | fuel + 1, state, current => do
      let (node, state) ← deref state current
      if node.edges left ≠ none then deleteLoop fuel state (node.edges left)
      else if node.edges right ≠ none then deleteLoop fuel state (node.edges right)
      else
        let (next, state) ← deleteClimb (state.heap.size + 1) state current
        if next = none then pure state else deleteLoop fuel state next

/-- `_delete_children`. -/
def deleteChildren (state : Recorded start) (current : NodePtr) :
    Except Fault (Recorded start) := do
  let state ← update state current fun n => { n with parent := none }
  deleteLoop (state.heap.size + 1) state current

/-- One half of `delete_self`, which reads the edge again to delete the child itself. -/
def deleteSubtree (state : Recorded start) (self : NodePtr) (e : Edge) :
    Except Fault (Recorded start) := do
  let (node, state) ← deref state self
  if node.edges e = none then pure state
  else
    let state ← deleteChildren state (node.edges e)
    let (node, state) ← deref state self
    deleteNode state (node.edges e)

/-- `delete_self`. -/
def deleteSelf (state : Recorded start) (self : NodePtr) : Except Fault (Recorded start) := do
  let state ← deleteSubtree state self left
  let state ← deleteSubtree state self right
  deleteNode state self

end Logged

/-! ## The recorded functions follow the plain ones -/

namespace Logged

variable {state : Recorded start} {heap heap' : NodeHeap T} {ptr current : NodePtr}
  {node : PatriciaNode T} {e : Edge}

theorem exists_deref (now : state.heap = heap) (found : Patricia.deref heap ptr = .ok node) :
    ∃ next, deref state ptr = .ok (node, next) ∧ next.heap = heap := by
  subst now
  rcases deref_eq_ok_iff.mp found with ⟨a, rfl, live⟩
  rcases Recorded.read_eq live with ⟨next, found', now'⟩
  exact ⟨next, by rw [deref, found'], now'⟩

theorem exists_update {change : PatriciaNode T → PatriciaNode T} (now : state.heap = heap)
    (updated : Patricia.update heap ptr change = .ok heap') :
    ∃ next, update state ptr change = .ok next ∧ next.heap = heap' := by
  subst now
  rcases update_eq_ok_iff.mp updated with ⟨a, node, rfl, live, rfl⟩
  rcases Recorded.modify_eq live change with ⟨next, updated', now'⟩
  exact ⟨next, by rw [update, updated'], now'⟩

/-- A deletion is the last access so far. -/
theorem exists_deleteNode {a : Address} (now : state.heap = heap)
    (deleted : Patricia.deleteNode heap (some a) = .ok heap') :
    ∃ next, deleteNode state (some a) = .ok next ∧ next.heap = heap' ∧
      next.log.getLast? = some (.release a) := by
  rcases deleteNode_eq_ok_iff.mp deleted with ⟨⟨node, live⟩, rfl⟩
  rcases exists_deref now (deref_eq live) with ⟨middle, found, now'⟩
  subst now'
  rcases Recorded.release_eq live with ⟨next, released, now', log_eq⟩
  have recorded : deleteNode state (some a) = .ok next := by
    rw [deleteNode, found, ok_bind]
    dsimp only
    rw [released]
  exact ⟨next, recorded, now', by rw [log_eq, List.getLast?_concat]⟩

theorem exists_exchangeEdge (now : state.heap = heap)
    (found : Patricia.deref heap current = .ok node)
    (updated : (Patricia.update heap current fun n =>
      { n with edges := setEdge n.edges e none }) = .ok heap') :
    ∃ next, exchangeEdge state current e = .ok (node.edges e, next) ∧ next.heap = heap' := by
  rcases exists_deref now found with ⟨first, found', now₁⟩
  rcases exists_update now₁ updated with ⟨next, updated', now₂⟩
  have recorded : exchangeEdge state current e = .ok (node.edges e, next) := by
    rw [exchangeEdge, found', ok_bind]
    dsimp only
    rw [updated']
    rfl
  exact ⟨next, recorded, now₂⟩

theorem exists_deleteEdge (now : state.heap = heap)
    (deleted : Patricia.deleteEdge heap current e = .ok heap') :
    ∃ next, deleteEdge state current e = .ok next ∧ next.heap = heap' := by
  rcases bind_eq_ok_iff.mp deleted with ⟨node, found, deleted⟩
  rcases exists_deref now found with ⟨first, found', now₁⟩
  rw [deleteEdge, found', ok_bind]
  dsimp only at deleted ⊢
  cases edge_eq : node.edges e with
  | none =>
      rw [edge_eq, if_pos rfl] at deleted
      cases deleted
      exact ⟨first, if_pos rfl, now₁⟩
  | some child =>
      rw [edge_eq, if_neg (Option.some_ne_none child)] at deleted
      rw [if_neg (Option.some_ne_none child)]
      rcases bind_eq_ok_iff.mp deleted with ⟨middle, updated, released⟩
      rcases exists_exchangeEdge now₁ found updated with ⟨second, exchanged, now₂⟩
      rcases exists_deleteNode now₂ released with ⟨next, released', now₃, _⟩
      rw [exchanged, ok_bind]
      dsimp only
      rw [edge_eq, released']
      exact ⟨next, rfl, now₃⟩

/-- The assignment between the reads leaves the links that lead to the sibling. -/
theorem exists_moveRight {middle : NodeHeap T} {above : PatriciaNode T} (now : state.heap = heap)
    (found : Patricia.deref heap current = .ok node)
    (found_above : Patricia.deref heap node.parent = .ok above)
    (isLeft : above.edges left = current)
    (updated : (Patricia.update heap node.parent fun n =>
      { n with edges := setEdge n.edges left none }) = .ok middle)
    (deleted : Patricia.deleteNode middle current = .ok heap') :
    ∃ next, moveRight state current = .ok (above.edges right, next) ∧ next.heap = heap' := by
  have again := deref_of_update updated found
  have above_again := deref_of_update updated found_above
  have parent_eq : (if current = node.parent then
      { node with edges := setEdge node.edges left none } else node).parent = node.parent := by
    split
    · rfl
    · rfl
  rcases deref_eq_ok_iff.mp found with ⟨a, rfl, _⟩
  rcases exists_deref now found with ⟨first, found₁, now₁⟩
  rcases exists_exchangeEdge now₁ found_above updated with ⟨second, exchanged, now₂⟩
  rcases exists_deref now₂ again with ⟨third, found₃, now₃⟩
  rcases exists_deref now₃ above_again with ⟨fourth, found₄, now₄⟩
  rcases exists_deleteNode now₄ deleted with ⟨next, deleted', now₅, _⟩
  have recorded : moveRight state (some a) = .ok (above.edges right, next) := by
    rw [moveRight, found₁, ok_bind]
    dsimp only
    rw [exchanged, ok_bind]
    dsimp only
    rw [found₃, ok_bind]
    dsimp only
    rw [parent_eq, found₄, ok_bind]
    dsimp only
    rw [isLeft, deleted', if_pos rfl]
    rfl
  exact ⟨next, recorded, now₅⟩

theorem exists_deleteClimb {fuel : Nat} {next : NodePtr} (now : state.heap = heap)
    (climbed : Patricia.deleteClimb fuel heap current = .ok (next, heap')) :
    ∃ final, deleteClimb fuel state current = .ok (next, final) ∧ final.heap = heap' := by
  induction fuel generalizing state heap current with
  | zero => cases climbed
  | succ fuel ih =>
      rcases bind_eq_ok_iff.mp climbed with ⟨node, found, climbed⟩
      rcases exists_deref now found with ⟨first, found₁, now₁⟩
      rw [deleteClimb, found₁, ok_bind]
      dsimp only at climbed ⊢
      by_cases atTop : node.parent = none
      · rw [if_pos atTop] at climbed ⊢
        cases climbed
        exact ⟨first, rfl, now₁⟩
      · rw [if_neg atTop] at climbed ⊢
        rcases bind_eq_ok_iff.mp climbed with ⟨above, found_above, climbed⟩
        rcases exists_deref now₁ found_above with ⟨second, found₂, now₂⟩
        rw [found₂, ok_bind]
        dsimp only at climbed ⊢
        by_cases toRight : above.edges left = current ∧ above.edges right ≠ none
        · rw [if_pos toRight] at climbed ⊢
          rcases bind_eq_ok_iff.mp climbed with ⟨middle, updated, climbed⟩
          rcases bind_eq_ok_iff.mp climbed with ⟨last, deleted, climbed⟩
          cases climbed
          rw [toRight.1] at deleted
          exact exists_moveRight now₂ found found_above toRight.1 updated deleted
        · rw [if_neg toRight] at climbed ⊢
          rcases bind_eq_ok_iff.mp climbed with ⟨middle, onLeft, climbed⟩
          rcases bind_eq_ok_iff.mp climbed with ⟨last, onRight, climbed⟩
          rcases exists_deleteEdge now₂ onLeft with ⟨third, onLeft', now₃⟩
          rcases exists_deleteEdge now₃ onRight with ⟨fourth, onRight', now₄⟩
          rw [onLeft', ok_bind, onRight', ok_bind]
          exact ih now₄ climbed

theorem exists_deleteLoop {fuel : Nat} (now : state.heap = heap)
    (deleted : Patricia.deleteLoop fuel heap current = .ok heap') :
    ∃ final, deleteLoop fuel state current = .ok final ∧ final.heap = heap' := by
  induction fuel generalizing state heap current with
  | zero => cases deleted
  | succ fuel ih =>
      rcases bind_eq_ok_iff.mp deleted with ⟨node, found, deleted⟩
      rcases exists_deref now found with ⟨first, found₁, now₁⟩
      rw [deleteLoop, found₁, ok_bind]
      dsimp only at deleted ⊢
      by_cases onLeft : node.edges left ≠ none
      · rw [if_pos onLeft] at deleted ⊢
        exact ih now₁ deleted
      · rw [if_neg onLeft] at deleted ⊢
        by_cases onRight : node.edges right ≠ none
        · rw [if_pos onRight] at deleted ⊢
          exact ih now₁ deleted
        · rw [if_neg onRight] at deleted ⊢
          rcases bind_eq_ok_iff.mp deleted with ⟨⟨next, middle⟩, climbed, deleted⟩
          rcases exists_deleteClimb now₁ climbed with ⟨second, climbed', now₂⟩
          rw [now₁, climbed', ok_bind]
          dsimp only at deleted ⊢
          by_cases atEnd : next = none
          · rw [if_pos atEnd] at deleted ⊢
            cases deleted
            exact ⟨second, rfl, now₂⟩
          · rw [if_neg atEnd] at deleted ⊢
            exact ih now₂ deleted

theorem exists_deleteChildren (now : state.heap = heap)
    (deleted : Patricia.deleteChildren heap current = .ok heap') :
    ∃ final, deleteChildren state current = .ok final ∧ final.heap = heap' := by
  rcases bind_eq_ok_iff.mp deleted with ⟨middle, updated, looped⟩
  rcases exists_update now updated with ⟨first, updated', now₁⟩
  rw [deleteChildren, updated', ok_bind, now₁]
  exact exists_deleteLoop now₁ looped

/-- The edge is read again after the nodes below it are gone, so it has to be kept. -/
theorem exists_deleteSubtree {a : Address} (now : state.heap = heap)
    (live : heap.read a = some node) (kept : heap'.read a = some node)
    (deleted : Patricia.deleteSubtree heap (some a) e = .ok heap') :
    ∃ final, deleteSubtree state (some a) e = .ok final ∧ final.heap = heap' := by
  rcases exists_deref now (deref_eq live) with ⟨first, found₁, now₁⟩
  rw [Patricia.deleteSubtree, deref_eq live, ok_bind] at deleted
  rw [deleteSubtree, found₁, ok_bind]
  dsimp only
  cases edge_eq : node.edges e with
  | none =>
      rw [edge_eq, if_pos rfl] at deleted
      cases deleted
      exact ⟨first, if_pos rfl, now₁⟩
  | some b =>
      rw [edge_eq, if_neg (Option.some_ne_none b)] at deleted
      rw [if_neg (Option.some_ne_none b)]
      rcases bind_eq_ok_iff.mp deleted with ⟨middle, below, released⟩
      have still : middle.read a = some node := by
        rw [(deleteNode_eq_ok_iff.mp released).2, Heap.read_release] at kept
        split at kept
        · cases kept
        · exact kept
      rcases exists_deleteChildren now₁ below with ⟨second, below', now₂⟩
      rcases exists_deref now₂ (deref_eq still) with ⟨third, found₃, now₃⟩
      rcases exists_deleteNode now₃ released with ⟨final, released', now₄, _⟩
      rw [below', ok_bind, found₃, ok_bind]
      dsimp only
      rw [edge_eq, released']
      exact ⟨final, rfl, now₄⟩

end Logged

/-! ## Each node once -/

/-- A log that deletes a tree, each node once. -/
structure DeletesOnce (log : List Access) (t : LinkedTree (NodeData T)) : Prop where
  /-- Every node of the tree is deleted once, and nothing else is. -/
  once : ∀ b, (released log).count b = if b ∈ t.addresses then 1 else 0
  /-- The last access is the deletion of the root. -/
  root_last : log.getLast? = t.address.map Access.release
  /-- No node is read, assigned to or deleted after it was deleted. -/
  onlyLive : OnlyLive log

section Trees

variable {heap : NodeHeap T} {parent : NodePtr} {a : Address} {data : NodeData T}
  {children : Bool → LinkedTree (NodeData T)}

/-- What a log has released is what is gone at its end. -/
theorem count_released_of_deleted {t : LinkedTree (NodeData T)} {final : Recorded heap}
    (represented : Represents heap parent t) (deleted : Deleted heap final.heap t.addresses)
    (b : Address) : (released final.log).count b = if b ∈ t.addresses then 1 else 0 := by
  have member_iff : b ∈ released final.log ↔ b ∈ t.addresses := by
    rw [final.reaches.mem_released_iff, deleted.2 b]
    constructor
    · rintro ⟨wasThere, gone⟩
      by_contra outside
      rw [if_neg outside] at gone
      exact wasThere gone
    · intro inside
      rcases represented.exists_read inside with ⟨cell, live⟩
      exact ⟨by rw [live]; exact Option.some_ne_none cell, if_pos inside⟩
  rw [final.reaches.onlyLive.nodup_released.count]
  simp only [member_iff]

/-- For every tree of linked nodes, `delete_self` on its root ends, deletes each
node once and the root last, and touches no node that it has deleted. -/
theorem deleteSelf_deletesOnce (represented : Represents heap parent (.node a data children))
    (distinct : (LinkedTree.node a data children).Distinct) :
    ∃ final : Recorded heap, Logged.deleteSelf (.new heap) (some a) = .ok final ∧
      deleteSelf heap (some a) = .ok final.heap ∧
      DeletesOnce final.log (.node a data children) := by
  rcases deleteSelf_spec represented distinct with ⟨heap', plain, deleted⟩
  rcases deleteSubtrees_spec represented distinct with
    ⟨heap₁, heap₂, left_ok, right_ok, self₁, self₂, _⟩
  have live := represented.1
  have live₁ := self₁.trans live
  have live₂ := self₂.trans live
  have last : deleteNode heap₂ (some a) = .ok heap' := by
    rw [← plain, deleteSelf, left_ok, ok_bind, right_ok, ok_bind]
  have now : (Recorded.new heap).heap = heap := rfl
  rcases Logged.exists_deleteSubtree now live live₁ left_ok with ⟨first, left_eq, now₁⟩
  rcases Logged.exists_deleteSubtree now₁ live₁ live₂ right_ok with ⟨second, right_eq, now₂⟩
  rcases Logged.exists_deleteNode now₂ last with ⟨final, delete_eq, rfl, log_eq⟩
  have recorded : Logged.deleteSelf (.new heap) (some a) = .ok final := by
    rw [Logged.deleteSelf, left_eq, ok_bind, right_eq, ok_bind, delete_eq]
  exact ⟨final, recorded, plain, count_released_of_deleted represented deleted, log_eq,
    final.reaches.onlyLive⟩

end Trees

/-- A node with two leaves. -/
def twoLeaves : LinkedTree (NodeData Unit) :=
  .node 1 ⟨1, none, .empty⟩
    (LinkedTree.onEdge left (.leaf 2 ⟨8, some (), ⟨[0x00], 8⟩⟩) (.leaf 3 ⟨8, some (), ⟨[0x40], 8⟩⟩))

/-- It is on the left of a root with another leaf. -/
def threeLeaves : LinkedTree (NodeData Unit) :=
  .node 0 ⟨0, none, .empty⟩
    (LinkedTree.onEdge left twoLeaves (.leaf 4 ⟨8, some (), ⟨[0x80], 8⟩⟩))

/-- The cells of a tree in the order of its nodes. -/
def cellsOf : NodePtr → LinkedTree (NodeData Unit) → List (Option (PatriciaNode Unit))
  | _, .empty => []
  | parent, .node a data children =>
      some ⟨data, fun e => (children e).address, parent⟩ ::
        (cellsOf (some a) (children left) ++ cellsOf (some a) (children right))

theorem deleteSelf_deletesOnce_of_threeLeaves :
    ∃ final : Recorded ⟨cellsOf none threeLeaves⟩,
      Logged.deleteSelf (.new ⟨cellsOf none threeLeaves⟩) (some 0) = .ok final ∧
        deleteSelf ⟨cellsOf none threeLeaves⟩ (some 0) = .ok final.heap ∧
          DeletesOnce final.log threeLeaves := by
  have represented : Represents ⟨cellsOf none threeLeaves⟩ none threeLeaves := by
    refine ⟨rfl, fun e => ?_⟩
    cases e with
    | true => exact ⟨rfl, fun _ => trivial⟩
    | false =>
        refine ⟨rfl, fun e => ?_⟩
        cases e with
        | false => exact ⟨rfl, fun _ => trivial⟩
        | true => exact ⟨rfl, fun _ => trivial⟩
  have distinct : threeLeaves.Distinct := by
    unfold LinkedTree.Distinct
    decide
  exact deleteSelf_deletesOnce represented distinct

end SkAsync.Patricia

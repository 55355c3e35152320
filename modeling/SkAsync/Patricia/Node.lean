import SkAsync.Patricia.Key
import SkAsync.Library.LinkedTree

/-!
# Patricia nodes

`patricia_node` and `patricia_iterator` on an explicit heap.  A node pointer is
null or an address; following a null pointer or one to a deleted node is a
fault.  Loops take the number of allocated nodes as fuel.
-/

namespace SkAsync.Patricia

open SkAsync.Library

/-- The members of a node besides its links. -/
structure NodeData (T : Type) where
  bit : Nat
  value : Option T
  key : PatriciaKey

/-- `patricia_node`. -/
abbrev PatriciaNode (T : Type) := Cell (NodeData T)

abbrev NodeHeap (T : Type) := Heap (PatriciaNode T)

/-- `node_ptr`. -/
abbrev NodePtr := Option Address

abbrev Edge := Bool

abbrev left : Edge := false
abbrev right : Edge := true

variable {T : Type}

/-- `edgecount`. -/
def edgecount (node : PatriciaNode T) : Nat :=
  (if node.edges left = none then 0 else 1) + (if node.edges right = none then 0 else 1)

def setEdge (edges : Edge → NodePtr) (edge : Edge) (n : NodePtr) : Edge → NodePtr :=
  fun e => if e = edge then n else edges e

/-! ## Access -/

/-- Read through a pointer. -/
def deref (heap : NodeHeap T) (ptr : NodePtr) : Except Fault (PatriciaNode T) :=
  match ptr with
  | none => .error .nullDereference
  | some address =>
      match heap.read address with
      | none => .error .danglingDereference
      | some node => .ok node

/-- Write through a pointer. -/
def update (heap : NodeHeap T) (ptr : NodePtr) (change : PatriciaNode T → PatriciaNode T) :
    Except Fault (NodeHeap T) :=
  match ptr with
  | none => .error .nullDereference
  | some address =>
      match heap.read address with
      | none => .error .danglingDereference
      | some node => .ok (heap.write address (change node))

/-- `delete`. -/
def deleteNode (heap : NodeHeap T) (ptr : NodePtr) : Except Fault (NodeHeap T) :=
  match ptr with
  | none => .ok heap
  | some address =>
      match heap.read address with
      | none => .error .danglingDereference
      | some _ => .ok (heap.release address)

/-! ## Making nodes -/

/-- `make_node` from a key and a bit. -/
def makeNode (heap : NodeHeap T) (key : PatriciaKey) (bit : Nat) : NodePtr × NodeHeap T :=
  (some heap.next,
    heap.allocate ⟨⟨bit, none, if key.isEmpty then .empty else key⟩, fun _ => none, none⟩)

/-- `n->parent = parent`, if there is a node. -/
def setParent (heap : NodeHeap T) (n parent : NodePtr) : Except Fault (NodeHeap T) :=
  if n = none then pure heap else update heap n fun node => { node with parent := parent }

/-- `make_node` from a parent, two children and a bit. -/
def makeBranch (heap : NodeHeap T) (parent l r : NodePtr) (bit : Nat) :
    Except Fault (NodePtr × NodeHeap T) := do
  let (node, heap) := makeNode heap .empty bit
  let heap ← update heap node fun n => { n with parent := parent }
  let heap ← update heap node fun n => { n with edges := setEdge n.edges left l }
  let heap ← setParent heap l node
  let heap ← update heap node fun n => { n with edges := setEdge n.edges right r }
  let heap ← setParent heap r node
  pure (node, heap)

/-! ## Links -/

/-- `detach`. -/
def detach (heap : NodeHeap T) (self : NodePtr) (e : Edge) :
    Except Fault (NodePtr × NodeHeap T) := do
  let node ← deref heap self
  if node.edges e = none then pure (none, heap)
  else
    let p := node.edges e
    let heap ← update heap self fun n => { n with edges := setEdge n.edges e none }
    let heap ← update heap p fun n => { n with parent := none }
    pure (p, heap)

/-- `attach`. -/
def attach (heap : NodeHeap T) (self : NodePtr) (e : Edge) (n : NodePtr) :
    Except Fault (NodePtr × NodeHeap T) := do
  let (prev, heap) ← detach heap self e
  let heap ← update heap self fun node => { node with edges := setEdge node.edges e n }
  let heap ← update heap n fun node => { node with parent := self }
  pure (prev, heap)

/-- `which`. -/
def which (build : Build) (heap : NodeHeap T) (self n : NodePtr) : Except Fault Edge := do
  let node ← deref heap self
  if node.edges left = n then pure left
  else
    skCheck build (node.edges right = n) "rightedge() == n"
    pure right

/-- `clear_value`. -/
def clearValue (heap : NodeHeap T) (self : NodePtr) : Except Fault (NodeHeap T) :=
  update heap self fun n =>
    { n with data := { n.data with value := none, key := { n.data.key with bits := 0 } } }

/-! ## Deleting nodes -/

/-- `delete std::exchange(current->edges[e], nullptr)`, if there is a node. -/
def deleteEdge (heap : NodeHeap T) (current : NodePtr) (e : Edge) : Except Fault (NodeHeap T) := do
  let node ← deref heap current
  if node.edges e = none then pure heap
  else
    let heap ← update heap current fun n => { n with edges := setEdge n.edges e none }
    deleteNode heap (node.edges e)

/-- The inner loop of `_delete_children`: climb to a node with a right sibling,
deleting what is left behind.  No node is returned at the top. -/
def deleteClimb : (fuel : Nat) → NodeHeap T → NodePtr → Except Fault (NodePtr × NodeHeap T)
  | 0, _, _ => .error .diverged
  | fuel + 1, heap, current => do
      let node ← deref heap current
      if node.parent = none then pure (none, heap)
      else
        let above ← deref heap node.parent
        if above.edges left = current ∧ above.edges right ≠ none then
          let heap ← update heap node.parent fun n => { n with edges := setEdge n.edges left none }
          let heap ← deleteNode heap (above.edges left)
          pure (above.edges right, heap)
        else
          let heap ← deleteEdge heap node.parent left
          let heap ← deleteEdge heap node.parent right
          deleteClimb fuel heap node.parent

/-- The outer loop of `_delete_children`. -/
def deleteLoop : (fuel : Nat) → NodeHeap T → NodePtr → Except Fault (NodeHeap T)
  | 0, _, _ => .error .diverged
  | fuel + 1, heap, current => do
      let node ← deref heap current
      if node.edges left ≠ none then deleteLoop fuel heap (node.edges left)
      else if node.edges right ≠ none then deleteLoop fuel heap (node.edges right)
      else
        let (next, heap) ← deleteClimb (heap.size + 1) heap current
        if next = none then pure heap else deleteLoop fuel heap next

/-- `_delete_children`. -/
def deleteChildren (heap : NodeHeap T) (current : NodePtr) : Except Fault (NodeHeap T) := do
  let heap ← update heap current fun n => { n with parent := none }
  deleteLoop (heap.size + 1) heap current

/-- One half of `delete_self`. -/
def deleteSubtree (heap : NodeHeap T) (self : NodePtr) (e : Edge) : Except Fault (NodeHeap T) := do
  let node ← deref heap self
  if node.edges e = none then pure heap
  else
    let heap ← deleteChildren heap (node.edges e)
    deleteNode heap (node.edges e)

/-- `delete_self`. -/
def deleteSelf (heap : NodeHeap T) (self : NodePtr) : Except Fault (NodeHeap T) := do
  let heap ← deleteSubtree heap self left
  let heap ← deleteSubtree heap self right
  deleteNode heap self

/-! ## Iterators -/

/-- The inner loop of `_advance`: climb to a node with a right sibling, and
return that sibling; at the top, return no node. -/
def advanceClimb (heap : NodeHeap T) : (fuel : Nat) → NodePtr → Except Fault NodePtr
  | 0, _ => .error .diverged
  | fuel + 1, current => do
      let node ← deref heap current
      let above ← deref heap node.parent
      if above.edges left = current ∧ above.edges right ≠ none then pure (above.edges right)
      else if above.parent = none then pure none
      else advanceClimb heap fuel node.parent

/-- One iteration of the outer loop of `_advance`. -/
def advanceStep (heap : NodeHeap T) (current : NodePtr) : Except Fault NodePtr := do
  let node ← deref heap current
  if node.edges left ≠ none then pure (node.edges left)
  else if node.edges right ≠ none then pure (node.edges right)
  else advanceClimb heap (heap.size + 1) current

/-- `_advance`. -/
def advance (heap : NodeHeap T) : (fuel : Nat) → NodePtr → Except Fault NodePtr
  | 0, _ => .error .diverged
  | fuel + 1, current => do
      let next ← advanceStep heap current
      if next = none then pure none
      else
        let node ← deref heap next
        if node.data.value.isSome then pure next else advance heap fuel next

/-- The constructor of `patricia_iterator`: a node without a value is passed over. -/
def iteratorAt (heap : NodeHeap T) (node : NodePtr) : Except Fault NodePtr :=
  if node = none then pure none
  else do
    let here ← deref heap node
    if here.data.value.isSome then pure node else advance heap (heap.size + 1) node

/-- `operator++` of an iterator. -/
def increment (heap : NodeHeap T) (current : NodePtr) : Except Fault NodePtr :=
  advance heap (heap.size + 1) current

/-- `operator*` of an iterator. -/
def iteratorValue (build : Build) (heap : NodeHeap T) (current : NodePtr) : Except Fault T := do
  skCheck build (current ≠ none) "current != nullptr"
  let node ← deref heap current
  match node.data.value with
  | none => .error (.checkFailed "current->value.has_value()")
  | some value => pure value

/-! ## Equations -/

theorem deref_eq {heap : NodeHeap T} {address : Address} {node : PatriciaNode T}
    (live : heap.read address = some node) : deref heap (some address) = .ok node := by
  rw [deref, live]

/-- A read succeeds exactly through a pointer to a node that is there. -/
theorem deref_eq_ok_iff {heap : NodeHeap T} {ptr : NodePtr} {node : PatriciaNode T} :
    deref heap ptr = .ok node ↔ ∃ a, ptr = some a ∧ heap.read a = some node := by
  constructor
  · intro found
    unfold deref at found
    split at found
    · cases found
    · rename_i a
      split at found
      · cases found
      · rename_i live
        cases found
        exact ⟨a, rfl, live⟩
  · rintro ⟨a, rfl, live⟩
    exact deref_eq live

theorem update_eq {heap : NodeHeap T} {address : Address} {node : PatriciaNode T}
    (live : heap.read address = some node) (change : PatriciaNode T → PatriciaNode T) :
    update heap (some address) change = .ok (heap.write address (change node)) := by
  rw [update, live]

theorem update_eq_ok_iff {heap heap' : NodeHeap T} {ptr : NodePtr}
    {change : PatriciaNode T → PatriciaNode T} :
    update heap ptr change = .ok heap' ↔
      ∃ a node, ptr = some a ∧ heap.read a = some node ∧ heap' = heap.write a (change node) := by
  constructor
  · intro updated
    unfold update at updated
    split at updated
    · cases updated
    · rename_i a
      split at updated
      · cases updated
      · rename_i node live
        cases updated
        exact ⟨a, node, rfl, live, rfl⟩
  · rintro ⟨a, node, rfl, live, rfl⟩
    exact update_eq live change

/-- What is read after a write. -/
theorem deref_of_update {heap heap' : NodeHeap T} {ptr other : NodePtr} {node : PatriciaNode T}
    {change : PatriciaNode T → PatriciaNode T} (updated : update heap ptr change = .ok heap')
    (found : deref heap other = .ok node) :
    deref heap' other = .ok (if other = ptr then change node else node) := by
  rcases update_eq_ok_iff.mp updated with ⟨a, cell, rfl, live, rfl⟩
  rcases deref_eq_ok_iff.mp found with ⟨b, rfl, live'⟩
  apply deref_eq
  rw [Heap.read_write (Heap.lt_size_of_read live)]
  by_cases same : b = a
  · subst same
    rw [live] at live'
    cases live'
    rw [if_pos rfl, if_pos rfl]
  · rw [if_neg same, if_neg (fun equal => same (Option.some.inj equal)), live']

theorem deleteNode_eq {heap : NodeHeap T} {a : Address} {node : PatriciaNode T}
    (live : heap.read a = some node) : deleteNode heap (some a) = .ok (heap.release a) := by
  rw [deleteNode, live]

theorem deleteNode_eq_ok_iff {heap heap' : NodeHeap T} {a : Address} :
    deleteNode heap (some a) = .ok heap' ↔
      (∃ node, heap.read a = some node) ∧ heap' = heap.release a := by
  constructor
  · intro deleted
    unfold deleteNode at deleted
    dsimp only at deleted
    split at deleted
    · cases deleted
    · rename_i node live
      cases deleted
      exact ⟨⟨node, live⟩, rfl⟩
  · rintro ⟨⟨node, live⟩, rfl⟩
    exact deleteNode_eq live

theorem iteratorValue_eq (build : Build) {heap : NodeHeap T} {a : Address} {node : PatriciaNode T}
    {value : T}
    (live : heap.read a = some node) (present : node.data.value = some value) :
    iteratorValue build heap (some a) = .ok value := by
  rw [iteratorValue, skCheck_of (Option.some_ne_none a), ok_bind, deref_eq live, ok_bind, present]
  rfl

@[simp]
theorem setEdge_self (edges : Edge → NodePtr) (edge : Edge) (n : NodePtr) :
    setEdge edges edge n edge = n :=
  if_pos rfl

/-- What `attach` leaves on an edge does not depend on what was there. -/
theorem setEdge_setEdge (edges : Edge → NodePtr) (edge : Edge) (n m : NodePtr) :
    setEdge (setEdge edges edge n) edge m = setEdge edges edge m := by
  funext e
  unfold setEdge
  split <;> rfl

/-- Deleting a node without children deletes just that node. -/
theorem deleteSelf_of_no_edges {heap : NodeHeap T} {address : Address} {node : PatriciaNode T}
    (live : heap.read address = some node) (noEdges : ∀ e, node.edges e = none) :
    deleteSelf heap (some address) = .ok (heap.release address) := by
  unfold deleteSelf deleteSubtree deleteNode
  simp only [deref_eq live, ok_bind, noEdges, if_true, pure_eq_ok, live]

/-- The node is on the edge that `which` names. -/
theorem which_eq {build : Build} {heap : NodeHeap T} {parent : Address} {node : PatriciaNode T}
    {child : NodePtr} {edge : Edge} (live : heap.read parent = some node)
    (onEdge : node.edges edge = child) (notOther : node.edges (!edge) ≠ child) :
    which build heap (some parent) child = .ok edge := by
  unfold which
  rw [deref_eq live, ok_bind]
  cases edge with
  | false =>
      rw [if_pos onEdge]
      rfl
  | true =>
      have notLeft : ¬ node.edges left = child := notOther
      rw [if_neg notLeft, skCheck_of onEdge]
      rfl

theorem detach_of_none {heap : NodeHeap T} {a : Address} {node : PatriciaNode T} {e : Edge}
    (live : heap.read a = some node) (noEdge : node.edges e = none) :
    detach heap (some a) e = .ok (none, heap) := by
  rw [detach, deref_eq live, ok_bind, if_pos noEdge]
  rfl

theorem detach_of_some {heap : NodeHeap T} {a p : Address} {node child : PatriciaNode T} {e : Edge}
    (live : heap.read a = some node) (edge_eq : node.edges e = some p)
    (live' : heap.read p = some child) (different : p ≠ a) :
    detach heap (some a) e = .ok (some p,
      (heap.write a { node with edges := setEdge node.edges e none }).write p
        { child with parent := none }) := by
  have live'' : (heap.write a { node with edges := setEdge node.edges e none }).read p =
      some child := by
    rw [Heap.read_write (Heap.lt_size_of_read live), if_neg different, live']
  rw [detach, deref_eq live, ok_bind, edge_eq, if_neg (Option.some_ne_none p), update_eq live,
    ok_bind, update_eq live'']
  rfl

/-- `attach` puts a node on an edge and cuts off the node that was there. -/
theorem attach_spec {heap : NodeHeap T} {a n : Address} {node new : PatriciaNode T} {e : Edge}
    (live : heap.read a = some node) (live' : heap.read n = some new) (different : n ≠ a)
    (before : ∀ p, node.edges e = some p → p ≠ a ∧ p ≠ n ∧ ∃ child, heap.read p = some child) :
    ∃ heap', attach heap (some a) e (some n) = .ok (node.edges e, heap') ∧
      heap'.size = heap.size ∧
      heap'.read a = some { node with edges := setEdge node.edges e (some n) } ∧
      heap'.read n = some { new with parent := some a } ∧
      (∀ p child, node.edges e = some p → heap.read p = some child →
        heap'.read p = some { child with parent := none }) ∧
      ∀ b, b ≠ a → b ≠ n → node.edges e ≠ some b → heap'.read b = heap.read b := by
  have inHeap := Heap.lt_size_of_read live
  have inHeap' := Heap.lt_size_of_read live'
  cases edge_eq : node.edges e with
  | none =>
      have liveNew : (heap.write a { node with edges := setEdge node.edges e (some n) }).read n =
          some new := by
        rw [Heap.read_write inHeap, if_neg different, live']
      refine ⟨(heap.write a { node with edges := setEdge node.edges e (some n) }).write n
        { new with parent := some a }, ?_, by simp, ?_, ?_, ?_, ?_⟩
      · rw [attach, detach_of_none live edge_eq, ok_bind]
        dsimp only
        rw [update_eq live, ok_bind, update_eq liveNew]
        rfl
      · rw [Heap.read_write (by simpa using inHeap'), if_neg different.symm,
          Heap.read_write inHeap, if_pos rfl]
      · rw [Heap.read_write (by simpa using inHeap'), if_pos rfl]
      · intro p child impossible
        cases impossible
      · intro b notSelf notNew _
        rw [Heap.read_write (by simpa using inHeap'), if_neg notNew, Heap.read_write inHeap,
          if_neg notSelf]
  | some p =>
      rcases before p edge_eq with ⟨notSelf, notNew, child, livePrev⟩
      have inHeap'' := Heap.lt_size_of_read livePrev
      generalize detached_eq :
        (heap.write a { node with edges := setEdge node.edges e none }).write p
          { child with parent := none } = detached
      have size_eq : detached.size = heap.size := by
        rw [← detached_eq]
        simp
      have read_eq : ∀ b, detached.read b = if b = p then some { child with parent := none }
          else if b = a then some { node with edges := setEdge node.edges e none }
          else heap.read b := by
        intro b
        rw [← detached_eq, Heap.read_write (by simpa using inHeap''), Heap.read_write inHeap]
      have liveSelf : detached.read a =
          some { node with edges := setEdge node.edges e none } := by
        rw [read_eq, if_neg notSelf.symm, if_pos rfl]
      have inDetached := Heap.lt_size_of_read liveSelf
      have liveNew : (detached.write a
          { node with edges := setEdge (setEdge node.edges e none) e (some n) }).read n =
          some new := by
        rw [Heap.read_write inDetached, if_neg different, read_eq, if_neg notNew.symm,
          if_neg different, live']
      refine ⟨(detached.write a
          { node with edges := setEdge (setEdge node.edges e none) e (some n) }).write n
        { new with parent := some a }, ?_, by simp [size_eq], ?_, ?_, ?_, ?_⟩
      · rw [attach, detach_of_some live edge_eq livePrev notSelf, ok_bind, detached_eq]
        dsimp only
        rw [update_eq liveSelf, ok_bind, update_eq liveNew]
        rfl
      · rw [Heap.read_write (Heap.lt_size_of_read liveNew), if_neg different.symm,
          Heap.read_write inDetached, if_pos rfl, setEdge_setEdge]
      · rw [Heap.read_write (Heap.lt_size_of_read liveNew), if_pos rfl]
      · intro p' child' same live'
        cases same
        rw [livePrev] at live'
        cases live'
        rw [Heap.read_write (Heap.lt_size_of_read liveNew), if_neg notNew,
          Heap.read_write inDetached, if_neg notSelf, read_eq, if_pos rfl]
      · intro b notSelf' notNew' notPrev
        have notPrev' : b ≠ p := by
          rintro rfl
          exact notPrev rfl
        rw [Heap.read_write (Heap.lt_size_of_read liveNew), if_neg notNew',
          Heap.read_write inDetached, if_neg notSelf', read_eq, if_neg notPrev', if_neg notSelf']

/-- `make_node` from two children makes itself their parent. -/
theorem makeBranch_spec {heap : NodeHeap T} (parent : NodePtr) {l r : Address}
    {first second : PatriciaNode T} (bit : Nat) (live : heap.read l = some first)
    (live' : heap.read r = some second) (different : l ≠ r) :
    ∃ heap', makeBranch heap parent (some l) (some r) bit = .ok (some heap.size, heap') ∧
      heap'.size = heap.size + 1 ∧
      heap'.read heap.size =
        some ⟨⟨bit, none, .empty⟩, fun e => if e = left then some l else some r, parent⟩ ∧
      heap'.read l = some { first with parent := some heap.size } ∧
      heap'.read r = some { second with parent := some heap.size } ∧
      ∀ b, b ≠ heap.size → b ≠ l → b ≠ r → heap'.read b = heap.read b := by
  have notNew : l ≠ heap.size := Nat.ne_of_lt (Heap.lt_size_of_read live)
  have notNew' : r ≠ heap.size := Nat.ne_of_lt (Heap.lt_size_of_read live')
  have inHeap : l < heap.size + 1 := Nat.lt_succ_of_lt (Heap.lt_size_of_read live)
  have inHeap' : r < heap.size + 1 := Nat.lt_succ_of_lt (Heap.lt_size_of_read live')
  -- the heap after each assignment, in the order of the source
  let fresh : PatriciaNode T := ⟨⟨bit, none, .empty⟩, fun _ => none, none⟩
  let made := heap.allocate fresh
  let withParent := made.write heap.size { fresh with parent := parent }
  let withLeft := withParent.write heap.size
    { fresh with parent := parent, edges := setEdge fresh.edges left (some l) }
  let leftLinked := withLeft.write l { first with parent := some heap.size }
  let withRight := leftLinked.write heap.size { fresh with
    parent := parent, edges := setEdge (setEdge fresh.edges left (some l)) right (some r) }
  have read_made : ∀ b, made.read b = if b = heap.size then some fresh else heap.read b :=
    Heap.read_allocate heap fresh
  have read_withParent : ∀ b, withParent.read b =
      if b = heap.size then some { fresh with parent := parent } else made.read b :=
    Heap.read_write (by simp [made]) _
  have read_withLeft : ∀ b, withLeft.read b = if b = heap.size then
      some { fresh with parent := parent, edges := setEdge fresh.edges left (some l) }
      else withParent.read b :=
    Heap.read_write (by simp [withParent, made]) _
  have read_leftLinked : ∀ b, leftLinked.read b =
      if b = l then some { first with parent := some heap.size } else withLeft.read b :=
    Heap.read_write (by simpa [withLeft, withParent, made] using inHeap) _
  have read_withRight : ∀ b, withRight.read b = if b = heap.size then
      some { fresh with
        parent := parent, edges := setEdge (setEdge fresh.edges left (some l)) right (some r) }
      else leftLinked.read b :=
    Heap.read_write (by simp [leftLinked, withLeft, withParent, made]) _
  have read_final : ∀ b, (withRight.write r { second with parent := some heap.size }).read b =
      if b = r then some { second with parent := some heap.size } else withRight.read b :=
    Heap.read_write (by simpa [withRight, leftLinked, withLeft, withParent, made] using inHeap') _
  refine ⟨withRight.write r { second with parent := some heap.size }, ?_, ?_, ?_, ?_, ?_, ?_⟩
  · have live_made : made.read heap.size = some fresh := by
      rw [read_made, if_pos rfl]
    have live_withParent : withParent.read heap.size = some { fresh with parent := parent } := by
      rw [read_withParent, if_pos rfl]
    have live_withLeft : withLeft.read l = some first := by
      rw [read_withLeft, if_neg notNew, read_withParent, if_neg notNew, read_made, if_neg notNew,
        live]
    have live_leftLinked : leftLinked.read heap.size = some { fresh with
        parent := parent, edges := setEdge fresh.edges left (some l) } := by
      rw [read_leftLinked, if_neg notNew.symm, read_withLeft, if_pos rfl]
    have live_withRight : withRight.read r = some second := by
      rw [read_withRight, if_neg notNew', read_leftLinked, if_neg different.symm, read_withLeft,
        if_neg notNew', read_withParent, if_neg notNew', read_made, if_neg notNew', live']
    have made_eq : makeNode heap .empty bit = (some heap.size, made) := rfl
    rw [makeBranch, made_eq]
    dsimp only
    rw [update_eq live_made, ok_bind, update_eq live_withParent, ok_bind,
      setParent, if_neg (Option.some_ne_none l), update_eq live_withLeft, ok_bind,
      update_eq live_leftLinked, ok_bind, setParent, if_neg (Option.some_ne_none r),
      update_eq live_withRight, ok_bind]
    rfl
  · simp [withRight, leftLinked, withLeft, withParent, made]
  · rw [read_final, if_neg notNew'.symm, read_withRight, if_pos rfl]
    congr 2
    funext e
    cases e <;> rfl
  · rw [read_final, if_neg different, read_withRight, if_neg notNew, read_leftLinked, if_pos rfl]
  · rw [read_final, if_pos rfl]
  · intro b notFresh notLeft notRight
    rw [read_final, if_neg notRight, read_withRight, if_neg notFresh, read_leftLinked,
      if_neg notLeft, read_withLeft, if_neg notFresh, read_withParent, if_neg notFresh, read_made,
      if_neg notFresh]

/-- The same with the children named by the edge of one of them. -/
theorem makeBranch_onEdge {heap : NodeHeap T} (parent : NodePtr) {n other : Address}
    {first second : PatriciaNode T} (bit : Nat) (edge : Bool) (live : heap.read n = some first)
    (live' : heap.read other = some second) (different : n ≠ other) :
    ∃ heap', makeBranch heap parent (if edge then some other else some n)
        (if edge then some n else some other) bit = .ok (some heap.size, heap') ∧
      heap'.size = heap.size + 1 ∧
      heap'.read heap.size =
        some ⟨⟨bit, none, .empty⟩, fun e => if e = edge then some n else some other, parent⟩ ∧
      heap'.read n = some { first with parent := some heap.size } ∧
      heap'.read other = some { second with parent := some heap.size } ∧
      ∀ b, b ≠ heap.size → b ≠ n → b ≠ other → heap'.read b = heap.read b := by
  cases edge with
  | false =>
      rcases makeBranch_spec parent bit live live' different with
        ⟨heap', made, size_eq, top, below, below', others⟩
      exact ⟨heap', made, size_eq, top, below, below', others⟩
  | true =>
      rcases makeBranch_spec parent bit live' live different.symm with
        ⟨heap', made, size_eq, top, below', below, others⟩
      refine ⟨heap', made, size_eq, ?_, below, below', fun b notNew first second =>
        others b notNew second first⟩
      rw [top]
      congr 2
      funext e
      cases e <;> rfl

end SkAsync.Patricia

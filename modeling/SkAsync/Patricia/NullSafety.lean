import SkAsync.Library.Execution
import SkAsync.Patricia.Copy
import SkAsync.Patricia.Graft
import SkAsync.Patricia.KeyMaker
import SkAsync.Patricia.Teardown

/-!
# Walking and copying a container

The climbs of an iterator and of `copy` end at a node below the root, so both
follow the null parent of a root that has no children; and a container that was
never used has no root to copy.  The containers are those of completed
insertions and removals of keys of one width.
-/

namespace SkAsync.Patricia

open SkAsync.Library PatriciaTrie

variable {T : Type}

/-! ## Copying -/

/-- The copy constructor.  The copy is on the heap of the original. -/
def PatriciaTrie.copyConstruct (other : PatriciaTrie T) : Except Fault (PatriciaTrie T) := do
  let (root, heap) ← copy other.heap other.root
  pure ⟨root, heap⟩

/-- Copy assignment, from another trie. -/
def PatriciaTrie.copyAssign (trie other : PatriciaTrie T) : Except Fault (PatriciaTrie T) :=
  if trie.root ≠ none then do
    let _ ← deleteSelf trie.heap trie.root
    copyConstruct other
  else copyConstruct other

/-! ## Runs -/

/-- The operations of a trie, by key, and of a set, by value. -/
inductive ContainerOp (T : Type)
  | insert (key : PatriciaKey) (value : T)
  | remove (key : PatriciaKey)
  | setInsert (value : T)
  | setErase (value : T)

def ContainerOp.key (keyMaker : T → PatriciaKey) : ContainerOp T → PatriciaKey
  | .insert key _ => key
  | .remove key => key
  | .setInsert value => keyMaker value
  | .setErase value => keyMaker value

/-- One operation, with the number of values that it adds or takes away. -/
def containerStep (build : Build) (keyMaker : T → PatriciaKey) (trie : PatriciaTrie T) :
    ContainerOp T → Except Fault (Nat × PatriciaTrie T)
  | .insert key value => do
      let (isNew, trie) ← PatriciaTrie.insert build trie key value
      pure (isNew.toNat, trie)
  | .remove key => do
      let (removed, trie) ← PatriciaTrie.remove build trie key
      pure (removed.toNat, trie)
  | .setInsert value => do
      let (result, trie) ← PatriciaSet.insert build keyMaker trie value
      pure (result.2.toNat, trie)
  | .setErase value => PatriciaSet.erase build keyMaker trie value

/-- All keys have `n` bits. -/
def FixedWidth (keyMaker : T → PatriciaKey) (n : Nat) (ops : List (ContainerOp T)) : Prop :=
  ∀ op ∈ ops, (op.key keyMaker).Sized ∧ (op.key keyMaker).bits = n

/-- No null pointer is followed. -/
def NullSafe {α : Type} (result : Except Fault α) : Prop :=
  result ≠ .error .nullDereference

/-- Neither `begin()` and `++` up to `end()`, nor copy construction, nor copy
assignment to any other container follows a null pointer. -/
structure WalksNullSafe (build : Build) (trie : PatriciaTrie T) : Prop where
  walk : NullSafe (PatriciaSet.traverse build trie)
  construct : NullSafe trie.copyConstruct
  assign : ∀ target t, OnHeap target t → NullSafe (PatriciaTrie.copyAssign target trie)

/-- There is a root, and it has a child. -/
def RootHasChild (trie : PatriciaTrie T) : Prop :=
  ∃ node, trie.root.bind trie.heap.read = some node ∧ ∃ e, node.edges e ≠ none

/-! ## The nodes of a run -/

/-- Nodes are not behind the last bit, and have no more of a key than fits them. -/
structure Bounded (n : Nat) (data : NodeData T) : Prop where
  sound : Sound data
  bit_le : data.bit ≤ n
  no_key : data.value = none → data.key.bits = 0

section Steps

variable {n : Nat} {trie : PatriciaTrie T} {t : LinkedTree (NodeData T)} {key : PatriciaKey}

theorem rooted_bounded (root : Address) (bounded : t.All (Bounded n)) :
    (rooted root t).All (Bounded n) := by
  cases t with
  | empty => exact ⟨⟨⟨Or.inl rfl, Nat.zero_le _⟩, Nat.zero_le _, fun _ => rfl⟩, fun _ => trivial⟩
  | node a data children => exact bounded

theorem filledData_bounded (sized : key.Sized) (width : key.bits = n) (value : T) :
    Bounded n (filledData key value) := by
  have bit_eq : (filledData key value).bit = n := width
  have key_eq : (filledData key value).key = if key.isEmpty then .empty else key := rfl
  have sound : Sound (filledData key value) := by
    rw [Sound, bit_eq, key_eq]
    split
    · exact ⟨Or.inl rfl, Nat.zero_le n⟩
    · exact ⟨Or.inr sized, width.le⟩
  exact ⟨sound, bit_eq.le, fun impossible => nomatch impossible⟩

/-- An insertion either completes, or it would have to put a node above the root. -/
theorem insertNode_bounded (build : Build) (onHeap : OnHeap trie t) (bounded : t.All (Bounded n))
    (sized : key.Sized) (width : key.bits = n) :
    insertNode build trie key = .error .nullDereference ∨
      ∃ (place : Place T) (trie' : PatriciaTrie T),
        insertNode build trie key = .ok (some place.address, trie') ∧ OnHeap trie' place.tree ∧
        ∀ value, (place.store value).All (Bounded n) := by
  rcases insertNode_stops build onHeap key with
    ⟨root, passed, context, bottom, below, a, data, children, diffbit, stopped, onHeap', placed⟩
  have bounded' := rooted_bounded root bounded
  rw [← stopped.tree_eq] at bounded'
  have here := (all_plug_iff.mp bounded').1.1
  have notAbove := stopped.notAbove
  have inKey := stopped.inKey
  rw [placed]
  cases grafted : graft key (makeRoot trie).heap.size diffbit context a data children with
  | none =>
      left
      have atRoot : context = [] ∧ data.bit ≠ diffbit := by
        unfold graft at grafted
        split at grafted
        · cases grafted
        · split at grafted
          · cases grafted
          · rename_i notHere
            split at grafted
            · rename_i atRoot
              exact ⟨atRoot, notHere⟩
            · split at grafted <;> cases grafted
      rcases atRoot with ⟨rfl, notHere⟩
      apply placeNew_of_no_parent build onHeap' notHere
      intro whole
      have bit_le := here.bit_le
      rw [← width] at bit_le
      rw [PatriciaKey.sizeBits] at whole
      omega
  | some place =>
      right
      rcases placeNew_spec build onHeap' grafted with ⟨trie', done, onHeap''⟩
      refine ⟨place, trie', done, onHeap'', fun value => ?_⟩
      apply all_store grafted bounded'
      · intro _
        refine ⟨here.sound, here.bit_le, fun impossible => ?_⟩
        simp at impossible
      · exact filledData_bounded sized width value
      · refine ⟨⟨Or.inl rfl, Nat.zero_le _⟩, ?_, fun _ => rfl⟩
        rw [PatriciaKey.sizeBits, width] at inKey
        exact inKey

/-- A removal keeps the bounds. -/
theorem removeNode_bounded (build : Build) {context : Context (NodeData T)} {a : Address}
    {data : NodeData T} {children : Bool → LinkedTree (NodeData T)}
    (onHeap : OnHeap trie (plug context (.node a data children)))
    (bounded : (plug context (.node a data children)).All (Bounded n)) :
    ∃ trie' t', removeNode build trie (some a) = .ok trie' ∧ OnHeap trie' t' ∧
      t'.All (Bounded n) := by
  rcases all_plug_iff.mp bounded with ⟨⟨here, below⟩, around⟩
  have noKeys : ∀ frame ∈ context, frame.data.value = none → frame.data.key.bits = 0 :=
    fun frame member => (around frame member).1.no_key
  have bound := onHeap.length_le
  have enough : context.length < trie.heap.size + 1 := by omega
  rcases removeLoop_eq build onHeap here.no_key noKeys enough with ⟨trie', removed, onHeap'⟩
  refine ⟨trie', _, removed, onHeap', pruned_rule (fun t => t.All (Bounded n)) noKeys ?_ ?_⟩
  · intro context b data' children' edge _ _ all
    rcases all_plug_iff.mp all with ⟨⟨_, below'⟩, around'⟩
    exact all_plug_iff.mpr ⟨below' edge, around'⟩
  · refine all_plug_iff.mpr ⟨⟨⟨⟨Or.inl rfl, Nat.zero_le _⟩, here.bit_le, fun _ => rfl⟩, below⟩,
      around⟩

/-- A completed operation leaves a tree on the heap, within the bounds. -/
theorem containerStep_bounded (build : Build) (keyMaker : T → PatriciaKey) {op : ContainerOp T}
    (onHeap : OnHeap trie t) (bounded : t.All (Bounded n)) (sized : (op.key keyMaker).Sized)
    (width : (op.key keyMaker).bits = n) {count : Nat} {trie' : PatriciaTrie T}
    (stepped : containerStep build keyMaker trie op = .ok (count, trie')) :
    ∃ t', OnHeap trie' t' ∧ t'.All (Bounded n) := by
  have sound := bounded.imp fun _ here => here.sound
  cases op with
  | insert key value =>
      have sized' : key.Sized := sized
      rcases insertNode_bounded build onHeap bounded sized' width with
        fault | ⟨place, trie₁, inserted, onHeap₁, bounded₁⟩
      · rw [containerStep, PatriciaTrie.insert, fault] at stepped
        cases stepped
      · rcases insert_spec value inserted onHeap₁ with ⟨trie₂, stored, onHeap₂⟩
        rw [containerStep, stored] at stepped
        cases stepped
        exact ⟨_, onHeap₂, bounded₁ value⟩
  | setInsert value =>
      have sized' : (keyMaker value).Sized := sized
      rcases insertNode_bounded build onHeap bounded sized' width with
        fault | ⟨place, trie₁, inserted, onHeap₁, bounded₁⟩
      · rw [containerStep, PatriciaSet.insert, fault] at stepped
        cases stepped
      · rcases PatriciaSet.insert_spec keyMaker inserted onHeap₁ with ⟨trie₂, stored, onHeap₂⟩
        rw [containerStep, stored] at stepped
        cases stepped
        exact ⟨_, onHeap₂, bounded₁ value⟩
  | remove key =>
      have sized' : key.Sized := sized
      rcases find_eq build onHeap sound sized' with
        ⟨found, _⟩ | ⟨context, a, data, children, value, rfl, found, _⟩
      · rw [containerStep, remove, found] at stepped
        cases stepped
        exact ⟨t, onHeap, bounded⟩
      · rcases removeNode_bounded build onHeap bounded with ⟨trie₁, t', removed, onHeap', bounded'⟩
        rw [containerStep, remove, found, ok_bind, if_neg (Option.some_ne_none a),
          PatriciaTrie.erase, removed] at stepped
        cases stepped
        exact ⟨t', onHeap', bounded'⟩
  | setErase value =>
      have sized' : (keyMaker value).Sized := sized
      rcases findNode_spec build onHeap sound sized' with
        ⟨found, _⟩ | ⟨context, a, data, children, rfl, found, _⟩
      · rw [containerStep, PatriciaSet.erase, found] at stepped
        cases stepped
        exact ⟨t, onHeap, bounded⟩
      · rcases removeNode_bounded build onHeap bounded with ⟨trie₁, t', removed, onHeap', bounded'⟩
        rw [containerStep, PatriciaSet.erase, found, ok_bind, if_neg (Option.some_ne_none a),
          focus_deref onHeap.represents, ok_bind] at stepped
        dsimp only at stepped
        split at stepped
        · rw [removed] at stepped
          cases stepped
          exact ⟨t', onHeap', bounded'⟩
        · cases stepped
          exact ⟨_, onHeap, bounded⟩

/-- After a completed run there is a tree on the heap. -/
theorem run_bounded (build : Build) (keyMaker : T → PatriciaKey) {ops : List (ContainerOp T)}
    (onHeap : OnHeap trie t) (bounded : t.All (Bounded n)) (fixed : FixedWidth keyMaker n ops)
    {counts : List Nat} {final : PatriciaTrie T}
    (completed : run (containerStep build keyMaker) trie ops = .ok (counts, final)) :
    ∃ t', OnHeap final t' ∧ t'.All (Bounded n) := by
  induction ops generalizing trie t counts with
  | nil =>
      cases completed
      exact ⟨t, onHeap, bounded⟩
  | cons op ops ih =>
      rcases run_cons_eq_ok_iff.mp completed with ⟨count, next, rest, stepped, ran, _⟩
      rcases List.forall_mem_cons.mp fixed with ⟨⟨sized, width⟩, fixed'⟩
      rcases containerStep_bounded build keyMaker onHeap bounded sized width stepped with
        ⟨t', onHeap', bounded'⟩
      exact ih onHeap' bounded' fixed' ran

end Steps

/-! ## A root without children -/

section Alone

variable {heap : NodeHeap T} {a : Address} {node : PatriciaNode T}

/-- The climb starts at the null parent of the root. -/
theorem advance_of_alone (live : heap.read a = some node) (childless : ∀ e, node.edges e = none)
    (atRoot : node.parent = none) (fuel : Nat) :
    advance heap (fuel + 1) (some a) = .error .nullDereference := by
  rw [advance, advanceStep, deref_eq live, ok_bind, childless, childless, if_neg (by simp),
    if_neg (by simp), advanceClimb, deref_eq live, ok_bind, atRoot]
  rfl

/-- With a value it is `++` that climbs, without one it is `begin()`. -/
theorem traverse_of_alone (build : Build) (live : heap.read a = some node)
    (childless : ∀ e, node.edges e = none) (atRoot : node.parent = none) :
    PatriciaSet.traverse build ⟨some a, heap⟩ = .error .nullDereference := by
  have alone := advance_of_alone live childless atRoot heap.size
  rw [PatriciaSet.traverse, PatriciaSet.begin, iteratorAt, if_neg (Option.some_ne_none a),
    deref_eq live, ok_bind]
  cases present : node.data.value with
  | none =>
      rw [if_neg (by simp), alone]
      rfl
  | some value =>
      rw [if_pos (by simp), pure_eq_ok, ok_bind, traverseLoop, if_neg (Option.some_ne_none a),
        iteratorValue_eq build live present, ok_bind, increment, alone]
      rfl

/-- So does a copy of the node. -/
theorem copy_of_alone (live : heap.read a = some node) (childless : ∀ e, node.edges e = none)
    (atRoot : node.parent = none) : copy heap (some a) = .error .nullDereference := by
  rcases shallowCopy_spec live with ⟨heap', copied_ok, _, _, others⟩
  have still := (others a (Heap.lt_size_of_read live).ne).trans live
  rw [copy, copied_ok, ok_bind]
  dsimp only
  rw [copyLoop, copyStep, deref_eq still, ok_bind, childless, childless, if_neg (by simp),
    if_neg (by simp), copyClimb, deref_eq still, ok_bind, atRoot]
  rfl

end Alone

/-! ## The condition -/

theorem copyAssign_eq (target trie : PatriciaTrie T) {t : LinkedTree (NodeData T)}
    (onHeap : OnHeap target t) : target.copyAssign trie = trie.copyConstruct := by
  rw [copyAssign, onHeap.root_eq]
  cases t with
  | empty => exact if_neg (by simp)
  | node a data children =>
      rcases deleteSelf_spec onHeap.represents onHeap.distinct with ⟨heap', deleted, _⟩
      rw [LinkedTree.address_node, if_pos (Option.some_ne_none a), deleted]
      rfl

/-- On a tree on the heap, exactly the roots with a child are safe. -/
theorem walksNullSafe_iff (build : Build) {trie : PatriciaTrie T} {t : LinkedTree (NodeData T)}
    (onHeap : OnHeap trie t) : WalksNullSafe build trie ↔ RootHasChild trie := by
  rcases trie with ⟨root, heap⟩
  have root_eq : root = t.address := onHeap.root_eq
  subst root_eq
  cases t with
  | empty =>
      constructor
      · intro safe
        exact absurd rfl safe.construct
      · rintro ⟨node, impossible, _⟩
        cases impossible
  | node a data children =>
      have live : heap.read a = some ⟨data, fun e => (children e).address, none⟩ :=
        onHeap.represents.1
      by_cases child : ∃ e, children e ≠ .empty
      · constructor
        · intro _
          rcases child with ⟨e, nonempty⟩
          exact ⟨_, live, e, fun noEdge => nonempty (LinkedTree.address_eq_none_iff.mp noEdge)⟩
        · intro _
          have bearing : RootBearing (.node a data children) := by
            rintro _ _ _ ⟨rfl, rfl, rfl⟩
            exact child
          have walked := PatriciaSet.traverse_spec build onHeap bearing
          rcases copy_faithful onHeap.represents onHeap.distinct child with
            ⟨heap', t', copied_ok, _⟩
          have constructed : copyConstruct ⟨some a, heap⟩ = .ok ⟨t'.address, heap'⟩ := by
            rw [copyConstruct, copied_ok]
            rfl
          refine ⟨?_, ?_, fun target t'' onHeap'' => ?_⟩
          · rw [NullSafe, walked]
            exact fun impossible => by cases impossible
          · rw [NullSafe, LinkedTree.address_node, constructed]
            exact fun impossible => by cases impossible
          · rw [NullSafe, copyAssign_eq target _ onHeap'', LinkedTree.address_node, constructed]
            exact fun impossible => by cases impossible
      · have childless : ∀ e, (children e).address = none := by
          intro e
          rw [LinkedTree.address_eq_none_iff]
          by_contra nonempty
          exact child ⟨e, nonempty⟩
        constructor
        · intro safe
          exact absurd (traverse_of_alone build live childless rfl) safe.walk
        · rintro ⟨node, live', e, edge⟩
          have same : some (⟨data, fun e => (children e).address, none⟩ : PatriciaNode T) =
            some node := live.symm.trans live'
          cases same
          exact absurd (childless e) edge

/-- After any completed run of insertions and removals of keys of one width, walking
and copying the container is safe exactly if its root has a child. -/
theorem run_walksNullSafe_iff (build : Build) (keyMaker : T → PatriciaKey) (n : Nat)
    (ops : List (ContainerOp T)) (fixed : FixedWidth keyMaker n ops) {counts : List Nat}
    {final : PatriciaTrie T}
    (completed : run (containerStep build keyMaker) PatriciaTrie.empty ops = .ok (counts, final)) :
    WalksNullSafe build final ↔ RootHasChild final := by
  rcases run_bounded build keyMaker onHeap_empty trivial fixed completed with ⟨t, onHeap, _⟩
  exact walksNullSafe_iff build onHeap

/-- Two values below the first root, one by its key. -/
abbrev twoValues : List (ContainerOp (BitVec 8)) :=
  [.setInsert 0x00, .insert ⟨[0x80], 8⟩ 0x80]

theorem run_walksNullSafe_iff_of_twoValues :
    ∃ counts final, run (containerStep .debug (KeyMaker.unsigned 1 (by decide)).make)
        PatriciaTrie.empty twoValues = .ok (counts, final) ∧ WalksNullSafe .debug final := by
  have fixed : FixedWidth (KeyMaker.unsigned 1 (by decide)).make 8 twoValues := by
    unfold FixedWidth
    decide
  have leftEdge : (run (containerStep .debug (KeyMaker.unsigned 1 (by decide)).make)
      PatriciaTrie.empty twoValues).map (fun result =>
        ((result.2.root.bind result.2.heap.read).map fun node => node.edges left).join.isSome) =
      .ok true := by
    decide +kernel
  rcases completed : run (containerStep .debug (KeyMaker.unsigned 1 (by decide)).make)
    PatriciaTrie.empty twoValues with fault | ⟨counts, final⟩
  · rw [completed] at leftEdge
    cases leftEdge
  · refine ⟨counts, final, rfl, ?_⟩
    apply (run_walksNullSafe_iff .debug (KeyMaker.unsigned 1 (by decide)).make 8 twoValues fixed
      completed).mpr
    rw [completed] at leftEdge
    have isSome : ((final.root.bind final.heap.read).map fun node => node.edges left).join.isSome :=
      Except.ok.inj leftEdge
    cases live : final.root.bind final.heap.read with
    | none =>
        rw [live] at isSome
        cases isSome
    | some node =>
        rw [live] at isSome
        exact ⟨node, live, left, Option.isSome_iff_ne_none.mp isSome⟩

/-- A value that is erased again leaves a root with neither a value nor a child. -/
abbrev emptied : List (ContainerOp (BitVec 8)) :=
  [.setInsert 0x41, .setErase 0x41]

theorem not_walksNullSafe_of_emptied :
    FixedWidth (KeyMaker.unsigned 1 (by decide)).make 8 emptied ∧
      ∃ counts final, run (containerStep .debug (KeyMaker.unsigned 1 (by decide)).make)
          PatriciaTrie.empty emptied = .ok (counts, final) ∧ ¬ WalksNullSafe .debug final := by
  constructor
  · unfold FixedWidth
    decide
  · exact ⟨_, _, rfl, fun safe => safe.walk rfl⟩

end SkAsync.Patricia

import SkAsync.Patricia.NullSafety
import SkAsync.Patricia.PrefixMatch

/-!
# Post-increment

Each of the three iterators has an `operator++(int)` of its own.  The iterator of a
map advances the copy that it returns and stays where it is, so the loop that reads
`*it++` never gets to `end()`.  The other two leave the copy behind, and their loop
reads what the loop with `++it` reads, as long as there is a node below the root to
climb from.
-/

namespace SkAsync.Patricia

open SkAsync.Library PatriciaTrie

variable {T : Type}

/-! ## The operators -/

/-- `operator++(int)` of a trie's iterator: what it returns, and where it is then. -/
def PatriciaTrie.postIncrement (heap : NodeHeap T) (current : NodePtr) :
    Except Fault (NodePtr × NodePtr) := do
  let ret := current
  let current ← increment heap current
  pure (ret, current)

/-- `operator++(int)` of a set's iterator. -/
def PatriciaSet.postIncrement (heap : NodeHeap T) (current : NodePtr) :
    Except Fault (NodePtr × NodePtr) := do
  let ret := current
  let current ← increment heap current
  pure (ret, current)

/-- `patricia_map`: a trie whose values are pairs, under the keys of their first parts. -/
abbrev PatriciaMap (K V : Type) := PatriciaTrie (K × V)

/-- `insert` of a map. -/
def PatriciaMap.insert {K V : Type} (build : Build) (keyMaker : K → PatriciaKey)
    (map : PatriciaMap K V) (value : K × V) :
    Except Fault ((NodePtr × Bool) × PatriciaMap K V) :=
  PatriciaSet.insert build (fun value => keyMaker value.1) map value

/-- `operator++(int)` of a map's iterator: it is the copy that advances. -/
def PatriciaMap.postIncrement {K V : Type} (heap : NodeHeap (K × V)) (current : NodePtr) :
    Except Fault (NodePtr × NodePtr) := do
  let ret := current
  let ret ← increment heap ret
  pure (ret, current)

/-! ## The loop -/

/-- `while (it != end())`, with the values `*it++`. -/
def traversePostLoop (build : Build) (heap : NodeHeap T)
    (postIncrement : NodePtr → Except Fault (NodePtr × NodePtr)) :
    (fuel : Nat) → NodePtr → Except Fault (List T)
  | 0, _ => .error .diverged
  | fuel + 1, it =>
      if it = none then pure []
      else do
        let (ret, it) ← postIncrement it
        let value ← iteratorValue build heap ret
        let rest ← traversePostLoop build heap postIncrement fuel it
        pure (value :: rest)

/-- The loop from `begin()` on. -/
def traversePost (build : Build)
    (postIncrement : NodeHeap T → NodePtr → Except Fault (NodePtr × NodePtr)) (fuel : Nat)
    (trie : PatriciaTrie T) : Except Fault (List T) := do
  let it ← PatriciaSet.begin trie
  traversePostLoop build trie.heap (postIncrement trie.heap) fuel it

/-- The loop ends, with the values that the loop with `++it` yields. -/
def ReadsTheSame (build : Build)
    (postIncrement : NodeHeap T → NodePtr → Except Fault (NodePtr × NodePtr))
    (trie : PatriciaTrie T) : Prop :=
  ∃ fuel visited, PatriciaSet.traverse build trie = .ok visited ∧
    traversePost build postIncrement fuel trie = .ok visited

section Loop

variable {build : Build} {heap : NodeHeap T}
  {postIncrement : NodePtr → Except Fault (NodePtr × NodePtr)}

/-- If the copy is left behind, the loop yields what the loop with `++it` yields:
only the order of `++` and `*` is another. -/
theorem traversePostLoop_eq_ok_iff
    (leavesBehind : ∀ it, postIncrement it = increment heap it >>= fun next => pure (it, next))
    {fuel : Nat} {it : NodePtr} {visited : List T} :
    traversePostLoop build heap postIncrement fuel it = .ok visited ↔
      traverseLoop build heap fuel it = .ok visited := by
  induction fuel generalizing it visited with
  | zero => exact Iff.rfl
  | succ fuel ih =>
      rw [traversePostLoop, traverseLoop]
      by_cases atEnd : it = none
      · rw [if_pos atEnd, if_pos atEnd]
      · rw [if_neg atEnd, if_neg atEnd, leavesBehind]
        constructor
        · intro ended
          rcases bind_eq_ok_iff.mp ended with ⟨⟨ret, at_⟩, posted, read⟩
          rcases bind_eq_ok_iff.mp posted with ⟨next, advanced, same⟩
          cases same
          rcases bind_eq_ok_iff.mp read with ⟨value, value_eq, later⟩
          rcases bind_eq_ok_iff.mp later with ⟨rest, rest_eq, whole⟩
          rw [value_eq, ok_bind, advanced, ok_bind, ih.mp rest_eq, ok_bind]
          exact whole
        · intro ended
          rcases bind_eq_ok_iff.mp ended with ⟨value, value_eq, later⟩
          rcases bind_eq_ok_iff.mp later with ⟨next, advanced, read⟩
          rcases bind_eq_ok_iff.mp read with ⟨rest, rest_eq, whole⟩
          rw [advanced, ok_bind, pure_eq_ok, ok_bind]
          dsimp only
          rw [value_eq, ok_bind, ih.mpr rest_eq, ok_bind]
          exact whole

/-- If the iterator stays where it is, the loop does not end. -/
theorem traversePostLoop_ne_ok
    (stays : ∀ it ret next, postIncrement it = .ok (ret, next) → next = it) {fuel : Nat}
    {it : NodePtr} (notAtEnd : it ≠ none) (visited : List T) :
    traversePostLoop build heap postIncrement fuel it ≠ .ok visited := by
  induction fuel generalizing visited with
  | zero => exact fun impossible => by cases impossible
  | succ fuel ih =>
      intro ended
      rw [traversePostLoop, if_neg notAtEnd] at ended
      rcases bind_eq_ok_iff.mp ended with ⟨⟨ret, next⟩, posted, read⟩
      rcases bind_eq_ok_iff.mp read with ⟨value, _, later⟩
      rcases bind_eq_ok_iff.mp later with ⟨rest, rest_eq, _⟩
      rw [stays it ret next posted] at rest_eq
      exact ih rest rest_eq

theorem PatriciaMap.postIncrement_stays {K V : Type} (heap : NodeHeap (K × V))
    (it ret next : NodePtr) (posted : PatriciaMap.postIncrement heap it = .ok (ret, next)) :
    next = it := by
  rcases bind_eq_ok_iff.mp posted with ⟨copied, _, same⟩
  cases same
  rfl

end Loop

/-! ## The containers -/

/-- The three containers, each with the arguments of its `insert`s. -/
inductive Inserts (K T : Type)
  | trie (entries : List (Entry T))
  | set (keyMaker : K → PatriciaKey) (values : List K)
  | map (keyMaker : K → PatriciaKey) (values : List (K × T))

namespace Inserts

variable {K : Type}

/-- The inserted keys. -/
def keys : Inserts K T → List PatriciaKey
  | .trie entries => entries.map Entry.key
  | .set keyMaker values => values.map keyMaker
  | .map keyMaker values => values.map fun value => keyMaker value.1

def isMap : Inserts K T → Bool
  | .trie _ => false
  | .set _ _ => false
  | .map _ _ => true

end Inserts

/-- An insertion into a map, with whether the key was new. -/
def mapInsertStep {K V : Type} (build : Build) (keyMaker : K → PatriciaKey)
    (map : PatriciaMap K V) (value : K × V) : Except Fault (Bool × PatriciaMap K V) := do
  let (result, map) ← PatriciaMap.insert build keyMaker map value
  pure (result.2, map)

/-- The insertions complete, and both loops through the container read the same. -/
def PostIncrementAgrees {K : Type} (build : Build) : Inserts K T → Prop
  | .trie entries => ∃ outs trie,
      run (insertStep build) PatriciaTrie.empty entries = .ok (outs, trie) ∧
      ReadsTheSame build PatriciaTrie.postIncrement trie
  | .set keyMaker values => ∃ outs set,
      run (setInsertStep build keyMaker) PatriciaTrie.empty values = .ok (outs, set) ∧
      ReadsTheSame build PatriciaSet.postIncrement set
  | .map keyMaker values => ∃ outs map,
      run (mapInsertStep build keyMaker) PatriciaTrie.empty values = .ok (outs, map) ∧
      ReadsTheSame build PatriciaMap.postIncrement map

/-! ## Keys of one width -/

/-- A value is stored at the node of its key. -/
def StoresByKey {ω ο : Type} (build : Build) (keyOf : ω → PatriciaKey)
    (step : PatriciaTrie T → ω → Except Fault (ο × PatriciaTrie T)) : Prop :=
  ∀ (trie trie' : PatriciaTrie T) (op : ω) (place : Place T),
    insertNode build trie (keyOf op) = .ok (some place.address, trie') →
    OnHeap trie' place.tree →
    ∃ value out trie'', step trie op = .ok (out, trie'') ∧ OnHeap trie'' (place.store value)

theorem insertStep_storesByKey (build : Build) :
    StoresByKey build Entry.key (insertStep (T := T) build) := by
  intro trie trie' entry place inserted onHeap
  rcases insert_spec entry.value inserted onHeap with ⟨trie'', stepped, onHeap'⟩
  exact ⟨entry.value, _, trie'', stepped, onHeap'⟩

theorem setInsertStep_storesByKey (build : Build) (keyMaker : T → PatriciaKey) :
    StoresByKey build keyMaker (setInsertStep build keyMaker) := by
  intro set set' value place inserted onHeap
  rcases PatriciaSet.insert_spec keyMaker inserted onHeap with ⟨set'', stepped, onHeap'⟩
  refine ⟨value, place.data.value.isNone, set'', ?_, onHeap'⟩
  rw [setInsertStep, stepped]
  rfl

theorem mapInsertStep_storesByKey {K V : Type} (build : Build) (keyMaker : K → PatriciaKey) :
    StoresByKey build (fun value : K × V => keyMaker value.1) (mapInsertStep build keyMaker) :=
  setInsertStep_storesByKey build fun value : K × V => keyMaker value.1

/-- A trie that has grown by keys of `n` bits. -/
def Uniform (n : Nat) (trie : PatriciaTrie T) (t : LinkedTree (NodeData T)) : Prop :=
  ∃ keys, Grown keys trie t ∧ ∀ key ∈ keys, key.bits = n

theorem uniform_empty (n : Nat) : Uniform n (PatriciaTrie.empty : PatriciaTrie T) .empty :=
  ⟨[], grown_empty, by simp⟩

namespace Uniform

variable {n : Nat} {trie : PatriciaTrie T} {t : LinkedTree (NodeData T)}

/-- An insertion leaves such a trie, and it has a node. -/
theorem insert {ω ο : Type} {build : Build} {keyOf : ω → PatriciaKey}
    {step : PatriciaTrie T → ω → Except Fault (ο × PatriciaTrie T)}
    (stores : StoresByKey build keyOf step) (uniform : Uniform n trie t) (op : ω)
    (sized : (keyOf op).Sized) (width : (keyOf op).bits = n) :
    ∃ out trie' t', step trie op = .ok (out, trie') ∧ Uniform n trie' t' ∧ t' ≠ .empty := by
  rcases uniform with ⟨keys, grown, same⟩
  rcases grown.insertNode build (keyOf op) sized with ⟨place, trie', inserted, onHeap, grows⟩
  rcases stores trie trie' op place inserted onHeap with ⟨value, out, trie'', stepped, onHeap'⟩
  refine ⟨out, trie'', _, stepped, ⟨keyOf op :: keys, grows value trie'' onHeap', ?_⟩, ?_⟩
  · exact List.forall_mem_cons.mpr ⟨width, same⟩
  · exact plug_ne_empty place.context fun impossible => by cases impossible

/-- The same for a sequence of insertions. -/
theorem run {ω ο : Type} {build : Build} {keyOf : ω → PatriciaKey}
    {step : PatriciaTrie T → ω → Except Fault (ο × PatriciaTrie T)}
    (stores : StoresByKey build keyOf step) (uniform : Uniform n trie t) {ops : List ω}
    (fixed : ∀ key ∈ ops.map keyOf, key.Sized ∧ key.bits = n) (used : t = .empty → ops ≠ []) :
    ∃ outs final t', Library.run step trie ops = .ok (outs, final) ∧ Uniform n final t' ∧
      t' ≠ .empty := by
  induction ops generalizing trie t with
  | nil => exact ⟨[], trie, t, rfl, uniform, fun unused => used unused rfl⟩
  | cons op ops ih =>
      rcases List.forall_mem_cons.mp fixed with ⟨⟨sized, width⟩, fixed'⟩
      rcases uniform.insert stores op sized width with ⟨out, trie', t', stepped, uniform', nonempty⟩
      rcases ih uniform' fixed' fun unused => absurd unused nonempty with
        ⟨outs, final, t'', ran, uniform'', nonempty'⟩
      exact ⟨out :: outs, final, t'', run_cons_eq_ok_iff.mpr ⟨out, trie', outs, stepped, ran, rfl⟩,
        uniform'', nonempty'⟩

/-- A value is at the last bit. -/
theorem bit_eq (uniform : Uniform n trie t) :
    t.All fun data => data.value.isSome → data.bit = n := by
  rcases uniform with ⟨keys, grown, same⟩
  apply grown.stored.imp
  intro data stored hasValue
  rcases stored.bit_of_value hasValue with ⟨key, known, bits_eq⟩
  rw [← bits_eq, same key known]

/-- Behind the bit 0 of the root, a value is below the root. -/
theorem rootBearing (uniform : Uniform n trie t) (positive : 0 < n) : RootBearing t := by
  rintro a data children rfl
  have bit_eq := uniform.bit_eq.1
  rcases uniform with ⟨keys, grown, _⟩
  have root_bit := grown.root_bit data.bit rfl
  apply grown.bearing.1
  by_contra present
  have hasValue : data.value.isSome := Option.isSome_iff_ne_none.mpr present
  exact absurd (root_bit.symm.trans (bit_eq hasValue)) positive.ne

end Uniform

/-- Somewhere in a tree there is a value, if the nodes without one have children. -/
theorem Bearing.exists_value {t : LinkedTree (NodeData T)} (bearing : Bearing t)
    (nonempty : t ≠ .empty) : ∃ entry ∈ t.preorder, entry.2.value.isSome := by
  induction t with
  | empty => exact absurd rfl nonempty
  | node a data children ih =>
      rw [LinkedTree.preorder_node]
      cases present : data.value with
      | some value => exact ⟨(a, data), List.mem_cons_self, by rw [present]; rfl⟩
      | none =>
          rcases bearing.1 present with ⟨e, child⟩
          rcases ih e (bearing.2 e) child with ⟨entry, inside, hasValue⟩
          refine ⟨entry, List.mem_cons_of_mem _ (List.mem_append.mpr ?_), hasValue⟩
          cases e with
          | false => exact Or.inl inside
          | true => exact Or.inr inside

namespace Uniform

variable {n : Nat} {trie : PatriciaTrie T} {t : LinkedTree (NodeData T)}

/-- All keys are at the root, if they have no bits. -/
theorem childless {a : Address} {data : NodeData T} {children : Bool → LinkedTree (NodeData T)}
    (uniform : Uniform 0 trie (.node a data children)) (e : Bool) : children e = .empty := by
  have bit_eq := uniform.bit_eq.2 e
  rcases uniform with ⟨keys, grown, _⟩
  have behind := (grown.ordered.2 e).all
  by_contra child
  rcases (grown.bearing.2 e).exists_value child with ⟨entry, inside, hasValue⟩
  have bit_pos := behind.mem_preorder inside
  rw [bit_eq.mem_preorder inside hasValue] at bit_pos
  exact absurd bit_pos (Nat.not_succ_le_zero _)

/-- A root that is alone has nothing to climb to. -/
theorem traverse_of_no_bits (build : Build) (uniform : Uniform 0 trie t) (nonempty : t ≠ .empty) :
    PatriciaSet.traverse build trie = .error .nullDereference := by
  cases t with
  | empty => exact absurd rfl nonempty
  | node a data children =>
      have noChild := uniform.childless
      rcases uniform with ⟨keys, grown, _⟩
      rcases trie with ⟨root, heap⟩
      have root_eq : root = some a := grown.onHeap.root_eq
      have live : heap.read a = some ⟨data, fun e => (children e).address, none⟩ :=
        grown.onHeap.represents.1
      rw [root_eq]
      refine traverse_of_alone build live (fun e => ?_) rfl
      exact LinkedTree.address_eq_none_iff.mpr (noChild e)

/-- `begin()` is not `end()`. -/
theorem begin_eq (uniform : Uniform n trie t) (nonempty : t ≠ .empty) :
    ∃ it, PatriciaSet.begin trie = .ok it ∧ it ≠ none := by
  rcases uniform with ⟨keys, grown, _⟩
  rcases grown.bearing.exists_value nonempty with ⟨entry, inside, hasValue⟩
  refine ⟨nextValued t.preorder, ?_, ?_⟩
  · apply PatriciaSet.begin_spec grown.onHeap
    rintro a data children rfl absent
    exact grown.bearing.1 absent
  · rw [nextValued, ne_eq, Option.map_eq_none_iff, List.find?_eq_none]
    exact fun noValue => noValue entry inside hasValue

end Uniform

/-! ## The condition -/

section Final

variable {n : Nat} {t : LinkedTree (NodeData T)}

/-- Where the copy is left behind, it takes a key with a bit for both loops to end. -/
theorem Uniform.readsTheSame_iff {build : Build} {trie : PatriciaTrie T}
    {postIncrement : NodeHeap T → NodePtr → Except Fault (NodePtr × NodePtr)}
    (uniform : Uniform n trie t) (nonempty : t ≠ .empty)
    (leavesBehind : ∀ it,
      postIncrement trie.heap it = increment trie.heap it >>= fun next => pure (it, next)) :
    ReadsTheSame build postIncrement trie ↔ 0 < n := by
  have onHeap : OnHeap trie t := by
    rcases uniform with ⟨_, grown, _⟩
    exact grown.onHeap
  constructor
  · rintro ⟨fuel, visited, traversed, _⟩
    by_contra noBits
    have noWidth : n = 0 := Nat.eq_zero_of_not_pos noBits
    subst noWidth
    rw [uniform.traverse_of_no_bits build nonempty] at traversed
    cases traversed
  · intro positive
    have walked := PatriciaSet.traverse_spec build onHeap (uniform.rootBearing positive)
    refine ⟨trie.heap.size + 1, _, walked, ?_⟩
    rw [PatriciaSet.traverse] at walked
    rcases bind_eq_ok_iff.mp walked with ⟨it, started, ended⟩
    rw [traversePost, started, ok_bind]
    exact (traversePostLoop_eq_ok_iff leavesBehind).mpr ended

/-- The same for the outcome of a run. -/
theorem run_readsTheSame_iff {ω ο : Type} {build : Build} {keyOf : ω → PatriciaKey}
    {step : PatriciaTrie T → ω → Except Fault (ο × PatriciaTrie T)}
    (stores : StoresByKey build keyOf step) {ops : List ω} (used : ops ≠ [])
    (fixed : ∀ key ∈ ops.map keyOf, key.Sized ∧ key.bits = n)
    (postIncrement : NodeHeap T → NodePtr → Except Fault (NodePtr × NodePtr))
    (leavesBehind : ∀ heap it,
      postIncrement heap it = increment heap it >>= fun next => pure (it, next)) :
    (∃ outs final, run step PatriciaTrie.empty ops = .ok (outs, final) ∧
      ReadsTheSame build postIncrement final) ↔ 0 < n := by
  rcases (uniform_empty n).run stores fixed (fun _ => used) with
    ⟨outs, final, t, ran, uniform, nonempty⟩
  rw [exists_run_iff ran]
  exact uniform.readsTheSame_iff nonempty (leavesBehind final.heap)

/-- The loop through a map does not end. -/
theorem Uniform.not_readsTheSame {K V : Type} {build : Build} {map : PatriciaMap K V}
    {t : LinkedTree (NodeData (K × V))} (uniform : Uniform n map t) (nonempty : t ≠ .empty) :
    ¬ ReadsTheSame build PatriciaMap.postIncrement map := by
  rintro ⟨fuel, visited, _, ended⟩
  rcases uniform.begin_eq nonempty with ⟨it, started, notAtEnd⟩
  rw [traversePost, started, ok_bind] at ended
  exact traversePostLoop_ne_ok (PatriciaMap.postIncrement_stays map.heap) notAtEnd visited ended

end Final

/-- After an insertion into a map, the loop with `*it++` does not end. -/
theorem not_agrees_of_map {K : Type} (build : Build) {keyMaker : K → PatriciaKey}
    {values : List (K × T)} {n : Nat} (used : values ≠ [])
    (fixed : ∀ key ∈ values.map fun value => keyMaker value.1, key.Sized ∧ key.bits = n) :
    ¬ PostIncrementAgrees build (.map keyMaker values) := by
  rcases (uniform_empty n).run (mapInsertStep_storesByKey build keyMaker) fixed (fun _ => used) with
    ⟨outs, final, t, ran, uniform, nonempty⟩
  rw [PostIncrementAgrees, exists_run_iff ran]
  exact uniform.not_readsTheSame nonempty

/-- After any insertions of keys of one width, at least one of them, both loops
through the container read the same exactly if it is not a map and the keys are
not empty. -/
theorem postIncrementAgrees_iff {K : Type} (build : Build) (inserts : Inserts K T)
    (used : inserts.keys ≠ []) (n : Nat)
    (fixed : ∀ key ∈ inserts.keys, key.Sized ∧ key.bits = n) :
    PostIncrementAgrees build inserts ↔ inserts.isMap = false ∧ 0 < n := by
  cases inserts with
  | trie entries =>
      have agrees := run_readsTheSame_iff (insertStep_storesByKey build)
        (fun noEntries => used (by rw [noEntries]; rfl)) fixed
        PatriciaTrie.postIncrement fun _ _ => rfl
      rw [PostIncrementAgrees, agrees]
      simp [Inserts.isMap]
  | set keyMaker values =>
      have agrees := run_readsTheSame_iff (setInsertStep_storesByKey build keyMaker)
        (fun noValues => used (by rw [noValues]; rfl)) fixed
        PatriciaSet.postIncrement fun _ _ => rfl
      rw [PostIncrementAgrees, agrees]
      simp [Inserts.isMap]
  | map keyMaker values =>
      refine iff_of_false (not_agrees_of_map build ?_ fixed) ?_
      · rintro rfl
        exact used rfl
      · simp [Inserts.isMap]

/-- The numbers 42 and 666 in a set. -/
theorem postIncrementAgrees_iff_of_two_numbers :
    PostIncrementAgrees .debug (.set (T := Unit) (KeyMaker.signed 4 (by decide)).make [42, 666]) :=
  (postIncrementAgrees_iff .debug (.set (KeyMaker.signed 4 (by decide)).make [42, 666])
    (by simp [Inserts.keys]) 32 (by decide)).mpr (by decide)

/-- The same numbers as the keys of a map: `*it++` is the second pair, again and again. -/
theorem not_postIncrementAgrees_of_map :
    ¬ PostIncrementAgrees .debug (.map (KeyMaker.signed 4 (by decide)).make [(42, 1), (666, 2)]) :=
  not_agrees_of_map .debug (n := 32) (by simp) (by decide)

end SkAsync.Patricia

import SkAsync.Library.Execution
import SkAsync.Patricia.Find
import SkAsync.Patricia.Graft

/-!
# Inserting keys of mixed lengths

Without removals, a trie keeps the first value of every key as long as no new
key is inserted above a node that has no key of its own, unless that node
belongs on the left edge.  This can be said of the inserted keys alone:
`Harmless`.
-/

namespace SkAsync.Patricia

open SkAsync.Library PatriciaTrie

variable {T : Type}

/-- An argument of `insert`: a key with enough bytes for its bits, and a value. -/
structure Entry (T : Type) where
  key : PatriciaKey
  value : T
  sized : key.Sized

def insertStep (build : Build) (trie : PatriciaTrie T) (entry : Entry T) :
    Except Fault (Bool × PatriciaTrie T) :=
  insert build trie entry.key entry.value

/-- What an insertion is for: the first value of a bit string is kept. -/
def KeepsFirst (values : List Bool → Option T) (entry : Entry T) (out : Bool)
    (values' : List Bool → Option T) : Prop :=
  out = (values entry.key.content).isNone ∧
    values' = fun q => if q = entry.key.content then (values q).or (some entry.value) else values q

/-- After a run on an empty trie, every insertion has told whether its key was
new, and `find` yields for every key the value that was inserted first. -/
def InsertsCorrectly (build : Build) (entries : List (Entry T)) : Prop :=
  ∃ outs final values, run (insertStep build) PatriciaTrie.empty entries = .ok (outs, final) ∧
    Trace KeepsFirst (fun _ => none) entries outs values ∧
    ∀ key : PatriciaKey, key.Sized → ∃ it, find build final key = .ok it ∧
      (values key.content = none → it = none) ∧
      ∀ value, values key.content = some value →
        iteratorValue build final.heap it = .ok value

/-- A bit string that can be inserted among others: it is there already, or it is
empty, or the others that extend it all go on with 0, or they all extend one of
them that goes on with 1. -/
def Harmless (stored : List (List Bool)) (k : List Bool) : Prop :=
  k ∈ stored ∨ k = [] ∨ (∀ p ∈ stored, k <+: p → k ++ [false] <+: p) ∨
    ∃ first ∈ stored, k ++ [true] <+: first ∧ ∀ p ∈ stored, k <+: p → first <+: p

instance (stored : List (List Bool)) (k : List Bool) : Decidable (Harmless stored k) :=
  inferInstanceAs (Decidable (_ ∨ _ ∨ _ ∨ _))

/-- Every insertion of the sequence is harmless after those before it. -/
def AllHarmless : (stored : List (List Bool)) → List (Entry T) → Prop
  | _, [] => True
  | stored, entry :: entries =>
      Harmless stored entry.key.content ∧ AllHarmless (entry.key.content :: stored) entries

instance decidableAllHarmless : (stored : List (List Bool)) → (entries : List (Entry T)) →
    Decidable (AllHarmless stored entries)
  | _, [] => isTrue trivial
  | stored, entry :: entries =>
      have := decidableAllHarmless (entry.key.content :: stored) entries
      inferInstanceAs (Decidable (_ ∧ _))

/-- A trie that was made by harmless insertions. -/
structure MixedTrie (trie : PatriciaTrie T) (stored : List (List Bool))
    (values : List Bool → Option T) (t : LinkedTree (NodeData T)) : Prop where
  onHeap : OnHeap trie t
  wellFormed : WellFormed [] t
  branching : RootBranching (· ≠ 0) t
  root_bit : ∀ bit ∈ rootBit t, bit = 0
  no_key : t.All fun data => data.value = none → data.key = .empty
  lookup_eq : ∀ q, lookup t q = values q
  stored_iff : ∀ q, q ∈ stored ↔ (values q).isSome

theorem mixedTrie_empty :
    MixedTrie (PatriciaTrie.empty : PatriciaTrie T) [] (fun _ => none) .empty := by
  refine ⟨onHeap_empty, trivial, trivial, ?_, trivial, fun _ => rfl, fun _ => by simp⟩
  intro bit impossible
  cases impossible

namespace MixedTrie

variable {trie : PatriciaTrie T} {stored : List (List Bool)} {values : List Bool → Option T}
  {t : LinkedTree (NodeData T)}

theorem rootBit_rooted (mixed : MixedTrie trie stored values t) (root : Address) :
    rootBit (rooted root t) = some 0 := by
  cases t with
  | empty => rfl
  | node a data children => exact congrArg some (mixed.root_bit data.bit rfl)

theorem noKey_rooted (mixed : MixedTrie trie stored values t) (root : Address) :
    (rooted root t).All fun data => data.value = none → data.key = .empty := by
  cases t with
  | empty => exact ⟨fun _ => rfl, fun _ => trivial⟩
  | node a data children => exact mixed.no_key

/-- Only the root has an empty label. -/
theorem label_of_root (mixed : MixedTrie trie stored values t) {root a : Address}
    {data : NodeData T} {children : Bool → LinkedTree (NodeData T)} {lower label : List Bool}
    (focus : Focus (rooted root t) [] a data children lower label) : label = [] := by
  have bit_eq := mixed.rootBit_rooted root
  rw [← focus.tree_eq, plug_nil, rootBit, Option.some.injEq] at bit_eq
  rw [← List.length_eq_zero_iff, focus.labelled.length_eq, bit_eq]

/-- A harmless key is inserted correctly. -/
theorem admits (mixed : MixedTrie trie stored values t) {key : PatriciaKey} (sized : key.Sized)
    (harmless : Harmless stored key.content) (root : Address) : Admits (rooted root t) key := by
  have length_key := sized.length_content
  have branching := rooted_branching root mixed.branching
  have present : ∀ q, q ∈ stored ↔ (lookup (rooted root t) q).isSome := by
    intro q
    rw [mixed.stored_iff, lookup_rooted, mixed.lookup_eq]
  refine ⟨?_, ?_, ?_, ?_⟩
  · intro a data children tree_eq _ notZero
    have bit_eq := mixed.rootBit_rooted root
    rw [tree_eq, rootBit, Option.some.injEq] at bit_eq
    exact absurd bit_eq notZero
  · intro a data children lower label focus
    rw [mixed.label_of_root focus]
    exact List.nil_prefix
  · intro context a data children lower label focus reaches noValue label_eq
    subst label_eq
    by_cases belowRoot : context = []
    · subst belowRoot
      exact mixed.label_of_root focus
    · rcases focus.exists_below branching belowRoot noValue false with ⟨p, p_prefix, p_found⟩
      rcases focus.exists_below branching belowRoot noValue true with ⟨p', p'_prefix, p'_found⟩
      have clash : ∀ q, key.content ++ [true] <+: q → ¬ key.content ++ [false] <+: q := by
        intro q goesRight goesLeft
        rw [append_singleton_prefix_iff] at goesRight goesLeft
        rw [goesRight.2.2] at goesLeft
        cases goesLeft.2.2
      rcases harmless with known | empty | allLeft | ⟨first, known, goesRight, least⟩
      · have found := (present _).mp known
        rw [focus.lookup_label noValue] at found
        cases found
      · exact empty
      · have extends_ := (List.prefix_append _ _).trans p'_prefix
        exact absurd (allLeft p' ((present p').mpr p'_found) extends_) (clash p' p'_prefix)
      · have extends_ := (List.prefix_append _ _).trans p_prefix
        have goesRight' := goesRight.trans (least p ((present p).mpr p_found) extends_)
        exact absurd p_prefix (clash p goesRight')
  · intro context a data children lower label focus reaches noValue isPrefix shorter
    have belowRoot : context ≠ [] := by
      rintro rfl
      rw [mixed.label_of_root focus] at shorter
      cases shorter
    rcases focus.exists_below branching belowRoot noValue false with ⟨p, p_prefix, p_found⟩
    rcases focus.exists_below branching belowRoot noValue true with ⟨p', p'_prefix, p'_found⟩
    have label_p := (List.prefix_append _ _).trans p_prefix
    have label_p' := (List.prefix_append _ _).trans p'_prefix
    have noKey : data.key = .empty := by
      have all := mixed.noKey_rooted root
      rw [← focus.tree_eq, all_plug_iff] at all
      exact all.1.1 noValue
    have testBit_eq : data.key.testBit key.bits = false := by
      rw [noKey]
      rfl
    rw [testBit_eq, ← length_key]
    rcases harmless with known | empty | allLeft | ⟨first, known, goesRight, least⟩
    · have longer := (focus.label_isPrefix reaches ((present _).mp known)).length_le
      exact absurd shorter (Nat.not_lt_of_le longer)
    · rw [empty, List.prefix_nil] at reaches
      subst reaches
      rcases List.exists_cons_of_ne_nil belowRoot with ⟨frame, rest, rfl⟩
      rcases focus.around with ⟨outer, above, nil_eq, _⟩
      simp at nil_eq
    · have goesLeft := allLeft p ((present p).mpr p_found) (isPrefix.trans label_p)
      rw [bitAt_of_isPrefix label_p shorter]
      exact (append_singleton_prefix_iff.mp goesLeft).2.2.symm
    · have label_first := focus.label_isPrefix
        (reaches.trans ((List.prefix_append _ _).trans goesRight))
        ((present first).mp known)
      have first_p := least p ((present p).mpr p_found) (isPrefix.trans label_p)
      have first_p' := least p' ((present p').mpr p'_found) (isPrefix.trans label_p')
      -- the least key cannot be below the node, nor at it
      by_cases longer : label.length < first.length
      · have bit_false := (append_singleton_prefix_iff.mp p_prefix).2.2
        have bit_true := (append_singleton_prefix_iff.mp p'_prefix).2.2
        rw [← bitAt_of_isPrefix first_p longer] at bit_false
        rw [← bitAt_of_isPrefix first_p' longer, bit_false] at bit_true
        cases bit_true
      · have same := label_first.eq_of_length_le (Nat.le_of_not_lt longer)
        have found := (present first).mp known
        rw [← same, focus.lookup_label noValue] at found
        cases found

/-- A harmless insertion into such a trie does what it is for, and leaves such a trie. -/
theorem insert (build : Build) (mixed : MixedTrie trie stored values t) (entry : Entry T)
    (harmless : Harmless stored entry.key.content) :
    ∃ out trie' values' t', insertStep build trie entry = .ok (out, trie') ∧
      KeepsFirst values entry out values' ∧
      MixedTrie trie' (entry.key.content :: stored) values' t' := by
  rcases insertNode_inserted build mixed.onHeap mixed.wellFormed mixed.branching entry.sized
    (mixed.admits entry.sized harmless) with
    ⟨root, fresh, context, a, data, children, diffbit, place, trie', tree_eq, grafted, done,
      onHeap, inserted⟩
  rcases insert_spec entry.value done onHeap with ⟨trie'', stepped, onHeap'⟩
  have value_eq : place.data.value = values entry.key.content := by
    rw [inserted.value_eq, lookup_rooted, mixed.lookup_eq]
  have lookup_eq : ∀ q, lookup (place.store entry.value) q =
      if q = entry.key.content then (values q).or (some entry.value) else values q := by
    intro q
    rw [inserted.lookup_eq, lookup_rooted, mixed.lookup_eq]
  refine ⟨place.data.value.isNone, trie'', _, place.store entry.value, stepped,
    ⟨by rw [value_eq], rfl⟩, onHeap', inserted.wellFormed _, inserted.branching _, ?_, ?_,
    lookup_eq, ?_⟩
  · intro bit member
    rw [rootBit_store grafted, tree_eq, mixed.rootBit_rooted root] at member
    cases member
    rfl
  · apply all_store grafted
    · rw [tree_eq]
      exact mixed.noKey_rooted root
    · intro _ impossible
      simp at impossible
    · intro impossible
      cases impossible
    · exact fun _ => rfl
  · intro q
    rw [List.mem_cons, mixed.stored_iff]
    by_cases here : q = entry.key.content
    · simp [here]
    · simp [here]

/-- The same for a sequence of insertions. -/
theorem insertAll (build : Build) (mixed : MixedTrie trie stored values t)
    (entries : List (Entry T)) (harmless : AllHarmless stored entries) :
    ∃ outs final values' stored' t', run (insertStep build) trie entries = .ok (outs, final) ∧
      Trace KeepsFirst values entries outs values' ∧ MixedTrie final stored' values' t' := by
  induction entries generalizing trie stored values t with
  | nil => exact ⟨[], trie, values, stored, t, rfl, .nil values, mixed⟩
  | cons entry entries ih =>
      rcases mixed.insert build entry harmless.1 with
        ⟨out, trie', values', t', stepped, kept, mixed'⟩
      rcases ih mixed' harmless.2 with ⟨outs, final, values'', stored'', t'', ran, trace, mixed''⟩
      exact ⟨out :: outs, final, values'', stored'', t'',
        run_cons_eq_ok_iff.mpr ⟨out, trie', outs, stepped, ran, rfl⟩, .cons kept trace, mixed''⟩

end MixedTrie

/-- A sequence of harmless insertions into an empty trie is correct. -/
theorem insertsCorrectly_of_allHarmless (build : Build) (entries : List (Entry T))
    (harmless : AllHarmless [] entries) : InsertsCorrectly build entries := by
  rcases mixedTrie_empty.insertAll build entries harmless with
    ⟨outs, final, values, stored, t, ran, trace, mixed⟩
  refine ⟨outs, final, values, ran, trace, fun key sized => ?_⟩
  rcases find_spec build mixed.onHeap mixed.wellFormed.all_sound sized with
    ⟨it, found, absent, present⟩
  rw [mixed.lookup_eq] at absent present
  exact ⟨it, found, absent, present⟩

/-- The second key goes on with 0 behind the first three bits, as the first does;
the third insertion is above both, and the fourth is not the first of its key. -/
theorem insertsCorrectly_of_allHarmless_of_three_bits :
    InsertsCorrectly .debug
      [⟨⟨[0xC0], 8⟩, 1, by decide⟩, ⟨⟨[0xC8], 8⟩, 2, by decide⟩,
        ⟨⟨[0xC0], 3⟩, 3, by decide⟩, ⟨⟨[0xDF], 3⟩, 4, by decide⟩] :=
  insertsCorrectly_of_allHarmless .debug _ (by decide)

/-- Two keys that differ in the third bit, and then the two bits they share.  The
node without a key that stands for these two bits is reused, and it still has no
key afterwards. -/
abbrev sharedBits : List (Entry Nat) :=
  [⟨⟨[0xC0], 8⟩, 1, by decide⟩, ⟨⟨[0xE0], 8⟩, 2, by decide⟩, ⟨⟨[0xC0], 2⟩, 3, by decide⟩]

/-- The key that was inserted last is not found. -/
theorem not_insertsCorrectly_of_sharedBits : ¬ InsertsCorrectly .debug sharedBits := by
  rintro ⟨outs, final, values, ran, trace, found⟩
  rcases found ⟨[0xC0], 2⟩ (by decide) with ⟨it, found_eq, _, present⟩
  have lost : (run (insertStep .debug) PatriciaTrie.empty sharedBits >>= fun result =>
      find .debug result.2 ⟨[0xC0], 2⟩) = .ok none := by
    decide +kernel
  rw [ran, ok_bind, found_eq] at lost
  cases lost
  have value_eq : values (PatriciaKey.content ⟨[0xC0], 2⟩) = some 3 := by
    rcases trace with _ | ⟨first, _ | ⟨second, _ | ⟨third, _ | _⟩⟩⟩
    rw [third.2, second.2, first.2]
    decide
  have stored := present 3 value_eq
  cases stored

end SkAsync.Patricia

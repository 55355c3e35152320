import SkAsync.Patricia.MixedKeys
import Mathlib.Data.Finset.Basic

/-!
# The tree of a set of keys

A well-formed tree in which every node without a value branches is determined by
the bit strings that have a value in it: the label of a node is the longest bit
string that begins all of those below.  Insertions in another order make the
same tree, at other addresses.
-/

namespace SkAsync.Patricia

open SkAsync.Library PatriciaTrie

variable {T : Type}

/-! ## Labels -/

/-- What begins every bit string that has a value below a branching node begins
its label. -/
theorem prefix_label {a : Address} {data : NodeData T} {children : Bool → LinkedTree (NodeData T)}
    {label p : List Bool} (labelled : Labelled data label)
    (below : ∀ e, WellFormed (label ++ [e]) (children e))
    (branching : Branching (.node a data children))
    (common : ∀ q, (lookup (.node a data children) q).isSome → p <+: q) : p <+: label := by
  cases present : data.value with
  | some value =>
      apply common
      rw [lookup_node_label a children labelled, present]
      rfl
  | none =>
      have onEdge : ∀ e, ∃ q, label ++ [e] <+: q ∧ p <+: q := by
        intro e
        rcases exists_lookup (branching.1 present e) (below e) (branching.2 e) with
          ⟨q, value, found⟩
        have longer := (below e).prefix_of_lookup found
        rw [lookup_child a labelled below, if_pos longer] at found
        exact ⟨q, longer, common q (by rw [found]; rfl)⟩
      rcases onEdge false with ⟨q, goesLeft, p_q⟩
      rcases onEdge true with ⟨q', goesRight, p_q'⟩
      have label_q := (List.prefix_append label [false]).trans goesLeft
      rcases Nat.lt_or_ge label.length p.length with longer | shorter
      · have left_eq := (append_singleton_prefix_iff.mp goesLeft).2.2
        have right_eq := (append_singleton_prefix_iff.mp goesRight).2.2
        rw [← bitAt_of_isPrefix p_q longer] at left_eq
        rw [← bitAt_of_isPrefix p_q' longer, left_eq] at right_eq
        cases right_eq
      · exact List.prefix_of_prefix_length_le p_q label_q shorter

/-- Two branching nodes have the same label, if the same bit strings have values
below them. -/
theorem label_eq {a b : Address} {data data' : NodeData T}
    {children children' : Bool → LinkedTree (NodeData T)} {label label' : List Bool}
    (labelled : Labelled data label) (labelled' : Labelled data' label')
    (below : ∀ e, WellFormed (label ++ [e]) (children e))
    (below' : ∀ e, WellFormed (label' ++ [e]) (children' e))
    (branching : Branching (.node a data children))
    (branching' : Branching (.node b data' children'))
    (same : ∀ q, (lookup (.node a data children) q).isSome =
      (lookup (.node b data' children') q).isSome) : label = label' := by
  have first : label <+: label' := by
    apply prefix_label labelled' below' branching'
    intro q found
    rw [← same] at found
    rcases Option.isSome_iff_exists.mp found with ⟨value, found⟩
    exact prefix_of_lookup_node labelled below found
  have second : label' <+: label := by
    apply prefix_label labelled below branching
    intro q found
    rw [same] at found
    rcases Option.isSome_iff_exists.mp found with ⟨value, found⟩
    exact prefix_of_lookup_node labelled' below' found
  exact first.eq_of_length_le second.length_le

/-! ## Nodes and trees -/

/-- Two nodes have the same bit, the same bits in the key, and both a value or none. -/
structure SameNode (data data' : NodeData T) : Prop where
  bit_eq : data.bit = data'.bit
  bits_eq : data.key.bits = data'.key.bits
  content_eq : data.key.content = data'.key.content
  isSome_eq : data.value.isSome = data'.value.isSome

/-- A label and the presence of a value say all of this. -/
theorem Labelled.sameNode {data data' : NodeData T} {label : List Bool}
    (labelled : Labelled data label) (labelled' : Labelled data' label)
    (same : data.value.isSome = data'.value.isSome) : SameNode data data' := by
  have content_eq : data.key.content = data'.key.content := by
    cases present : data.value.isSome with
    | true =>
        rw [labelled.content_eq present, labelled'.content_eq (by rw [← same, present])]
    | false =>
        have noBits := labelled.no_key (by simpa using present)
        have noBits' := labelled'.no_key (by rw [same] at present; simpa using present)
        rw [PatriciaKey.content_of_bits_eq_zero noBits, PatriciaKey.content_of_bits_eq_zero noBits']
  refine ⟨?_, ?_, content_eq, same⟩
  · rw [← labelled.length_eq, ← labelled'.length_eq]
  · rw [← labelled.kept.length_content, ← labelled'.kept.length_content, content_eq]

/-- Nodes with the same label, below which the same bit strings have values, are
the same, if their subtrees are. -/
theorem similar_node {a b : Address} {data data' : NodeData T}
    {children children' : Bool → LinkedTree (NodeData T)} {label : List Bool}
    (labelled : Labelled data label) (labelled' : Labelled data' label)
    (below : ∀ e, WellFormed (label ++ [e]) (children e))
    (below' : ∀ e, WellFormed (label ++ [e]) (children' e))
    (same : ∀ q, (lookup (.node a data children) q).isSome =
      (lookup (.node b data' children') q).isSome)
    (subtrees : ∀ e, (∀ q, (lookup (children e) q).isSome = (lookup (children' e) q).isSome) →
      (children e).Similar SameNode (children' e)) :
    (LinkedTree.node a data children).Similar SameNode (.node b data' children') := by
  refine LinkedTree.similar_node_iff.mpr ⟨labelled.sameNode labelled' ?_, fun e => subtrees e ?_⟩
  · rw [← lookup_node_label a children labelled, ← lookup_node_label b children' labelled', same]
  · intro q
    rw [lookup_child a labelled below, lookup_child b labelled' below']
    split
    · exact same q
    · rfl

/-- Branching trees are the same if the same bit strings have values in them. -/
theorem similar_of_branching {lower lower' : List Bool} {t t' : LinkedTree (NodeData T)}
    (wellFormed : WellFormed lower t) (wellFormed' : WellFormed lower' t')
    (branching : Branching t) (branching' : Branching t')
    (same : ∀ q, (lookup t q).isSome = (lookup t' q).isSome) : t.Similar SameNode t' := by
  induction t generalizing lower lower' t' with
  | empty =>
      cases t' with
      | empty => trivial
      | node b data' children' =>
          rcases exists_lookup (fun impossible => by cases impossible) wellFormed' branching' with
            ⟨q, value, found⟩
          have impossible := same q
          rw [found] at impossible
          cases impossible
  | node a data children ih =>
      cases t' with
      | empty =>
          rcases exists_lookup (fun impossible => by cases impossible) wellFormed branching with
            ⟨q, value, found⟩
          have impossible := same q
          rw [found] at impossible
          cases impossible
      | node b data' children' =>
          rcases wellFormed with ⟨label, _, labelled, below⟩
          rcases wellFormed' with ⟨label', _, labelled', below'⟩
          have labels := label_eq labelled labelled' below below' branching branching' same
          subst labels
          exact similar_node labelled labelled' below below' same fun e =>
            ih e (below e) (below' e) (branching.2 e) (branching'.2 e)

/-! ## Insertions -/

/-- The bit strings that have a value at the end of a run are those of its keys. -/
theorem isSome_of_trace {values values' : List Bool → Option T} {entries : List (Entry T)}
    {outs : List Bool} (trace : Trace KeepsFirst values entries outs values') (q : List Bool) :
    (values' q).isSome ↔ (values q).isSome ∨ ∃ entry ∈ entries, entry.key.content = q := by
  induction trace with
  | nil values => simp
  | @cons values middle final entry out entries outs kept trace ih =>
      rw [ih, kept.2, List.exists_mem_cons_iff]
      by_cases here : q = entry.key.content
      · simp [here]
      · simp [here, Ne.symm here]

namespace MixedTrie

variable {trie trie' : PatriciaTrie T} {stored stored' : List (List Bool)}
  {values values' : List Bool → Option T} {t t' : LinkedTree (NodeData T)}

/-- Two tries with the same keys, at least one, are the same. -/
theorem similar (mixed : MixedTrie trie stored values t)
    (mixed' : MixedTrie trie' stored' values' t')
    (same : ∀ q, (values q).isSome = (values' q).isSome) (nonempty : ∃ q, (values q).isSome) :
    t.Similar SameNode t' := by
  rcases nonempty with ⟨q, found⟩
  have found' := found
  rw [same] at found'
  rw [← mixed.lookup_eq] at found
  rw [← mixed'.lookup_eq] at found'
  cases t with
  | empty => cases found
  | node a data children =>
      cases t' with
      | empty => cases found'
      | node b data' children' =>
          rcases mixed.wellFormed with ⟨label, _, labelled, below⟩
          rcases mixed'.wellFormed with ⟨label', _, labelled', below'⟩
          have root_label : label = [] := by
            rw [← List.length_eq_zero_iff, labelled.length_eq, mixed.root_bit data.bit rfl]
          have root_label' : label' = [] := by
            rw [← List.length_eq_zero_iff, labelled'.length_eq, mixed'.root_bit data'.bit rfl]
          subst root_label root_label'
          apply similar_node labelled labelled' below below'
          · intro q
            rw [mixed.lookup_eq, mixed'.lookup_eq, same]
          · intro e subtrees
            exact similar_of_branching (below e) (below' e) (mixed.branching.2 e)
              (mixed'.branching.2 e) subtrees

end MixedTrie

/-- Two tries are the same trees of nodes, at whatever addresses. -/
def SameTrie (trie trie' : PatriciaTrie T) : Prop :=
  ∃ t t', OnHeap trie t ∧ OnHeap trie' t' ∧ t.Similar SameNode t'

/-- Harmless insertions of the same keys make the same trie. -/
theorem sameTrie_of_allHarmless (build : Build) {entries entries' : List (Entry T)}
    (harmless : AllHarmless [] entries) (harmless' : AllHarmless [] entries')
    (same : ∀ q, (∃ entry ∈ entries, entry.key.content = q) ↔
      ∃ entry ∈ entries', entry.key.content = q) :
    ∃ outs final outs' final',
      run (insertStep build) PatriciaTrie.empty entries = .ok (outs, final) ∧
      run (insertStep build) PatriciaTrie.empty entries' = .ok (outs', final') ∧
      SameTrie final final' := by
  rcases mixedTrie_empty.insertAll build entries harmless with
    ⟨outs, final, values, stored, t, ran, trace, mixed⟩
  rcases mixedTrie_empty.insertAll build entries' harmless' with
    ⟨outs', final', values', stored', t', ran', trace', mixed'⟩
  refine ⟨outs, final, outs', final', ran, ran', ?_⟩
  have same_values : ∀ q, (values q).isSome = (values' q).isSome := by
    intro q
    rw [Bool.eq_iff_iff, isSome_of_trace trace, isSome_of_trace trace', same]
  by_cases noKeys : entries = []
  · -- without keys there is no root, not even one without children
    have noKeys' : entries' = [] := by
      rw [List.eq_nil_iff_forall_not_mem]
      intro entry member
      rcases (same entry.key.content).mpr ⟨entry, member, rfl⟩ with ⟨other, impossible, _⟩
      rw [noKeys] at impossible
      cases impossible
    subst noKeys noKeys'
    cases ran
    cases ran'
    exact ⟨.empty, .empty, onHeap_empty, onHeap_empty, trivial⟩
  · rcases List.exists_mem_of_ne_nil entries noKeys with ⟨entry, member⟩
    refine ⟨t, t', mixed.onHeap, mixed'.onHeap, mixed.similar mixed' same_values ?_⟩
    exact ⟨entry.key.content, (isSome_of_trace trace _).mpr (Or.inr ⟨entry, member, rfl⟩)⟩

/-! ## Keys of one length -/

/-- A key that is as long as the others is inserted among them. -/
theorem harmless_of_length {stored : List (List Bool)} {k : List Bool}
    (sameLength : ∀ p ∈ stored, p.length = k.length) : Harmless stored k := by
  by_cases known : k ∈ stored
  · exact Or.inl known
  · right
    right
    left
    intro p member isPrefix
    rw [isPrefix.eq_of_length (sameLength p member).symm] at known
    exact absurd member known

theorem allHarmless_of_length {stored : List (List Bool)} {entries : List (Entry T)} {n : Nat}
    (stored_length : ∀ p ∈ stored, p.length = n) (length : ∀ entry ∈ entries, entry.key.bits = n) :
    AllHarmless stored entries := by
  induction entries generalizing stored with
  | nil => trivial
  | cons entry entries ih =>
      rcases List.forall_mem_cons.mp length with ⟨here, later⟩
      have content_length : entry.key.content.length = n := by
        rw [entry.sized.length_content, here]
      refine ⟨harmless_of_length fun p member => ?_, ih ?_ later⟩
      · rw [stored_length p member, content_length]
      · exact List.forall_mem_cons.mpr ⟨content_length, stored_length⟩

/-- The insertions of a sequence are those of the given keys, in some order and
some of them more than once. -/
def InsertsExactly (keys : Finset PatriciaKey) (entries : List (Entry T)) : Prop :=
  ∀ key, key ∈ keys ↔ key ∈ entries.map Entry.key

theorem InsertsExactly.content_iff {keys : Finset PatriciaKey} {entries : List (Entry T)}
    (exactly : InsertsExactly keys entries) (q : List Bool) :
    (∃ entry ∈ entries, entry.key.content = q) ↔ ∃ key ∈ keys, key.content = q := by
  constructor
  · rintro ⟨entry, member, rfl⟩
    exact ⟨entry.key, (exactly _).mpr (List.mem_map_of_mem member), rfl⟩
  · rintro ⟨key, member, rfl⟩
    rcases List.mem_map.mp ((exactly key).mp member) with ⟨entry, inside, rfl⟩
    exact ⟨entry, inside, rfl⟩

/-- Keys of one length make the same trie, in whatever order they are inserted. -/
theorem sameTrie_of_insertsExactly (build : Build) (length : Nat)
    (keys : Finset PatriciaKey) (whole : ∀ key ∈ keys, key.bits = 8 * length)
    {entries entries' : List (Entry T)} (exactly : InsertsExactly keys entries)
    (exactly' : InsertsExactly keys entries') :
    ∃ outs final outs' final',
      run (insertStep build) PatriciaTrie.empty entries = .ok (outs, final) ∧
      run (insertStep build) PatriciaTrie.empty entries' = .ok (outs', final') ∧
      SameTrie final final' := by
  have harmless : ∀ {entries : List (Entry T)}, InsertsExactly keys entries →
      AllHarmless [] entries := by
    intro entries exactly
    apply allHarmless_of_length (n := 8 * length) (by simp)
    intro entry member
    exact whole _ ((exactly _).mpr (List.mem_map_of_mem member))
  apply sameTrie_of_allHarmless build (harmless exactly) (harmless exactly')
  intro q
  rw [exactly.content_iff, exactly'.content_iff]

/-- Four keys, the second time in another order and with two repetitions. -/
theorem sameTrie_of_four_keys :
    ∃ outs final outs' final',
      run (insertStep .debug) PatriciaTrie.empty
        [⟨⟨[0x00], 8⟩, 1, by decide⟩, ⟨⟨[0x80], 8⟩, 2, by decide⟩,
          ⟨⟨[0x81], 8⟩, 3, by decide⟩, ⟨⟨[0x83], 8⟩, 4, by decide⟩] = .ok (outs, final) ∧
      run (insertStep .debug) PatriciaTrie.empty
        [⟨⟨[0x83], 8⟩, 5, by decide⟩, ⟨⟨[0x00], 8⟩, 6, by decide⟩, ⟨⟨[0x83], 8⟩, 7, by decide⟩,
          ⟨⟨[0x81], 8⟩, 8, by decide⟩, ⟨⟨[0x80], 8⟩, 9, by decide⟩,
          ⟨⟨[0x00], 8⟩, 0, by decide⟩] = .ok (outs', final') ∧
      SameTrie final final' := by
  apply sameTrie_of_insertsExactly .debug 1 {⟨[0x00], 8⟩, ⟨[0x80], 8⟩, ⟨[0x81], 8⟩, ⟨[0x83], 8⟩}
  · decide
  · intro key
    simp
  · intro key
    simp only [Finset.mem_insert, Finset.mem_singleton, List.map_cons, List.map_nil, List.mem_cons,
      List.not_mem_nil]
    tauto

end SkAsync.Patricia

import SkAsync.Patricia.Insert
import SkAsync.Patricia.Radix

/-!
# What an insertion does to a radix tree

The walks of `insert_node` find the place where the new key leaves the labels
of the tree.  The lemmas say what the tree is for after the change that is made
there, and under which conditions it is still well formed.
-/

namespace SkAsync.Patricia

open SkAsync.Library PatriciaTrie

variable {T : Type}

/-- How a new key `k` meets the label of the node where the insertion stops:
they agree on `d` bits, at least as many as the nodes above ask for, and not on
the next. -/
structure Fork (k lower label : List Bool) (d : Nat) : Prop where
  lower_prefix : lower <+: k
  short : lower.length ≤ d
  le_key : d ≤ k.length
  le_label : d ≤ label.length
  agree : k.take d = label.take d
  differ : d < k.length → d < label.length → bitAt k d ≠ bitAt label d

/-- The bit that a key takes at a node inside of it. -/
theorem turn_eq {key : PatriciaKey} {data : NodeData T} (inside : data.bit < key.bits) :
    turn key data = bitAt key.content data.bit :=
  PatriciaKey.testBit_eq_bitAt inside

/-- In front of the bit where they differ, two bit strings have the same beginnings. -/
theorem prefix_of_take_eq {s t lower : List Bool} {d : Nat} (agree : s.take d = t.take d)
    (isPrefix : lower <+: t) (short : lower.length ≤ d) : lower <+: s := by
  rw [List.prefix_iff_eq_take] at isPrefix ⊢
  have shorter := congrArg (List.take lower.length) agree
  rw [List.take_take, List.take_take, min_eq_left short] at shorter
  rw [shorter]
  exact isPrefix

/-- The bound on a focus is shorter than what stops the walk up. -/
theorem ContextWellFormed.length_le {context : Context (NodeData T)} {lower : List Bool} {d : Nat}
    (wellFormed : ContextWellFormed context lower)
    (under : ∀ frame ∈ context.head?, frame.data.bit < d) : lower.length ≤ d := by
  cases context with
  | nil =>
      rw [ContextWellFormed] at wellFormed
      rw [wellFormed]
      exact Nat.zero_le d
  | cons frame context =>
      rcases wellFormed with ⟨outer, label, rfl, _, labelled, _⟩
      rw [List.length_append, labelled.length_eq]
      exact under frame rfl

namespace PatriciaTrie

/-- The walk down ends at a node with a value, or at the root. -/
theorem Stopped.bottom_cases {strict : Nat → Prop} {key : PatriciaKey} {t : LinkedTree (NodeData T)}
    {passed context : Context (NodeData T)} {bottom data : NodeData T}
    {below children : Bool → LinkedTree (NodeData T)} {a : Address} {diffbit : Nat}
    (stopped : Stopped key t passed context bottom below a data children diffbit)
    (branching : RootBranching strict t) :
    bottom.value.isSome ∨ bottom.value = none ∧ passed = [] ∧ context = [] := by
  cases found : bottom.value with
  | some value => exact Or.inl rfl
  | none =>
      right
      refine ⟨rfl, ?_⟩
      rcases stopped.passed_eq with ⟨b, passed_eq⟩
      have asks : placing key bottom = true := by
        rw [placing, found]
        simp
      have edge_empty := stopped.ends asks
      have tree_eq := stopped.tree_eq
      rw [passed_eq, ← plug_append] at tree_eq
      cases around : passed ++ context with
      | nil => exact List.append_eq_nil_iff.mp around
      | cons frame rest =>
          rw [around] at tree_eq
          rw [← tree_eq, rootBranching_plug_node_iff] at branching
          exact absurd edge_empty (branching.1.1 found _)

/-- The insertion stops at the bit up to which the key agrees with the one that was found. -/
theorem Stopped.diffbit_eq_commonLength {key : PatriciaKey} {t : LinkedTree (NodeData T)}
    {passed context : Context (NodeData T)} {bottom data : NodeData T}
    {below children : Bool → LinkedTree (NodeData T)} {a : Address} {diffbit : Nat}
    {label : List Bool}
    (stopped : Stopped key t passed context bottom below a data children diffbit)
    (labelled : Labelled bottom label) (hasValue : bottom.value.isSome) :
    diffbit = commonLength key.content label := by
  have key_eq := labelled.content_eq hasValue
  rw [← key_eq, ← min_bitDiff, stopped.diffbit_eq, PatriciaKey.sizeBits, min_comm bottom.bit,
    ← labelled.length_eq, ← key_eq, labelled.kept.length_content]

/-- The node where the walk up stops is the one that was found, or one that was passed, on an
edge that is not the key's. -/
theorem Stopped.at_stop {key : PatriciaKey} {t : LinkedTree (NodeData T)}
    {passed context : Context (NodeData T)} {bottom data : NodeData T}
    {below children : Bool → LinkedTree (NodeData T)} {a : Address} {diffbit : Nat}
    {label : List Bool}
    (stopped : Stopped key t passed context bottom below a data children diffbit)
    (sized : key.Sized) (labelled : Labelled bottom label) (follows : Follows label passed)
    (diffbit_eq : diffbit = commonLength key.content label) :
    diffbit ≤ data.bit ∧ (data.bit = diffbit → diffbit < key.bits →
      children (bitAt key.content diffbit) = .empty) := by
  rcases stopped.passed_eq with ⟨b, passed_eq⟩
  rcases List.eq_nil_or_concat passed with rfl | ⟨passed', frame, rfl⟩
  · cases passed_eq
    constructor
    · rw [diffbit_eq, ← labelled.length_eq]
      exact commonLength_le_right _ _
    · intro here inKey
      rw [← here] at inKey ⊢
      have empty := stopped.ends (by simp [placing, PatriciaKey.sizeBits, inKey])
      rwa [turn_eq inKey] at empty
  · rw [List.concat_eq_append] at *
    rw [plug_append, plug_cons, plug_nil, Frame.fill] at passed_eq
    cases passed_eq
    have member : frame ∈ passed' ++ [frame] := by simp
    refine ⟨stopped.climbed frame member, fun here inKey => ?_⟩
    rcases follows frame member with ⟨longer, edge_eq⟩
    have taken := (stopped.follows frame (List.mem_append_left _ member)).2
    rw [turn_eq (here ▸ inKey)] at taken
    have same := taken.symm.trans edge_eq.symm
    rw [← sized.length_content, diffbit_eq] at inKey
    rw [here, diffbit_eq] at longer same
    exact absurd same (bitAt_commonLength_ne inKey longer)

/-- Where an insertion stops, the key forks off; and if it goes on below the node,
then on an edge without a child. -/
theorem Stopped.fork {strict : Nat → Prop} {key : PatriciaKey} {t : LinkedTree (NodeData T)}
    {passed context : Context (NodeData T)} {bottom data : NodeData T}
    {below children : Bool → LinkedTree (NodeData T)} {a : Address} {diffbit : Nat}
    (stopped : Stopped key t passed context bottom below a data children diffbit)
    (sized : key.Sized) (wellFormed : WellFormed [] t) (branching : RootBranching strict t)
    (rootBit : bottom.value = none → bottom.bit = 0) :
    ∃ lower label, ContextWellFormed context lower ∧ lower <+: label ∧ Labelled data label ∧
      (∀ e, WellFormed (label ++ [e]) (children e)) ∧ Fork key.content lower label diffbit ∧
      (data.bit = diffbit → diffbit < key.bits →
        children (bitAt key.content diffbit) = .empty) := by
  rcases stopped.passed_eq with ⟨b, passed_eq⟩
  have wellFormed' := wellFormed
  rw [← stopped.tree_eq, wellFormed_plug_iff] at wellFormed'
  rcases wellFormed' with ⟨lower, around, label, extends_, labelled, inside⟩
  rcases stopped.bottom_cases branching with hasValue | ⟨noValue, rfl, rfl⟩
  · -- the key that was found, and how far the new key agrees with it
    rcases Option.isSome_iff_exists.mp hasValue with ⟨value, found⟩
    have tree_eq := stopped.tree_eq
    rw [passed_eq, ← plug_append] at tree_eq
    rw [← tree_eq, wellFormed_plug_iff] at wellFormed
    rcases wellFormed with ⟨lower', around', label', extends', labelled', _⟩
    have key_eq := labelled'.content_eq hasValue
    have length_eq := labelled'.length_eq
    have follows : Follows label' passed := fun frame member =>
      around'.follows extends' frame (List.mem_append_left _ member)
    have found' : lookup (.node a data children) label' = some value := by
      rw [passed_eq, lookup_plug_of_follows follows, lookup_node,
        if_neg (by rw [length_eq]; exact Nat.lt_irrefl _), if_pos key_eq, found]
    have label_isPrefix := prefix_of_lookup_node labelled inside found'
    have diffbit_eq := stopped.diffbit_eq_commonLength labelled' hasValue
    have at_stop := stopped.at_stop sized labelled' follows diffbit_eq
    have le_label : diffbit ≤ label.length := labelled.length_eq ▸ at_stop.1
    have agree : key.content.take diffbit = label.take diffbit := by
      have same := take_commonLength key.content label'
      rw [← diffbit_eq] at same
      rw [same, List.prefix_iff_eq_take.mp label_isPrefix, List.take_take, min_eq_left le_label]
    have short := around.length_le stopped.under
    refine ⟨lower, label, around, extends_, labelled, inside, ⟨?_, short, ?_, le_label, agree, ?_⟩,
      at_stop.2⟩
    · exact prefix_of_take_eq agree extends_ short
    · rw [diffbit_eq]
      exact commonLength_le_left _ _
    · intro inKey inLabel
      have inFound := inLabel.trans_le label_isPrefix.length_le
      rw [bitAt_of_isPrefix label_isPrefix inLabel]
      rw [diffbit_eq] at inKey inFound ⊢
      exact bitAt_commonLength_ne inKey inFound
  · cases passed_eq
    have bit_eq := rootBit noValue
    have diffbit_eq : diffbit = 0 := by
      rw [stopped.diffbit_eq, bit_eq, Nat.zero_min, Nat.min_zero]
    subst diffbit_eq
    rw [ContextWellFormed] at around
    refine ⟨lower, label, around, extends_, labelled, inside,
      ⟨by simp [around], by simp [around], Nat.zero_le _, Nat.zero_le _, rfl, ?_⟩, ?_⟩
    · intro _ inLabel
      rw [labelled.length_eq, bit_eq] at inLabel
      cases inLabel
    · intro _ inKey
      have empty := stopped.ends (by simp [placing, noValue])
      rwa [turn_eq (bit_eq ▸ inKey), bit_eq] at empty

end PatriciaTrie

/-! ## The four changes -/

/-- What an insertion makes of a tree: the tree is still well formed, and the key
has the value unless it had one. -/
structure Inserted (strict : Nat → Prop) (key : PatriciaKey) (t : LinkedTree (NodeData T))
    (place : Place T) : Prop where
  value_eq : place.data.value = lookup t key.content
  lookup_eq : ∀ value q, lookup (place.store value) q =
    if q = key.content then (lookup t q).or (some value) else lookup t q
  wellFormed : ∀ value, WellFormed [] (place.store value)
  branching : ∀ value, RootBranching strict (place.store value)

/-- What is stored in the new node. -/
abbrev filledData (key : PatriciaKey) (value : T) : NodeData T :=
  { (newData key : NodeData T) with value := some value }

theorem filledData_labelled {key : PatriciaKey} (sized : key.Sized) (nonempty : 0 < key.bits)
    (value : T) : Labelled (filledData key value) key.content := by
  have key_eq : (newData (T := T) key).key = key := by
    rw [newData, PatriciaKey.isEmpty, if_neg]
    simpa using Nat.ne_of_gt nonempty
  refine ⟨sized.length_content, ?_, ?_, ?_⟩
  · rw [key_eq]
    exact sized.kept
  · intro _
    rw [key_eq]
  · intro impossible
    cases impossible

theorem lookup_filledData {key : PatriciaKey} (sized : key.Sized) (nonempty : 0 < key.bits)
    (value : T) (address : Address) (q : List Bool) :
    lookup (.node address (filledData key value) fun _ => .empty) q =
      if q = key.content then some value else none := by
  have labelled := filledData_labelled sized nonempty value
  rw [lookup_node, labelled.content_eq rfl, ← labelled.length_eq]
  by_cases same : q = key.content
  · subst same
    rw [if_neg (Nat.lt_irrefl _), if_pos rfl]
  · rw [if_neg same, lookup_empty, if_neg (Ne.symm same)]
    split <;> rfl

section Changes

variable {strict : Nat → Prop} {key : PatriciaKey} {context : Context (NodeData T)} {a : Address}
  {data : NodeData T} {children : Bool → LinkedTree (NodeData T)} {lower label : List Bool}
  {diffbit : Nat}

/-- The node is the one for the key. -/
theorem inserted_of_reuse (around : ContextWellFormed context lower) (extends_ : lower <+: label)
    (labelled : Labelled data label) (inside : ∀ e, WellFormed (label ++ [e]) (children e))
    (label_eq : label = key.content)
    (branching : RootBranching strict (plug context (.node a data children)))
    (noKey : data.value = none → key.content = []) :
    Inserted strict key (plug context (.node a data children)) ⟨context, a, data, children⟩ := by
  subst label_eq
  have content_eq : data.key.content = key.content := by
    cases found : data.value with
    | some value => exact labelled.content_eq (by rw [found]; rfl)
    | none => rw [noKey found, PatriciaKey.content_of_bits_eq_zero (labelled.no_key found)]
  have notLonger : ¬ data.bit < key.content.length := by
    rw [labelled.length_eq]
    exact Nat.lt_irrefl _
  have found : lookup (plug context (.node a data children)) key.content = data.value := by
    rw [lookup_plug_of_follows (around.follows extends_), lookup_node, if_neg notLonger,
      if_pos content_eq]
  have labelled' : ∀ value, Labelled { data with value := data.value.or (some value) }
      key.content := by
    intro value
    refine ⟨labelled.length_eq, labelled.kept, fun _ => content_eq, fun impossible => ?_⟩
    simp at impossible
  refine ⟨found.symm, ?_, ?_, ?_⟩
  · intro value q
    have changed := lookup_plug_update (.node a data children)
      (.node a { data with value := data.value.or (some value) } children)
      (data.value.or (some value)) around ⟨key.content, extends_, labelled, inside⟩
      ⟨key.content, extends_, labelled' value, inside⟩
      extends_ ?_ q
    · rw [Place.store]
      dsimp only
      rw [changed]
      by_cases here : q = key.content
      · rw [if_pos here, if_pos here, here, found]
      · rw [if_neg here, if_neg here]
    · intro q _
      rw [lookup_node, lookup_node]
      dsimp only
      by_cases here : q = key.content
      · subst here
        rw [if_neg notLonger, if_pos content_eq, if_pos rfl]
      · rw [if_neg here, content_eq, if_neg (Ne.symm here), if_neg (Ne.symm here)]
  · intro value
    rw [Place.store, wellFormed_plug_iff]
    exact ⟨lower, around, key.content, extends_, labelled' value, inside⟩
  · intro value
    rw [Place.store]
    cases context with
    | nil =>
        refine ⟨fun impossible => ?_, branching.2⟩
        simp at impossible
    | cons frame context =>
        rw [rootBranching_plug_node_iff] at branching ⊢
        refine ⟨⟨fun impossible => ?_, branching.1.2⟩, branching.2⟩
        simp at impossible

/-- The new node is attached on an edge without a child. -/
theorem inserted_of_hang (sized : key.Sized) (fresh : Address)
    (around : ContextWellFormed context lower) (extends_ : lower <+: label)
    (labelled : Labelled data label) (inside : ∀ e, WellFormed (label ++ [e]) (children e))
    (isPrefix : label <+: key.content) (longer : label.length < key.content.length)
    (noChild : children (bitAt key.content label.length) = .empty)
    (branching : RootBranching strict (plug context (.node a data children)))
    (notStale : context = [] → data.value = none → strict data.bit → ∃ e, children e ≠ .empty) :
    Inserted strict key (plug context (.node a data children))
      (Place.hang key fresh context a data children) := by
  have length_key := sized.length_content
  have nonempty : 0 < key.bits := by omega
  have edge_eq : key.testBit data.bit = bitAt key.content label.length := by
    rw [← labelled.length_eq, PatriciaKey.testBit_eq_bitAt (by omega)]
  generalize bit_eq : bitAt key.content label.length = edge at edge_eq noChild
  -- the tree, seen as an open edge
  have tree_eq : plug (⟨a, data, edge, children (!edge)⟩ :: context) .empty =
      plug context (.node a data children) := by
    rw [plug_cons, ← noChild, fill_child]
  have around' : ContextWellFormed (⟨a, data, edge, children (!edge)⟩ :: context)
      (label ++ [edge]) :=
    ⟨lower, label, rfl, extends_, labelled, inside (!edge), around⟩
  have reaches : label ++ [edge] <+: key.content :=
    append_singleton_prefix_iff.mpr ⟨isPrefix, longer, bit_eq⟩
  have new : ∀ value : T, WellFormed (label ++ [edge])
      (.node fresh (filledData key value) fun _ => .empty) := fun value =>
    ⟨key.content, reaches, filledData_labelled sized nonempty value, fun _ => trivial⟩
  have absent : lookup (plug context (.node a data children)) key.content = none := by
    rw [← tree_eq, lookup_plug_of_follows (around'.follows reaches), lookup_empty]
  refine ⟨absent.symm, ?_, ?_, ?_⟩
  · intro value q
    rw [Place.store, Place.hang, edge_eq, ← tree_eq]
    rw [← tree_eq] at absent
    apply lookup_plug_insert around' (wellFormed_empty _) (new value) reaches absent
    intro q _
    rw [lookup_filledData sized nonempty, lookup_empty]
  · intro value
    rw [Place.store, Place.hang, edge_eq, wellFormed_plug_iff]
    exact ⟨label ++ [edge], around', new value⟩
  · intro value
    have leafBranching : Branching (.node fresh (filledData key value) fun _ => .empty) :=
      ⟨by simp, fun _ => trivial⟩
    rw [Place.store, Place.hang, edge_eq]
    refine rootBranching_plug_node_iff.mpr ⟨leafBranching, ?_⟩
    cases context with
    | nil =>
        refine ⟨fun noValue stricter => ?_, branching.2 (!edge), trivial⟩
        have isStrict := stricter.resolve_left (fun impossible => impossible rfl)
        rcases branching.1 noValue isStrict with both | neither
        · exact both (!edge)
        · rcases notStale rfl noValue isStrict with ⟨e, child⟩
          exact absurd (neither e) child
    | cons frame context =>
        rw [rootBranching_plug_node_iff] at branching
        exact ⟨fun noValue _ => branching.1.1 noValue (!edge), branching.1.2 (!edge), branching.2⟩

/-- The new node is put above a node whose label extends the key. -/
theorem inserted_of_splice {frame : Frame (NodeData T)} (sized : key.Sized) (fresh : Address)
    (around : ContextWellFormed (frame :: context) lower) (labelled : Labelled data label)
    (inside : ∀ e, WellFormed (label ++ [e]) (children e)) (reaches : lower <+: key.content)
    (isPrefix : key.content <+: label) (shorter : key.content.length < label.length)
    (branching : RootBranching strict (plug (frame :: context) (.node a data children)))
    (edge_eq : data.key.testBit key.bits = bitAt label key.bits) :
    Inserted strict key (plug (frame :: context) (.node a data children))
      (Place.splice key fresh (frame :: context) a data children) := by
  have length_key := sized.length_content
  have nonempty : 0 < key.bits := by
    rcases around with ⟨outer, above, rfl, _⟩
    have bound := reaches.length_le
    rw [List.length_append, List.length_singleton] at bound
    omega
  have goes : key.content ++ [bitAt label key.bits] <+: label :=
    append_singleton_prefix_iff.mpr ⟨isPrefix, shorter, by rw [length_key]⟩
  generalize bitAt label key.bits = edge at edge_eq goes
  have old : WellFormed (key.content ++ [edge]) (.node a data children) :=
    ⟨label, goes, labelled, inside⟩
  have new : ∀ value : T, WellFormed lower (.node fresh (filledData key value)
      (LinkedTree.onEdge edge (.node a data children) .empty)) := fun value =>
    ⟨key.content, reaches, filledData_labelled sized nonempty value,
      wellFormed_onEdge_iff.mpr ⟨old, trivial⟩⟩
  have absent_of : ∀ q, ¬ key.content ++ [edge] <+: q →
      lookup (.node a data children) q = none := fun q => old.lookup_eq_none
  have notLonger : ¬ key.content ++ [edge] <+: key.content := by
    intro impossible
    have bound := impossible.length_le
    rw [List.length_append, List.length_singleton] at bound
    omega
  have absent : lookup (plug (frame :: context) (.node a data children)) key.content = none := by
    rw [lookup_plug_of_follows (around.follows reaches), absent_of _ notLonger]
  refine ⟨absent.symm, ?_, ?_, ?_⟩
  · intro value q
    rw [Place.store, Place.splice, PatriciaKey.sizeBits, edge_eq]
    apply lookup_plug_insert around (old.mono (reaches.trans (List.prefix_append _ _)))
      (new value) reaches absent
    intro q _
    have labelled' := filledData_labelled sized nonempty value
    rw [lookup_node, labelled'.content_eq rfl, ← labelled'.length_eq]
    by_cases here : q = key.content
    · subst here
      rw [if_neg (Nat.lt_irrefl _), if_pos rfl, if_pos rfl]
    · rw [if_neg here, if_neg (Ne.symm here)]
      split
      · rename_i longer
        unfold LinkedTree.onEdge
        split
        · rfl
        · rename_i otherEdge
          rw [lookup_empty, absent_of]
          intro below
          exact otherEdge (append_singleton_prefix_iff.mp below).2.2
      · rename_i notBelow
        rw [absent_of]
        intro below
        exact notBelow (append_singleton_prefix_iff.mp below).2.1
  · intro value
    rw [Place.store, Place.splice, PatriciaKey.sizeBits, edge_eq, wellFormed_plug_iff]
    exact ⟨lower, around, new value⟩
  · intro value
    rw [rootBranching_plug_node_iff] at branching
    rw [Place.store, Place.splice]
    refine rootBranching_plug_node_iff.mpr
      ⟨⟨by simp, ?_⟩, branching.2⟩
    exact (forall_onEdge_iff _).mpr ⟨branching.1, trivial⟩

/-- A node without a key is put above a node whose label differs from the key. -/
theorem inserted_of_branch {frame : Frame (NodeData T)} (sized : key.Sized) (fresh : Address)
    (around : ContextWellFormed (frame :: context) lower) (extends_ : lower <+: label)
    (labelled : Labelled data label) (inside : ∀ e, WellFormed (label ++ [e]) (children e))
    (short : lower.length ≤ diffbit) (inKey : diffbit < key.content.length)
    (inLabel : diffbit < label.length) (agree : key.content.take diffbit = label.take diffbit)
    (differ : bitAt key.content diffbit ≠ bitAt label diffbit)
    (branching : RootBranching strict (plug (frame :: context) (.node a data children))) :
    Inserted strict key (plug (frame :: context) (.node a data children))
      (Place.branch key fresh diffbit (frame :: context) a data children) := by
  have length_key := sized.length_content
  have nonempty : 0 < key.bits := by omega
  have edge_eq : key.testBit diffbit = bitAt key.content diffbit :=
    PatriciaKey.testBit_eq_bitAt (by omega)
  generalize fork_eq : key.content.take diffbit = fork at agree
  have fork_length : fork.length = diffbit := by
    rw [← fork_eq, List.length_take, min_eq_left inKey.le]
  have fork_key : fork <+: key.content := fork_eq ▸ List.take_prefix _ _
  have fork_label : fork <+: label := agree ▸ List.take_prefix _ _
  have reaches : lower <+: fork :=
    List.prefix_of_prefix_length_le extends_ fork_label (fork_length ▸ short)
  generalize bit_eq : bitAt key.content diffbit = edge at edge_eq differ
  have toKey : fork ++ [edge] <+: key.content :=
    append_singleton_prefix_iff.mpr ⟨fork_key, fork_length ▸ inKey, fork_length ▸ bit_eq⟩
  have toLabel : fork ++ [!edge] <+: label :=
    append_singleton_prefix_iff.mpr ⟨fork_label, fork_length ▸ inLabel, by
      rw [fork_length]
      exact eq_not_of_ne (Ne.symm differ)⟩
  have old : WellFormed (fork ++ [!edge]) (.node a data children) :=
    ⟨label, toLabel, labelled, inside⟩
  have leafFormed : ∀ value : T, WellFormed (fork ++ [edge])
      (.node fresh (filledData key value) fun _ => .empty) := fun value =>
    ⟨key.content, toKey, filledData_labelled sized nonempty value, fun _ => trivial⟩
  have topLabelled : Labelled (⟨diffbit, none, .empty⟩ : NodeData T) fork :=
    ⟨fork_length, PatriciaKey.empty_sized.kept, by simp, fun _ => rfl⟩
  -- the new node and the old one, side by side
  have new : ∀ value : T, WellFormed lower (Frame.fill
      ⟨fresh + 1, ⟨diffbit, none, .empty⟩, edge, .node a data children⟩
      (.node fresh (filledData key value) fun _ => .empty)) := fun value =>
    ⟨fork, reaches, topLabelled, wellFormed_onEdge_iff.mpr ⟨leafFormed value, old⟩⟩
  have absent_of : ∀ q, ¬ fork ++ [!edge] <+: q → lookup (.node a data children) q = none :=
    fun q => old.lookup_eq_none
  have notOld : ∀ q, bitAt q diffbit = edge → ¬ fork ++ [!edge] <+: q := by
    intro q same below
    have other := (append_singleton_prefix_iff.mp below).2.2
    rw [fork_length, same] at other
    cases edge <;> cases other
  have absent : lookup (plug (frame :: context) (.node a data children)) key.content = none := by
    rw [lookup_plug_of_follows (around.follows (reaches.trans fork_key)),
      absent_of _ (notOld _ bit_eq)]
  refine ⟨absent.symm, ?_, ?_, ?_⟩
  · intro value q
    have added : ∀ q, lower <+: q → lookup (Frame.fill
        ⟨fresh + 1, ⟨diffbit, none, .empty⟩, edge, .node a data children⟩
        (.node fresh (filledData key value) fun _ => .empty)) q =
          if q = key.content then some value else lookup (.node a data children) q := by
      intro q _
      rw [lookup_fill, lookup_filledData sized nonempty]
      dsimp only
      by_cases here : q = key.content
      · subst here
        rw [if_pos inKey, if_pos bit_eq, if_pos rfl, if_pos rfl]
      · rw [if_neg here, if_neg here]
        split
        · split
          · rename_i sameEdge
            rw [absent_of _ (notOld q sameEdge)]
          · rfl
        · rename_i notBelow
          rw [absent_of]
          · split <;> rfl
          · intro below
            have longer := (append_singleton_prefix_iff.mp below).2.1
            rw [fork_length] at longer
            exact notBelow longer
    have old' := old.mono (reaches.trans (List.prefix_append fork [!edge]))
    rw [Place.store, Place.branch, edge_eq]
    exact lookup_plug_insert around old' (new value) (reaches.trans fork_key) absent added q
  · intro value
    have formed := wellFormed_plug_iff.mpr ⟨lower, around, new value⟩
    rw [Place.store, Place.branch, edge_eq]
    exact formed
  · intro value
    rw [rootBranching_plug_node_iff] at branching
    rw [Place.store, Place.branch, edge_eq]
    refine rootBranching_plug_node_iff.mpr
      ⟨⟨by simp, fun _ => trivial⟩, ?_, branching.1, branching.2⟩
    exact fun _ _ impossible => by cases impossible

end Changes

/-- Where the key forks off, every change that `graft` makes is an insertion.
The conditions exclude what the source gets wrong: a node without a key in the
place of the new node, a wrong edge above a node without a key, and a change
above the root. -/
theorem graft_inserted {strict : Nat → Prop} {key : PatriciaKey} {context : Context (NodeData T)}
    {a : Address} {data : NodeData T} {children : Bool → LinkedTree (NodeData T)}
    {lower label : List Bool} {diffbit : Nat} (fresh : Address) (sized : key.Sized)
    (around : ContextWellFormed context lower) (extends_ : lower <+: label)
    (labelled : Labelled data label) (inside : ∀ e, WellFormed (label ++ [e]) (children e))
    (fork : Fork key.content lower label diffbit)
    (noChild : data.bit = diffbit → diffbit < key.bits →
      children (bitAt key.content diffbit) = .empty)
    (branching : RootBranching strict (plug context (.node a data children)))
    (notStale : context = [] → data.value = none → strict data.bit → ∃ e, children e ≠ .empty)
    (noKey : data.value = none → label = key.content → key.content = [])
    (edge_eq : data.value = none → key.content <+: label →
      key.content.length < label.length → data.key.testBit key.bits = bitAt label key.bits)
    (notAbove : context = [] → data.bit ≤ diffbit) :
    ∃ place, graft key fresh diffbit context a data children = some place ∧
      Inserted strict key (plug context (.node a data children)) place := by
  have length_key := sized.length_content
  have length_label := labelled.length_eq
  unfold graft PatriciaKey.sizeBits
  by_cases reuse : diffbit = key.bits ∧ data.bit = key.bits
  · rw [if_pos reuse]
    have label_eq : label = key.content := by
      have agree := fork.agree
      rw [reuse.1, ← length_key, List.take_length, length_key, ← reuse.2, ← length_label,
        List.take_length] at agree
      exact agree.symm
    exact ⟨_, rfl, inserted_of_reuse around extends_ labelled inside label_eq branching
      fun noValue => noKey noValue label_eq⟩
  · rw [if_neg reuse]
    by_cases hang : data.bit = diffbit
    · rw [if_pos hang]
      have inKey : diffbit < key.bits := by
        have bound := fork.le_key
        omega
      have isPrefix : label <+: key.content := by
        have agree := fork.agree
        rw [← hang, ← length_label, List.take_length] at agree
        exact agree ▸ List.take_prefix _ _
      refine ⟨_, rfl, inserted_of_hang sized fresh around extends_ labelled inside isPrefix
        (by omega) ?_ branching notStale⟩
      rw [length_label, hang]
      exact noChild hang inKey
    · rw [if_neg hang]
      have inLabel : diffbit < label.length := by
        have bound := fork.le_label
        omega
      cases context with
      | nil =>
          have bound := notAbove rfl
          omega
      | cons frame context =>
          rw [if_neg (List.cons_ne_nil _ _)]
          by_cases splice : key.bits = diffbit
          · rw [if_pos splice]
            have isPrefix : key.content <+: label := by
              have agree := fork.agree
              rw [← splice, ← length_key, List.take_length] at agree
              exact agree ▸ List.take_prefix _ _
            have shorter : key.content.length < label.length := by omega
            refine ⟨_, rfl, inserted_of_splice sized fresh around labelled inside
              fork.lower_prefix isPrefix shorter branching ?_⟩
            cases found : data.value with
            | none => exact edge_eq found isPrefix shorter
            | some value =>
                have content_eq := labelled.content_eq (by rw [found]; rfl)
                have bits_eq := labelled.kept.length_content
                rw [content_eq] at bits_eq
                rw [PatriciaKey.testBit_eq_bitAt (by omega), content_eq]
          · rw [if_neg splice]
            have inKey : diffbit < key.content.length := by
              have bound := fork.le_key
              omega
            exact ⟨_, rfl, inserted_of_branch sized fresh around extends_ labelled inside
              fork.short inKey inLabel fork.agree (fork.differ inKey inLabel) branching⟩

/-! ## What else is kept -/

/-- The bit of the root. -/
def rootBit : LinkedTree (NodeData T) → Option Nat
  | .empty => none
  | .node _ data _ => some data.bit

theorem rootBit_plug {t t' : LinkedTree (NodeData T)} (context : Context (NodeData T))
    (same : rootBit t = rootBit t') : rootBit (plug context t) = rootBit (plug context t') := by
  induction context generalizing t t' with
  | nil => exact same
  | cons frame context ih =>
      rw [plug_cons, plug_cons]
      apply ih
      rfl

/-- An insertion does not change the root, only what is below it. -/
theorem rootBit_store {key : PatriciaKey} {fresh : Address} {diffbit : Nat}
    {context : Context (NodeData T)} {a : Address} {data : NodeData T}
    {children : Bool → LinkedTree (NodeData T)} {place : Place T}
    (grafted : graft key fresh diffbit context a data children = some place) (value : T) :
    rootBit (place.store value) = rootBit (plug context (.node a data children)) := by
  unfold graft at grafted
  split at grafted
  · cases grafted
    exact rootBit_plug context rfl
  · split at grafted
    · cases grafted
      exact rootBit_plug context rfl
    · split at grafted
      · cases grafted
      · rename_i notRoot
        rcases List.exists_cons_of_ne_nil notRoot with ⟨frame, rest, rfl⟩
        split at grafted
        · cases grafted
          exact rootBit_plug rest rfl
        · cases grafted
          exact rootBit_plug rest rfl

/-- An insertion keeps a property of all nodes that the new ones have. -/
theorem all_store {property : NodeData T → Prop} {key : PatriciaKey} {fresh : Address}
    {diffbit : Nat} {context : Context (NodeData T)} {a : Address} {data : NodeData T}
    {children : Bool → LinkedTree (NodeData T)} {place : Place T} {value : T}
    (grafted : graft key fresh diffbit context a data children = some place)
    (all : (plug context (.node a data children)).All property)
    (stored : data.bit = key.sizeBits → property { data with value := data.value.or (some value) })
    (new : property (filledData key value))
    (top : property ⟨diffbit, none, .empty⟩) : (place.store value).All property := by
  rcases all_plug_iff.mp all with ⟨⟨here, below⟩, around⟩
  have leaf : (LinkedTree.node fresh (filledData key value) fun _ => .empty).All property :=
    ⟨new, fun _ => trivial⟩
  unfold graft at grafted
  split at grafted
  · rename_i reuse
    cases grafted
    exact all_plug_iff.mpr ⟨⟨stored reuse.2, below⟩, around⟩
  · split at grafted
    · cases grafted
      refine all_plug_iff.mpr ⟨leaf, List.forall_mem_cons.mpr ⟨⟨here, below _⟩, around⟩⟩
    · split at grafted
      · cases grafted
      · split at grafted
        · cases grafted
          refine all_plug_iff.mpr ⟨⟨new, ?_⟩, around⟩
          exact (forall_onEdge_iff _).mpr ⟨⟨here, below⟩, trivial⟩
        · cases grafted
          exact all_plug_iff.mpr
            ⟨leaf, List.forall_mem_cons.mpr ⟨⟨top, here, below⟩, around⟩⟩

/-! ## The whole insertion -/

/-- A node of a well-formed tree, with its label and the bound from above. -/
structure Focus (t : LinkedTree (NodeData T)) (context : Context (NodeData T)) (a : Address)
    (data : NodeData T) (children : Bool → LinkedTree (NodeData T)) (lower label : List Bool) :
    Prop where
  tree_eq : plug context (.node a data children) = t
  around : ContextWellFormed context lower
  extends_ : lower <+: label
  labelled : Labelled data label
  inside : ∀ e, WellFormed (label ++ [e]) (children e)

section Focus

variable {t : LinkedTree (NodeData T)} {context : Context (NodeData T)} {a : Address}
  {data : NodeData T}
  {children : Bool → LinkedTree (NodeData T)} {lower label : List Bool}

theorem Focus.lookup_eq (focus : Focus t context a data children lower label) {q : List Bool}
    (isPrefix : lower <+: q) : lookup t q = lookup (.node a data children) q := by
  rw [← focus.tree_eq, lookup_plug_of_follows (focus.around.follows isPrefix)]

/-- What is found and extends the bound extends the label. -/
theorem Focus.label_isPrefix (focus : Focus t context a data children lower label) {q : List Bool}
    (isPrefix : lower <+: q) (found : (lookup t q).isSome) : label <+: q := by
  rcases Option.isSome_iff_exists.mp found with ⟨value, found⟩
  rw [focus.lookup_eq isPrefix] at found
  exact prefix_of_lookup_node focus.labelled focus.inside found

/-- A node without a value has no value for its label. -/
theorem Focus.lookup_label (focus : Focus t context a data children lower label)
    (noValue : data.value = none) : lookup t label = none := by
  rw [focus.lookup_eq focus.extends_, lookup_node_label a children focus.labelled, noValue]

/-- A node below the root without a value has keys on both edges. -/
theorem Focus.exists_below {strict : Nat → Prop}
    (focus : Focus t context a data children lower label) (branching : RootBranching strict t)
    (belowRoot : context ≠ []) (noValue : data.value = none) (e : Bool) :
    ∃ q, label ++ [e] <+: q ∧ (lookup t q).isSome := by
  rcases List.exists_cons_of_ne_nil belowRoot with ⟨frame, rest, rfl⟩
  rw [← focus.tree_eq, rootBranching_plug_node_iff] at branching
  rcases exists_lookup (branching.1.1 noValue e) (focus.inside e) (branching.1.2 e) with
    ⟨q, value, found⟩
  have longer := (focus.inside e).prefix_of_lookup found
  rcases append_singleton_prefix_iff.mp longer with ⟨label_isPrefix, inside, bit_eq⟩
  rw [focus.labelled.length_eq] at inside bit_eq
  refine ⟨q, longer, ?_⟩
  rw [focus.lookup_eq (focus.extends_.trans label_isPrefix), lookup_node, if_pos inside, bit_eq,
    found]
  rfl

end Focus

/-- A tree in which the source inserts a key correctly. -/
structure Admits (t : LinkedTree (NodeData T)) (key : PatriciaKey) : Prop where
  /-- The root is not a node that an erased key left behind. -/
  root_used : ∀ {a data children}, t = .node a data children → data.value = none → data.bit ≠ 0 →
    ∃ e, children e ≠ .empty
  /-- The key belongs below the root. -/
  root_label : ∀ {a data children lower label}, Focus t [] a data children lower label →
    label <+: key.content
  /-- A node without a key does not stand for the key. -/
  no_key : ∀ {context a data children lower label}, Focus t context a data children lower label →
    lower <+: key.content → data.value = none → label = key.content → key.content = []
  /-- A node without a key belongs on the edge that is taken for it. -/
  edge_eq : ∀ {context a data children lower label}, Focus t context a data children lower label →
    lower <+: key.content → data.value = none → key.content <+: label →
    key.content.length < label.length → data.key.testBit key.bits = bitAt label key.bits

namespace PatriciaTrie

theorem rooted_wellFormed {t : LinkedTree (NodeData T)} (root : Address)
    (wellFormed : WellFormed [] t) :
    WellFormed [] (rooted root t) := by
  cases t with
  | empty =>
      exact ⟨[], List.prefix_rfl, ⟨rfl, PatriciaKey.empty_sized.kept, by simp, fun _ => rfl⟩,
        fun _ => trivial⟩
  | node a data children => exact wellFormed

theorem rooted_branching {strict : Nat → Prop} {t : LinkedTree (NodeData T)} (root : Address)
    (branching : RootBranching strict t) : RootBranching strict (rooted root t) := by
  cases t with
  | empty => exact ⟨fun _ _ => Or.inr fun _ => rfl, fun _ => trivial⟩
  | node a data children => exact branching

@[simp]
theorem lookup_rooted (root : Address) (t : LinkedTree (NodeData T)) (q : List Bool) :
    lookup (rooted root t) q = lookup t q := by
  cases t with
  | empty =>
      rw [rooted, LinkedTree.leaf, lookup_node, lookup_empty]
      split
      · rfl
      · split <;> rfl
  | node a data children => rfl

/-- Where the tree admits the key, `insert_node` returns the place for it. -/
theorem insertNode_inserted (build : Build) {trie : PatriciaTrie T} {t : LinkedTree (NodeData T)}
    {key : PatriciaKey} (onHeap : OnHeap trie t) (wellFormed : WellFormed [] t)
    (branching : RootBranching (· ≠ 0) t) (sized : key.Sized)
    (admits : ∀ root, Admits (rooted root t) key) :
    ∃ root fresh context a data children diffbit place trie',
      plug context (.node a data children) = rooted root t ∧
      graft key fresh diffbit context a data children = some place ∧
      insertNode build trie key = .ok (some place.address, trie') ∧ OnHeap trie' place.tree ∧
      Inserted (· ≠ 0) key (rooted root t) place := by
  rcases insertNode_spec build onHeap key with
    ⟨root, fresh, passed, context, bottom, below, a, data, children, diffbit, stopped, finish⟩
  have wellFormed' := rooted_wellFormed root wellFormed
  have branching' := rooted_branching root branching
  have admits' := admits root
  generalize rooted_eq : rooted root t = t' at stopped wellFormed' branching' admits'
  have rootBit : bottom.value = none → bottom.bit = 0 := by
    intro noValue
    by_contra notZero
    rcases stopped.bottom_cases branching' with hasValue | ⟨_, rfl, rfl⟩
    · rw [noValue] at hasValue
      cases hasValue
    · rcases stopped.passed_eq with ⟨b, passed_eq⟩
      have tree_eq := stopped.tree_eq
      rw [passed_eq] at tree_eq
      rcases admits'.root_used tree_eq.symm noValue notZero with ⟨e, child⟩
      rw [← tree_eq] at branching'
      rcases branching'.1 noValue notZero with both | neither
      · exact both _ (stopped.ends (by simp [placing, noValue]))
      · exact child (neither e)
  rcases stopped.fork sized wellFormed' branching' rootBit with
    ⟨lower, label, around, extends_, labelled, inside, fork, noChild⟩
  have focus : Focus t' context a data children lower label :=
    ⟨stopped.tree_eq, around, extends_, labelled, inside⟩
  rw [← stopped.tree_eq] at branching'
  have notAbove : context = [] → data.bit ≤ diffbit := by
    rintro rfl
    have isPrefix := admits'.root_label focus
    by_contra short
    have inLabel : diffbit < label.length := by
      rw [labelled.length_eq]
      exact Nat.lt_of_not_le short
    have inKey := inLabel.trans_le isPrefix.length_le
    exact fork.differ inKey inLabel (bitAt_of_isPrefix isPrefix inLabel).symm
  have notStale : context = [] → data.value = none → data.bit ≠ 0 → ∃ e, children e ≠ .empty := by
    rintro rfl noValue notZero
    exact admits'.root_used stopped.tree_eq.symm noValue notZero
  rcases graft_inserted fresh sized around extends_ labelled inside fork noChild branching' notStale
    (admits'.no_key focus fork.lower_prefix) (admits'.edge_eq focus fork.lower_prefix)
    notAbove with ⟨place, grafted, inserted⟩
  rcases finish place grafted with ⟨trie', done, onHeap'⟩
  have tree_eq := stopped.tree_eq.trans rooted_eq.symm
  rw [tree_eq] at inserted
  exact ⟨root, fresh, context, a, data, children, diffbit, place, trie', tree_eq, grafted, done,
    onHeap', inserted⟩

end PatriciaTrie

end SkAsync.Patricia

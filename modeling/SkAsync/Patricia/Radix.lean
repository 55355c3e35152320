import SkAsync.Patricia.Search

/-!
# Radix trees of bit strings

What a trie is for: a partial map from bit strings to values.  `lookup` finds
the value of a bit string the way the trie does, bit by bit and with one
comparison at the end.  In a well-formed tree each node has a label: the labels
grow along the edges, and the key of a node with a value is its label.
-/

namespace SkAsync.Patricia

open SkAsync.Library

variable {T : Type}

/-- The value that a bit string has in the tree. -/
def lookup : LinkedTree (NodeData T) → List Bool → Option T
  | .empty, _ => none
  | .node _ data children, q =>
      if data.bit < q.length then lookup (children (bitAt q data.bit)) q
      else if data.key.content = q then data.value
      else none

@[simp]
theorem lookup_empty (q : List Bool) : lookup (.empty : LinkedTree (NodeData T)) q = none :=
  rfl

theorem lookup_node (a : Address) (data : NodeData T) (children : Bool → LinkedTree (NodeData T))
    (q : List Bool) :
    lookup (.node a data children) q =
      if data.bit < q.length then lookup (children (bitAt q data.bit)) q
      else if data.key.content = q then data.value
      else none :=
  rfl

theorem lookup_fill (frame : Frame (NodeData T)) (t : LinkedTree (NodeData T)) (q : List Bool) :
    lookup (frame.fill t) q =
      if frame.data.bit < q.length then
        if bitAt q frame.data.bit = frame.edge then lookup t q else lookup frame.sibling q
      else if frame.data.key.content = q then frame.data.value
      else none := by
  rw [Frame.fill, lookup_node]
  by_cases longer : frame.data.bit < q.length
  · rw [if_pos longer, if_pos longer]
    unfold LinkedTree.onEdge
    split <;> rfl
  · rw [if_neg longer, if_neg longer]

/-- The frames ask for the bits of `q` and take its edges. -/
def Follows (q : List Bool) (context : Context (NodeData T)) : Prop :=
  ∀ frame ∈ context, frame.data.bit < q.length ∧ bitAt q frame.data.bit = frame.edge

/-- A search arrives at a focus that it is led to. -/
theorem lookup_plug_of_follows {q : List Bool} {context : Context (NodeData T)}
    (follows : Follows q context) (t : LinkedTree (NodeData T)) :
    lookup (plug context t) q = lookup t q := by
  induction context generalizing t with
  | nil => rfl
  | cons frame context ih =>
      rcases follows frame List.mem_cons_self with ⟨longer, edge_eq⟩
      rw [plug_cons, ih fun other member => follows other (List.mem_cons_of_mem frame member),
        lookup_fill, if_pos longer, if_pos edge_eq]

/-- A search that ends alike in two trees ends alike where they are in the focus. -/
theorem lookup_plug_eq {q : List Bool} {t t' : LinkedTree (NodeData T)}
    (context : Context (NodeData T)) (same : lookup t q = lookup t' q) :
    lookup (plug context t) q = lookup (plug context t') q := by
  induction context generalizing t t' with
  | nil => exact same
  | cons frame context ih =>
      apply ih
      rw [lookup_fill, lookup_fill, same]

/-! ## Well-formed trees -/

/-- The key of a node fits the label of the node: with a value it is the label,
without one it is empty. -/
structure Labelled (data : NodeData T) (label : List Bool) : Prop where
  length_eq : label.length = data.bit
  kept : data.key.Kept
  content_eq : data.value.isSome → data.key.content = label
  no_key : data.value = none → data.key.bits = 0

/-- Every node has a label that extends `lower`, and the labels on an edge extend
the label above by the bit of the edge. -/
def WellFormed : (lower : List Bool) → LinkedTree (NodeData T) → Prop
  | _, .empty => True
  | lower, .node _ data children =>
      ∃ label, lower <+: label ∧ Labelled data label ∧ ∀ e, WellFormed (label ++ [e]) (children e)

/-- The same for the nodes around the focus; `lower` is the bound that they put
on the focus. -/
def ContextWellFormed : Context (NodeData T) → (lower : List Bool) → Prop
  | [], lower => lower = []
  | frame :: context, lower =>
      ∃ outer label, lower = label ++ [frame.edge] ∧ outer <+: label ∧
        Labelled frame.data label ∧ WellFormed (label ++ [!frame.edge]) frame.sibling ∧
        ContextWellFormed context outer

@[simp]
theorem wellFormed_empty (lower : List Bool) :
    WellFormed lower (.empty : LinkedTree (NodeData T)) :=
  trivial

theorem wellFormed_onEdge_iff {label : List Bool} {edge : Bool}
    {t other : LinkedTree (NodeData T)} :
    (∀ e, WellFormed (label ++ [e]) (LinkedTree.onEdge edge t other e)) ↔
      WellFormed (label ++ [edge]) t ∧ WellFormed (label ++ [!edge]) other :=
  LinkedTree.forall_onEdge_iff fun e => WellFormed (label ++ [e])

/-- A tree is well formed when its context and its focus are. -/
theorem wellFormed_plug_iff {context : Context (NodeData T)} {t : LinkedTree (NodeData T)} :
    WellFormed [] (plug context t) ↔
      ∃ lower, ContextWellFormed context lower ∧ WellFormed lower t := by
  induction context generalizing t with
  | nil =>
      constructor
      · intro wellFormed
        exact ⟨[], rfl, wellFormed⟩
      · rintro ⟨lower, rfl, wellFormed⟩
        exact wellFormed
  | cons frame context ih =>
      rw [plug_cons, ih]
      constructor
      · rintro ⟨outer, around, label, extends_, labelled, below⟩
        rcases wellFormed_onEdge_iff.mp below with ⟨focus, sibling⟩
        exact ⟨label ++ [frame.edge], ⟨outer, label, rfl, extends_, labelled, sibling, around⟩,
          focus⟩
      · rintro ⟨_, ⟨outer, label, rfl, extends_, labelled, sibling, around⟩, focus⟩
        exact ⟨outer, around, label, extends_, labelled,
          wellFormed_onEdge_iff.mpr ⟨focus, sibling⟩⟩

theorem WellFormed.mono {lower lower' : List Bool} {t : LinkedTree (NodeData T)}
    (wellFormed : WellFormed lower t) (isPrefix : lower' <+: lower) : WellFormed lower' t := by
  cases t with
  | empty => trivial
  | node a data children =>
      rcases wellFormed with ⟨label, extends_, labelled, below⟩
      exact ⟨label, isPrefix.trans extends_, labelled, below⟩

/-- What is found below a label extends the label. -/
theorem prefix_of_lookup_node {a : Address} {data : NodeData T}
    {children : Bool → LinkedTree (NodeData T)} {label q : List Bool} {value : T}
    (labelled : Labelled data label) (below : ∀ e, WellFormed (label ++ [e]) (children e))
    (found : lookup (.node a data children) q = some value) : label <+: q := by
  -- the induction is over the subtrees, each with its own label
  suffices general : ∀ (t : LinkedTree (NodeData T)) (lower : List Bool), WellFormed lower t →
      lookup t q = some value → lower <+: q from
    general (.node a data children) label ⟨label, List.prefix_rfl, labelled, below⟩ found
  intro t
  induction t with
  | empty =>
      intro _ _ impossible
      cases impossible
  | node b data children ih =>
      rintro lower ⟨label, extends_, labelled, below⟩ found
      rw [lookup_node] at found
      split at found
      · have longer := ih _ _ (below _) found
        exact extends_.trans ((List.prefix_append _ _).trans longer)
      · split at found
        · rename_i content_eq
          rw [← content_eq, labelled.content_eq (by rw [found]; rfl)]
          exact extends_
        · cases found

theorem WellFormed.prefix_of_lookup {lower q : List Bool} {t : LinkedTree (NodeData T)} {value : T}
    (wellFormed : WellFormed lower t) (found : lookup t q = some value) : lower <+: q := by
  cases t with
  | empty => cases found
  | node a data children =>
      rcases wellFormed with ⟨label, extends_, labelled, below⟩
      exact extends_.trans (prefix_of_lookup_node labelled below found)

theorem WellFormed.lookup_eq_none {lower q : List Bool} {t : LinkedTree (NodeData T)}
    (wellFormed : WellFormed lower t) (notPrefix : ¬ lower <+: q) : lookup t q = none := by
  cases found : lookup t q with
  | none => rfl
  | some value => exact absurd (wellFormed.prefix_of_lookup found) notPrefix

/-- At its own label a node has its own value. -/
theorem lookup_node_label (a : Address) {data : NodeData T}
    (children : Bool → LinkedTree (NodeData T))
    {label : List Bool} (labelled : Labelled data label) :
    lookup (.node a data children) label = data.value := by
  rw [lookup_node, if_neg (by rw [labelled.length_eq]; exact Nat.lt_irrefl _)]
  split
  · rfl
  · rename_i otherKey
    cases found : data.value with
    | none => rfl
    | some value => exact absurd (labelled.content_eq (by rw [found]; rfl)) otherKey

/-- A subtree has the bit strings that go on with its edge. -/
theorem lookup_child (a : Address) {data : NodeData T} {children : Bool → LinkedTree (NodeData T)}
    {label : List Bool} (labelled : Labelled data label)
    (below : ∀ e, WellFormed (label ++ [e]) (children e)) (e : Bool) (q : List Bool) :
    lookup (children e) q =
      if label ++ [e] <+: q then lookup (.node a data children) q else none := by
  by_cases isPrefix : label ++ [e] <+: q
  · rcases append_singleton_prefix_iff.mp isPrefix with ⟨_, longer, bit_eq⟩
    rw [labelled.length_eq] at longer bit_eq
    rw [if_pos isPrefix, lookup_node, if_pos longer, bit_eq]
  · rw [if_neg isPrefix, (below e).lookup_eq_none isPrefix]

/-- A context leads to its focus what extends the bound. -/
theorem ContextWellFormed.follows {context : Context (NodeData T)} {lower q : List Bool}
    (wellFormed : ContextWellFormed context lower) (isPrefix : lower <+: q) :
    Follows q context := by
  induction context generalizing lower with
  | nil => exact fun frame member => by cases member
  | cons frame context ih =>
      rcases wellFormed with ⟨outer, label, rfl, extends_, labelled, _, around⟩
      rcases append_singleton_prefix_iff.mp isPrefix with ⟨label_isPrefix, longer, bit_eq⟩
      rw [labelled.length_eq] at longer bit_eq
      intro other member
      rcases List.mem_cons.mp member with rfl | member
      · exact ⟨longer, bit_eq⟩
      · exact ih around (extends_.trans label_isPrefix) other member

/-- Only what extends the bound can see a change in the focus. -/
theorem lookup_plug_congr {context : Context (NodeData T)} {lower q : List Bool}
    {t t' : LinkedTree (NodeData T)} (focus : WellFormed lower t) (focus' : WellFormed lower t')
    (agree : lower <+: q → lookup t q = lookup t' q) :
    lookup (plug context t) q = lookup (plug context t') q := by
  apply lookup_plug_eq
  by_cases isPrefix : lower <+: q
  · exact agree isPrefix
  · rw [focus.lookup_eq_none isPrefix, focus'.lookup_eq_none isPrefix]

/-- A change in the focus that concerns one bit string is such a change of the tree. -/
theorem lookup_plug_update {context : Context (NodeData T)} {lower k : List Bool}
    (t t' : LinkedTree (NodeData T)) (value : Option T)
    (wellFormed : ContextWellFormed context lower)
    (focus : WellFormed lower t) (focus' : WellFormed lower t') (isPrefix : lower <+: k)
    (changed : ∀ q, lower <+: q → lookup t' q = if q = k then value else lookup t q)
    (q : List Bool) :
    lookup (plug context t') q = if q = k then value else lookup (plug context t) q := by
  by_cases here : q = k
  · subst here
    rw [lookup_plug_of_follows (wellFormed.follows isPrefix), changed q isPrefix, if_pos rfl,
      if_pos rfl]
  · rw [if_neg here]
    apply lookup_plug_congr focus' focus
    intro below
    rw [changed q below, if_neg here]

/-- A new bit string in the focus is new in the tree. -/
theorem lookup_plug_insert {context : Context (NodeData T)} {lower k : List Bool}
    {t t' : LinkedTree (NodeData T)} {value : T} (wellFormed : ContextWellFormed context lower)
    (focus : WellFormed lower t) (focus' : WellFormed lower t') (isPrefix : lower <+: k)
    (absent : lookup (plug context t) k = none)
    (changed : ∀ q, lower <+: q → lookup t' q = if q = k then some value else lookup t q)
    (q : List Bool) :
    lookup (plug context t') q =
      if q = k then (lookup (plug context t) q).or (some value) else lookup (plug context t) q := by
  rw [lookup_plug_update t t' (some value) wellFormed focus focus' isPrefix changed]
  by_cases here : q = k
  · rw [if_pos here, if_pos here, here, absent]
    rfl
  · rw [if_neg here, if_neg here]

/-! ## Branching -/

/-- A node without a value has two children. -/
def Branching : LinkedTree (NodeData T) → Prop
  | .empty => True
  | .node _ data children =>
      (data.value = none → ∀ e, children e ≠ .empty) ∧ ∀ e, Branching (children e)

/-- The root may lack children: with a strict bit it has both or none. -/
def RootBranching (strict : Nat → Prop) : LinkedTree (NodeData T) → Prop
  | .empty => True
  | .node _ data children =>
      (data.value = none → strict data.bit →
        (∀ e, children e ≠ .empty) ∨ ∀ e, children e = .empty) ∧
      ∀ e, Branching (children e)

/-- The same for the nodes around a focus that is not empty. -/
def ContextBranching (strict : Nat → Prop) : Context (NodeData T) → Prop
  | [] => True
  | frame :: context =>
      (frame.data.value = none → context ≠ [] ∨ strict frame.data.bit → frame.sibling ≠ .empty) ∧
      Branching frame.sibling ∧ ContextBranching strict context

theorem forall_onEdge_iff (property : LinkedTree (NodeData T) → Prop) {edge : Bool}
    {t other : LinkedTree (NodeData T)} :
    (∀ e, property (LinkedTree.onEdge edge t other e)) ↔ property t ∧ property other :=
  LinkedTree.forall_onEdge_iff fun _ => property

theorem branching_fill_iff {frame : Frame (NodeData T)} {t : LinkedTree (NodeData T)} :
    Branching (frame.fill t) ↔
      (frame.data.value = none → t ≠ .empty ∧ frame.sibling ≠ .empty) ∧
        Branching t ∧ Branching frame.sibling := by
  rw [Frame.fill, Branching, forall_onEdge_iff Branching,
    forall_onEdge_iff (fun t => t ≠ .empty)]

theorem rootBranching_plug_iff {strict : Nat → Prop} {frame : Frame (NodeData T)}
    {context : Context (NodeData T)} {t : LinkedTree (NodeData T)} (nonempty : t ≠ .empty) :
    RootBranching strict (plug (frame :: context) t) ↔
      Branching t ∧ ContextBranching strict (frame :: context) := by
  induction context generalizing frame t with
  | nil =>
      rw [plug_cons, plug_nil, Frame.fill, RootBranching, forall_onEdge_iff Branching,
        forall_onEdge_iff (fun t => t ≠ .empty),
        forall_onEdge_iff (fun t => t = .empty)]
      simp only [ContextBranching]
      constructor
      · rintro ⟨edges, focus, sibling⟩
        refine ⟨focus, ?_, sibling, trivial⟩
        intro noValue stricter
        rcases edges noValue (stricter.resolve_left (fun impossible => impossible rfl)) with
          both | none
        · exact both.2
        · exact absurd none.1 nonempty
      · rintro ⟨focus, edges, sibling, _⟩
        exact ⟨fun noValue stricter => Or.inl ⟨nonempty, edges noValue (Or.inr stricter)⟩,
          focus, sibling⟩
  | cons frame' context ih =>
      rw [plug_cons, ih (fun impossible => by cases impossible), branching_fill_iff]
      conv_rhs => rw [ContextBranching]
      constructor
      · rintro ⟨⟨edges, focus, sibling⟩, around⟩
        exact ⟨focus, fun noValue _ => (edges noValue).2, sibling, around⟩
      · rintro ⟨focus, edges, sibling, around⟩
        exact ⟨⟨fun noValue => ⟨nonempty, edges noValue (Or.inl (List.cons_ne_nil _ _))⟩,
          focus, sibling⟩, around⟩

/-- A node below the root branches, and so does everything around it. -/
theorem rootBranching_plug_node_iff {strict : Nat → Prop} {frame : Frame (NodeData T)}
    {context : Context (NodeData T)} {a : Address} {data : NodeData T}
    {children : Bool → LinkedTree (NodeData T)} :
    RootBranching strict (plug (frame :: context) (.node a data children)) ↔
      Branching (.node a data children) ∧ ContextBranching strict (frame :: context) :=
  rootBranching_plug_iff (fun impossible => by cases impossible)

/-- Around and below any node, the root among them, the tree branches. -/
theorem RootBranching.focus {strict : Nat → Prop} {context : Context (NodeData T)} {a : Address}
    {data : NodeData T} {children : Bool → LinkedTree (NodeData T)}
    (branching : RootBranching strict (plug context (.node a data children))) :
    ContextBranching strict context ∧ ∀ e, Branching (children e) := by
  cases context with
  | nil => exact ⟨trivial, branching.2⟩
  | cons frame context =>
      rw [rootBranching_plug_node_iff] at branching
      exact ⟨branching.2, branching.1.2⟩

/-- Below a branching node some bit string has a value. -/
theorem exists_lookup {lower : List Bool} {t : LinkedTree (NodeData T)} (nonempty : t ≠ .empty)
    (wellFormed : WellFormed lower t) (branching : Branching t) :
    ∃ q value, lookup t q = some value := by
  induction t generalizing lower with
  | empty => exact absurd rfl nonempty
  | node a data children ih =>
      rcases wellFormed with ⟨label, _, labelled, below⟩
      cases found : data.value with
      | some value => exact ⟨label, value, by rw [lookup_node_label a children labelled, found]⟩
      | none =>
          rcases ih false (branching.1 found false) (below false) (branching.2 false) with
            ⟨q, value, found'⟩
          rcases append_singleton_prefix_iff.mp ((below false).prefix_of_lookup found') with
            ⟨_, longer, bit_eq⟩
          rw [labelled.length_eq] at longer bit_eq
          exact ⟨q, value, by rw [lookup_node, if_pos longer, bit_eq, found']⟩

end SkAsync.Patricia

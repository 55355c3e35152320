import SkAsync.Patricia.ExactRemoval
import SkAsync.Patricia.Exchange
import SkAsync.Patricia.FixedWidth
import SkAsync.Patricia.PostIncrement
import Mathlib.Data.Finmap

/-!
# Maps

`patricia_map`, a trie of pairs under the keys of their first parts, on a heap that it may
share.  As long as the keys have one width and no key is inserted that belongs above the
root, it is a finite map.
-/

namespace SkAsync.Patricia

open SkAsync.Library PatriciaTrie

namespace PatriciaMap

variable {K V : Type} (build : Build) (keyMaker : K → PatriciaKey)

/-- `empty`. -/
def isEmpty (map : PatriciaMap K V) : Except Fault Bool :=
  PatriciaTrie.isEmpty map

/-- `find`. -/
def find (map : PatriciaMap K V) (key : K) : Except Fault NodePtr := do
  let node ← findNode build map (keyMaker key)
  if node = none then pure none
  else
    let found ← deref map.heap node
    if found.data.value.isSome then iteratorAt map.heap node else pure none

/-- `contains`. -/
def contains (map : PatriciaMap K V) (key : K) : Except Fault Bool := do
  let node ← findNode build map (keyMaker key)
  if node = none then pure false
  else
    let found ← deref map.heap node
    pure found.data.value.isSome

/-- `operator[]`, as the node whose value the reference is a part of. -/
def index [Inhabited V] (map : PatriciaMap K V) (key : K) :
    Except Fault (NodePtr × PatriciaMap K V) := do
  let (node, map) ← insertNode build map (keyMaker key)
  let here ← deref map.heap node
  if here.data.value.isNone then
    let heap ← update map.heap node fun n =>
      { n with data := { n.data with value := some (key, default) } }
    pure (node, ⟨map.root, heap⟩)
  else pure (node, map)

/-- `erase` of a key. -/
def erase (map : PatriciaMap K V) (key : K) : Except Fault (Nat × PatriciaMap K V) := do
  let node ← findNode build map (keyMaker key)
  if node = none then pure (0, map)
  else
    let found ← deref map.heap node
    if found.data.value.isSome then
      let map ← removeNode build map node
      pure (1, map)
    else pure (0, map)

/-- What the user reads through an iterator: `it->second`, unless it is `end()`. -/
def valueAt (map : PatriciaMap K V) (it : NodePtr) : Except Fault (Option V) :=
  if it = none then pure none
  else do
    let value ← iteratorValue build map.heap it
    pure (some value.2)

/-- What the user reads through a reference to the second part of a value. -/
def readAt (map : PatriciaMap K V) (node : NodePtr) : Except Fault V := do
  let here ← deref map.heap node
  match here.data.value with
  | none => .error .danglingDereference
  | some pair => pure pair.2

/-- What the user assigns through a reference to the second part of a value. -/
def assignAt (map : PatriciaMap K V) (node : NodePtr) (value : V) :
    Except Fault (PatriciaMap K V) := do
  let heap ← update map.heap node fun n =>
    { n with data := { n.data with value := n.data.value.map fun pair => (pair.1, value) } }
  pure ⟨map.root, heap⟩

end PatriciaMap

/-! ## Keys of one length -/

section OneLength

variable {T : Type} {t : LinkedTree (NodeData T)} {key : PatriciaKey} {width : Nat}

/-- The key does not belong above the root: the root is at bit 0, or begins with bits that the
key begins with as well. -/
def BelowTop (t : LinkedTree (NodeData T)) (key : PatriciaKey) : Prop :=
  ∀ ⦃a data children⦄, t = .node a data children → data.bit = 0 ∨
    ∃ q, (lookup t q).isSome ∧ q.take data.bit = key.content.take data.bit

theorem BelowTop.rooted (below : BelowTop t key) (top : Address) : BelowTop (rooted top t) key := by
  cases t with
  | empty =>
      rintro _ _ _ ⟨⟩
      exact .inl rfl
  | node a data children => exact below

section Top

variable (branching : RootBranching (· ≠ 0) t)
  (lengths : ∀ q, (lookup t q).isSome → q.length = width)
  (length_eq : key.content.length = width) (below : BelowTop t key)

include below in
/-- The root begins the key. -/
theorem top_label {a : Address} {data : NodeData T} {children : Bool → LinkedTree (NodeData T)}
    {lower label : List Bool} (focus : Focus t [] a data children lower label) :
    label <+: key.content := by
  have lower_eq : lower = [] := focus.around
  have size_eq := focus.labelled.length_eq
  rcases below focus.tree_eq.symm with atStart | ⟨q, found, same⟩
  · rw [atStart, List.length_eq_zero_iff] at size_eq
    rw [size_eq]
    exact List.nil_prefix
  · have isPrefix := focus.label_isPrefix (lower_eq ▸ List.nil_prefix) found
    rw [List.prefix_iff_eq_take, size_eq, same] at isPrefix
    rw [isPrefix]
    exact List.take_prefix _ _

include branching lengths below in
/-- Without a value, a node is above the last bit. -/
theorem short_of_no_value (positive : 0 < width) {context : Context (NodeData T)} {a : Address}
    {data : NodeData T} {children : Bool → LinkedTree (NodeData T)} {lower label : List Bool}
    (focus : Focus t context a data children lower label) (noValue : data.value = none) :
    label.length < width := by
  cases context with
  | nil =>
      have lower_eq : lower = [] := focus.around
      rcases below focus.tree_eq.symm with atStart | ⟨q, found, _⟩
      · rw [focus.labelled.length_eq, atStart]
        exact positive
      · have isPrefix := focus.label_isPrefix (lower_eq ▸ List.nil_prefix) found
        rw [← lengths q found]
        apply Nat.lt_of_le_of_ne isPrefix.length_le
        intro sameLength
        rw [← isPrefix.eq_of_length sameLength, focus.lookup_label noValue] at found
        cases found
  | cons frame context =>
      rcases focus.exists_below branching (List.cons_ne_nil _ _) noValue false with
        ⟨q, longer, found⟩
      have bound := longer.length_le
      rw [lengths q found, List.length_append, List.length_singleton] at bound
      exact bound

end Top

/-- A tree whose keys have one length admits a key of this length that is not above the root. -/
theorem admits_of_length (branching : RootBranching (· ≠ 0) t) (positive : 0 < width)
    (lengths : ∀ q, (lookup t q).isSome → q.length = width)
    (length_eq : key.content.length = width) (below : BelowTop t key) (top : Address) :
    Admits (rooted top t) key := by
  have lengths' : ∀ q, (lookup (rooted top t) q).isSome → q.length = width := by
    intro q found
    rw [lookup_rooted] at found
    exact lengths q found
  have branching' := rooted_branching top branching
  have below' := below.rooted top
  generalize rooted top t = t' at lengths' branching' below'
  constructor
  · intro a data children tree_eq noValue notZero
    rcases below' tree_eq with atStart | ⟨q, found, _⟩
    · exact absurd atStart notZero
    · by_contra noChild
      rw [not_exists] at noChild
      rw [tree_eq, lookup_node, not_not.mp (noChild _), lookup_empty, noValue, ite_self,
        ite_self] at found
      cases found
  · exact fun focus => top_label below' focus
  · intro context a data children lower label focus _ noValue label_eq
    have short := short_of_no_value branching' lengths' below' positive focus noValue
    rw [label_eq, length_eq] at short
    exact absurd short (Nat.lt_irrefl _)
  · intro context a data children lower label focus _ noValue _ shorter
    have short := short_of_no_value branching' lengths' below' positive focus noValue
    rw [length_eq] at shorter
    exact absurd short (Nat.lt_asymm shorter)

end OneLength

/-! ## Values in place -/

section InPlace

variable {T : Type} {context : Context (NodeData T)} {a : Address} {data : NodeData T}
  {children : Bool → LinkedTree (NodeData T)} {value : T}

/-- Where there is a value, none is stored. -/
theorem store_eq_tree {place : Place T} (found : place.data.value = some value) (other : T) :
    place.store other = place.tree := by
  rcases place with ⟨context, a, ⟨bit, value', key⟩, children⟩
  cases found
  rfl

/-- A node with a value has the key of its value, under which it is found. -/
theorem lookup_of_value (wellFormed : WellFormed [] (plug context (.node a data children)))
    (found : data.value = some value) :
    lookup (plug context (.node a data children)) data.key.content = some value := by
  rcases wellFormed_plug_iff.mp wellFormed with ⟨lower, around, label, extends_, labelled, _⟩
  rw [labelled.content_eq (by simp [found]), lookup_plug_of_follows (around.follows extends_),
    lookup_node_label a children labelled, found]

/-- Another value takes the place of a value. -/
theorem replace_spec {strict : Nat → Prop}
    (wellFormed : WellFormed [] (plug context (.node a data children)))
    (branching : RootBranching strict (plug context (.node a data children)))
    (found : data.value = some value) (value' : T) :
    WellFormed [] (plug context (.node a { data with value := some value' } children)) ∧
      RootBranching strict (plug context (.node a { data with value := some value' } children)) ∧
      ∀ q, lookup (plug context (.node a { data with value := some value' } children)) q =
        if q = data.key.content then some value'
        else lookup (plug context (.node a data children)) q := by
  rcases wellFormed_plug_iff.mp wellFormed with
    ⟨lower, around, label, extends_, labelled, inside⟩
  have content_eq := labelled.content_eq (by simp [found])
  have labelled' : Labelled { data with value := some value' } label :=
    ⟨labelled.length_eq, labelled.kept, fun _ => content_eq, fun impossible => by cases impossible⟩
  have node : WellFormed lower (.node a data children) := ⟨label, extends_, labelled, inside⟩
  have node' : WellFormed lower (.node a { data with value := some value' } children) :=
    ⟨label, extends_, labelled', inside⟩
  refine ⟨wellFormed_plug_iff.mpr ⟨lower, around, node'⟩, ?_, ?_⟩
  · cases context with
    | nil => exact ⟨(fun impossible => by cases impossible), branching.2⟩
    | cons frame context =>
        rw [rootBranching_plug_node_iff] at branching ⊢
        exact ⟨⟨(fun impossible => by cases impossible), branching.1.2⟩, branching.2⟩
  · apply lookup_plug_update (.node a data children) _ _ around node node'
      (content_eq ▸ extends_)
    intro q _
    rw [lookup_node, lookup_node, content_eq, ← labelled.length_eq]
    by_cases here : q = label
    · subst here
      simp
    · rw [if_neg here, if_neg (Ne.symm here), if_neg (Ne.symm here)]

end InPlace

/-- Nothing is found exactly where the root has neither a value nor a child. -/
theorem nothing_found_iff {strict : Nat → Prop} (wellFormed : WellFormed [] (.node a data children))
    (branching : RootBranching strict (.node a data children)) :
    (∀ q, lookup (.node a data children) q = none) ↔
      data.value = none ∧ ∀ e, children e = .empty := by
  constructor
  · intro nothing
    constructor
    · cases found : data.value with
      | none => rfl
      | some value =>
          have here : lookup (plug [] (.node a data children)) data.key.content = some value :=
            lookup_of_value wellFormed found
          rw [plug_nil, nothing] at here
          cases here
    · intro e
      by_contra child
      rcases wellFormed with ⟨label, _, labelled, inside⟩
      rcases exists_lookup child (inside e) (branching.2 e) with ⟨q, value, found⟩
      rcases append_singleton_prefix_iff.mp ((inside e).prefix_of_lookup found) with
        ⟨_, longer, bit_eq⟩
      rw [labelled.length_eq] at longer bit_eq
      have here := nothing q
      rw [lookup_node, if_pos longer, bit_eq, found] at here
      cases here
  · rintro ⟨noValue, noChild⟩ q
    rw [lookup_node, noChild, lookup_empty, noValue, ite_self, ite_self]

/-! ## The finite map -/

/-- A trie with the entries of a finite map. -/
structure MapHolds {K V : Type} [DecidableEq K] (keys : KeyMaker K) (map : PatriciaMap K V)
    (entries : Finmap fun _ : K => V) (t : LinkedTree (NodeData (K × V))) : Prop where
  onHeap : OnHeap map t
  wellFormed : WellFormed [] t
  branching : RootBranching (· ≠ 0) t
  lookup_eq : ∀ key, lookup t (keys.make key).content =
    (entries.lookup key).map fun value => (key, value)
  only : ∀ q, (lookup t q).isSome → ∃ key, (keys.make key).content = q

/-- The entries after an insertion that keeps what is there. -/
def added {K V : Type} [DecidableEq K] (entries : Finmap fun _ : K => V) (key : K) (value : V) :
    Finmap fun _ : K => V :=
  if key ∈ entries then entries else entries.insert key value

theorem insert_added {K V : Type} [DecidableEq K] (entries : Finmap fun _ : K => V) (key : K)
    (value value' : V) : (added entries key value).insert key value' =
      entries.insert key value' := by
  rw [added]
  split
  · rfl
  · exact Finmap.insert_insert entries

/-- The key does not belong above the root: the root is at bit 0, or some key of the map has
the same bits up to that of the root. -/
def PatriciaMap.BelowRoot {K V : Type} [DecidableEq K] (keys : KeyMaker K) (map : PatriciaMap K V)
    (entries : Finmap fun _ : K => V) (key : K) : Prop :=
  ∀ node ∈ rootNode map, node.data.bit = 0 ∨
    ∃ member ∈ entries.keys, (keys.make member).content.take node.data.bit =
      (keys.make key).content.take node.data.bit

instance {K V : Type} [DecidableEq K] (keys : KeyMaker K) (map : PatriciaMap K V)
    (entries : Finmap fun _ : K => V) (key : K) :
    Decidable (PatriciaMap.BelowRoot keys map entries key) :=
  inferInstanceAs (Decidable (∀ node ∈ rootNode map, _ ∨ ∃ member ∈ entries.keys, _))

namespace MapHolds

variable {K V : Type} [DecidableEq K] {keys : KeyMaker K} {root : NodePtr}
  {heap : NodeHeap (K × V)} {entries : Finmap fun _ : K => V}
  {t : LinkedTree (NodeData (K × V))}

theorem initial (keys : KeyMaker K) (heap : NodeHeap (K × V)) :
    MapHolds keys ⟨none, heap⟩ ∅ .empty :=
  ⟨⟨rfl, trivial, List.nodup_nil⟩, trivial, trivial, fun _ => rfl, fun _ found => by cases found⟩

theorem found_iff (holds : MapHolds keys ⟨root, heap⟩ entries t) (key : K) :
    (lookup t (keys.make key).content).isSome ↔ key ∈ entries := by
  rw [holds.lookup_eq, Option.isSome_map, Finmap.lookup_isSome]

theorem length_of_found (holds : MapHolds keys ⟨root, heap⟩ entries t) {q : List Bool}
    (found : (lookup t q).isSome) : q.length = 8 * keys.width := by
  rcases holds.only q found with ⟨key, rfl⟩
  exact keys.length_content key

/-- The values of a changed tree are the entries of a changed map. -/
theorem lookup_changed (holds : MapHolds keys ⟨root, heap⟩ entries t) {key : K}
    (entries' : Finmap fun _ : K => V) {t' : LinkedTree (NodeData (K × V))}
    (changed : ∀ q, q ≠ (keys.make key).content → lookup t' q = lookup t q)
    (here : lookup t' (keys.make key).content =
      (entries'.lookup key).map fun value => (key, value))
    (others : ∀ other, other ≠ key → entries'.lookup other = entries.lookup other) :
    (∀ key', lookup t' (keys.make key').content =
      (entries'.lookup key').map fun value => (key', value)) ∧
      ∀ q, (lookup t' q).isSome → ∃ key', (keys.make key').content = q := by
  constructor
  · intro key'
    by_cases same : key' = key
    · subst same
      exact here
    · rw [changed _ fun same' => same (keys.content_injective same'), holds.lookup_eq,
        others key' same]
  · intro q found
    by_cases same : q = (keys.make key).content
    · exact ⟨key, same.symm⟩
    · rw [changed q same] at found
      exact holds.only q found

/-- What the condition on an insertion says of the tree. -/
theorem belowTop (holds : MapHolds keys ⟨root, heap⟩ entries t) {key : K}
    (below : PatriciaMap.BelowRoot keys ⟨root, heap⟩ entries key) : BelowTop t (keys.make key) := by
  rintro a data children rfl
  have live : rootNode (⟨root, heap⟩ : PatriciaMap K V) =
      some ⟨data, fun e => (children e).address, none⟩ := by
    rw [rootNode, holds.onHeap.root_eq]
    exact holds.onHeap.represents.1
  apply (below _ live).imp_right
  rintro ⟨member, inside, same⟩
  exact ⟨_, (holds.found_iff member).mpr (Finmap.mem_keys.mp inside), same⟩

theorem admits (holds : MapHolds keys ⟨root, heap⟩ entries t) {key : K}
    (below : PatriciaMap.BelowRoot keys ⟨root, heap⟩ entries key) (top : Address) :
    Admits (rooted top t) (keys.make key) :=
  admits_of_length holds.branching (Nat.mul_pos (by decide) keys.width_pos)
    (fun _ => holds.length_of_found) (keys.length_content key) (holds.belowTop below) top

/-! ### Inserting -/

/-- The node for a key: it has the entry of the key, or the entry can be stored there. -/
theorem insertNode (build : Build) (holds : MapHolds keys ⟨root, heap⟩ entries t) {key : K}
    (below : PatriciaMap.BelowRoot keys ⟨root, heap⟩ entries key) (value : V) :
    ∃ (place : Place (K × V)) (root₁ : NodePtr) (heap₁ : NodeHeap (K × V)),
      PatriciaTrie.insertNode build ⟨root, heap⟩ (keys.make key) =
        .ok (some place.address, ⟨root₁, heap₁⟩) ∧
      OnHeap ⟨root₁, heap₁⟩ place.tree ∧
      place.data.value = ((entries.lookup key).map fun value => (key, value)) ∧
      (key ∈ entries → MapHolds keys ⟨root₁, heap₁⟩ entries place.tree ∧
        Exchanged heap heap₁ t.addresses place.tree.addresses) ∧
      (key ∉ entries → ∃ heap₂, update heap₁ (some place.address)
          (fun n => { n with data := { n.data with value := some (key, value) } }) = .ok heap₂ ∧
        MapHolds keys ⟨root₁, heap₂⟩ (entries.insert key value) (place.store (key, value)) ∧
        Exchanged heap heap₂ t.addresses (place.store (key, value)).addresses) := by
  rcases insertNode_exchanged build holds.onHeap holds.wellFormed holds.branching
    (keys.make_sized key) (holds.admits below) with
    ⟨top, place, root₁, heap₁, done, onHeap₁, inserted, exchanged⟩
  have value_eq : place.data.value = ((entries.lookup key).map fun value => (key, value)) := by
    rw [inserted.value_eq, lookup_rooted, holds.lookup_eq]
  have lookup_eq : ∀ q, lookup (place.store (key, value)) q = if q = (keys.make key).content
      then (lookup t q).or (some (key, value)) else lookup t q := by
    intro q
    rw [inserted.lookup_eq, lookup_rooted]
  have changed : ∀ q, q ≠ (keys.make key).content →
      lookup (place.store (key, value)) q = lookup t q := by
    intro q other
    rw [lookup_eq, if_neg other]
  have here := lookup_eq (keys.make key).content
  rw [if_pos rfl, holds.lookup_eq] at here
  refine ⟨place, root₁, heap₁, done, onHeap₁, value_eq, fun inside => ?_, fun outside => ?_⟩
  · rcases Finmap.mem_iff.mp inside with ⟨old, found⟩
    rw [found] at value_eq here
    have unchanged := store_eq_tree value_eq (key, value)
    rcases holds.lookup_changed entries changed (by rw [here, found]; rfl)
      fun _ _ => rfl with ⟨lookup_eq', only⟩
    rw [unchanged] at lookup_eq' only
    exact ⟨⟨onHeap₁, unchanged ▸ inserted.wellFormed (key, value),
      unchanged ▸ inserted.branching (key, value), lookup_eq', only⟩, exchanged⟩
  · have absent := Finmap.lookup_eq_none.mpr outside
    rw [absent] at value_eq here
    have noValue : place.data.value = none := value_eq
    rcases update_exchanged onHeap₁ (fun data => { data with value := some (key, value) }) with
      ⟨heap₂, updated, onHeap₂, exchanged'⟩
    have store_eq : place.store (key, value) =
        plug place.context (.node place.address
          { place.data with value := some (key, value) } place.children) := by
      rw [Place.store, noValue]
      rfl
    rcases holds.lookup_changed (entries.insert key value) changed
      (by rw [here, Finmap.lookup_insert]; rfl)
      fun other different => Finmap.lookup_insert_of_ne _ different with ⟨lookup_eq', only⟩
    rw [← store_eq] at onHeap₂ exchanged'
    exact ⟨heap₂, updated, ⟨onHeap₂, inserted.wellFormed _, inserted.branching _, lookup_eq', only⟩,
      exchanged.trans exchanged'⟩

theorem insert (build : Build) (holds : MapHolds keys ⟨root, heap⟩ entries t) {key : K}
    (below : PatriciaMap.BelowRoot keys ⟨root, heap⟩ entries key) (value : V) :
    ∃ it root' heap' t', PatriciaMap.insert build keys.make ⟨root, heap⟩ (key, value) =
        .ok ((it, decide (key ∉ entries)), ⟨root', heap'⟩) ∧
      MapHolds keys ⟨root', heap'⟩ (added entries key value) t' ∧
      Exchanged heap heap' t.addresses t'.addresses := by
  rcases holds.insertNode build below value with
    ⟨place, root₁, heap₁, done, onHeap₁, value_eq, present, absent⟩
  have live := focus_read onHeap₁.represents
  rw [PatriciaMap.insert, PatriciaSet.insert, done, ok_bind, added]
  dsimp only
  rw [skCheck_of (Option.some_ne_none _), ok_bind, deref_eq live, ok_bind]
  dsimp only
  by_cases inside : key ∈ entries
  · rcases present inside with ⟨holds', exchanged⟩
    have found : place.data.value.isSome := by
      rw [value_eq, Option.isSome_map, Finmap.lookup_isSome]
      exact inside
    rw [if_pos found, iteratorAt_of_isSome live found, if_pos inside,
      decide_eq_false (not_not_intro inside)]
    exact ⟨_, root₁, heap₁, _, rfl, holds', exchanged⟩
  · rcases absent inside with ⟨heap₂, updated, holds', exchanged⟩
    have free : ¬ place.data.value.isSome := by
      rw [value_eq, Option.isSome_map, Finmap.lookup_isSome]
      exact inside
    rw [if_neg free, updated, ok_bind, if_neg inside, decide_eq_true inside,
      iteratorAt_of_isSome (focus_read holds'.onHeap.represents) (by simp)]
    exact ⟨_, root₁, heap₂, _, rfl, holds', exchanged⟩

/-- `operator[]` returns the place of the entry, which it makes if there is none. -/
theorem index [Inhabited V] (build : Build) (holds : MapHolds keys ⟨root, heap⟩ entries t)
    {key : K} (below : PatriciaMap.BelowRoot keys ⟨root, heap⟩ entries key) :
    ∃ context a data children root' heap',
      PatriciaMap.index build keys.make ⟨root, heap⟩ key = .ok (some a, ⟨root', heap'⟩) ∧
      data.value = some (key, (entries.lookup key).getD default) ∧
      MapHolds keys ⟨root', heap'⟩ (added entries key default)
        (plug context (.node a data children)) ∧
      Exchanged heap heap' t.addresses (plug context (.node a data children)).addresses := by
  rcases holds.insertNode build below default with
    ⟨place, root₁, heap₁, done, onHeap₁, value_eq, present, absent⟩
  rw [PatriciaMap.index, done, ok_bind, added]
  dsimp only
  rw [focus_deref onHeap₁.represents, ok_bind]
  dsimp only
  by_cases inside : key ∈ entries
  · rcases present inside with ⟨holds', exchanged⟩
    rcases Finmap.mem_iff.mp inside with ⟨value, found⟩
    rw [found] at value_eq
    rw [if_neg (by simp [value_eq]), if_pos inside, found]
    exact ⟨place.context, place.address, place.data, place.children, root₁, heap₁, rfl, value_eq,
      holds', exchanged⟩
  · rcases absent inside with ⟨heap₂, updated, holds', exchanged⟩
    have notFound := Finmap.lookup_eq_none.mpr inside
    rw [notFound] at value_eq
    rw [if_pos (by simp [value_eq]), updated, ok_bind, if_neg inside, notFound]
    refine ⟨place.context, place.address, _, place.children, root₁, heap₂, rfl, ?_, holds',
      exchanged⟩
    dsimp only
    rw [value_eq]
    rfl

/-- An assignment through the reference gives the key its value. -/
theorem assignAt {context : Context (NodeData (K × V))} {a : Address} {data : NodeData (K × V)}
    {children : Bool → LinkedTree (NodeData (K × V))} {key : K} {old : V}
    (holds : MapHolds keys ⟨root, heap⟩ entries (plug context (.node a data children)))
    (found : data.value = some (key, old)) (value : V) :
    ∃ heap' t', PatriciaMap.assignAt ⟨root, heap⟩ (some a) value = .ok ⟨root, heap'⟩ ∧
      MapHolds keys ⟨root, heap'⟩ (entries.insert key value) t' ∧
      Exchanged heap heap' (plug context (.node a data children)).addresses t'.addresses := by
  have under := lookup_of_value holds.wellFormed found
  rcases holds.only data.key.content (by rw [under]; rfl) with ⟨key', same⟩
  rw [← same, holds.lookup_eq, Option.map_eq_some_iff] at under
  rcases under with ⟨_, _, pair_eq⟩
  cases pair_eq
  rcases replace_spec holds.wellFormed holds.branching found (key, value) with
    ⟨wellFormed, branching, lookup_eq⟩
  rcases update_exchanged holds.onHeap
    (fun data => { data with value := data.value.map fun pair => (pair.1, value) }) with
    ⟨heap', updated, onHeap', exchanged⟩
  rw [found, Option.map_some] at onHeap' exchanged
  have here := lookup_eq (keys.make key).content
  rw [if_pos same] at here
  rcases holds.lookup_changed (entries.insert key value)
    (fun q other => (lookup_eq q).trans (if_neg (same ▸ other)))
    (by rw [here, Finmap.lookup_insert]; rfl)
    fun other different => Finmap.lookup_insert_of_ne _ different with ⟨lookup_eq', only⟩
  refine ⟨heap', _, ?_, ⟨onHeap', wellFormed, branching, lookup_eq', only⟩, exchanged⟩
  rw [PatriciaMap.assignAt, updated]
  rfl

/-! ### Searching and removing -/

/-- The node with the entry of the key, or the end of the search where there is none. -/
theorem findNode (build : Build) (holds : MapHolds keys ⟨root, heap⟩ entries t) (key : K) :
    (PatriciaTrie.findNode build ⟨root, heap⟩ (keys.make key) = .ok none ∧ key ∉ entries) ∨
      ∃ context a data children, plug context (.node a data children) = t ∧
        PatriciaTrie.findNode build ⟨root, heap⟩ (keys.make key) = .ok (some a) ∧
        data.key.content = (keys.make key).content ∧
        data.value = ((entries.lookup key).map fun value => (key, value)) := by
  rcases findNode_spec build holds.onHeap holds.wellFormed.all_sound (keys.make_sized key) with
    ⟨found, absent⟩ | ⟨context, a, data, children, rfl, found, content_eq, value_eq⟩
  · left
    refine ⟨found, fun inside => ?_⟩
    rw [← holds.found_iff, absent] at inside
    cases inside
  · exact .inr ⟨context, a, data, children, rfl, found, content_eq,
      value_eq.trans (holds.lookup_eq key)⟩

/-- `find` leads to the value of the key. -/
theorem find (build : Build) (holds : MapHolds keys ⟨root, heap⟩ entries t) (key : K) :
    ∃ it, PatriciaMap.find build keys.make ⟨root, heap⟩ key = .ok it ∧
      PatriciaMap.valueAt build ⟨root, heap⟩ it = .ok (entries.lookup key) := by
  rw [PatriciaMap.find]
  rcases holds.findNode build key with
    ⟨found, outside⟩ | ⟨context, a, data, children, rfl, found, _, value_eq⟩
  · rw [found, ok_bind, if_pos rfl, Finmap.lookup_eq_none.mpr outside]
    exact ⟨none, rfl, rfl⟩
  · have live := focus_read holds.onHeap.represents
    rw [found, ok_bind, if_neg (Option.some_ne_none a), deref_eq live, ok_bind]
    dsimp only
    cases entry : entries.lookup key with
    | none =>
        rw [entry] at value_eq
        rw [if_neg (by simp [value_eq])]
        exact ⟨none, rfl, rfl⟩
    | some value =>
        rw [entry] at value_eq
        have present : data.value.isSome := by
          rw [value_eq]
          rfl
        rw [if_pos present, iteratorAt_of_isSome live present]
        refine ⟨some a, rfl, ?_⟩
        rw [PatriciaMap.valueAt, if_neg (Option.some_ne_none a),
          iteratorValue_eq build live value_eq]
        rfl

theorem contains (build : Build) (holds : MapHolds keys ⟨root, heap⟩ entries t) (key : K) :
    PatriciaMap.contains build keys.make ⟨root, heap⟩ key = .ok (decide (key ∈ entries)) := by
  rw [PatriciaMap.contains]
  rcases holds.findNode build key with
    ⟨found, outside⟩ | ⟨context, a, data, children, rfl, found, _, value_eq⟩
  · rw [found, ok_bind, if_pos rfl, decide_eq_false outside]
    rfl
  · rw [found, ok_bind, if_neg (Option.some_ne_none a), focus_deref holds.onHeap.represents,
      ok_bind]
    dsimp only
    rw [value_eq, Option.isSome_map, pure_eq_ok]
    congr 1
    rw [Bool.eq_iff_iff, decide_eq_true_iff, Finmap.lookup_isSome]

/-- `erase` takes the entry of the key away. -/
theorem erase (build : Build) (holds : MapHolds keys ⟨root, heap⟩ entries t) (key : K) :
    ∃ root' heap' t', PatriciaMap.erase build keys.make ⟨root, heap⟩ key =
        .ok (if key ∈ entries then 1 else 0, ⟨root', heap'⟩) ∧
      MapHolds keys ⟨root', heap'⟩ (entries.erase key) t' ∧
      Exchanged heap heap' t.addresses t'.addresses := by
  have unchanged : key ∉ entries → MapHolds keys ⟨root, heap⟩ (entries.erase key) t := by
    intro outside
    have same : entries.erase key = entries := by
      apply Finmap.ext_lookup
      intro other
      by_cases here : other = key
      · subst here
        rw [Finmap.lookup_erase, Finmap.lookup_eq_none.mpr outside]
      · exact Finmap.lookup_erase_ne here
    rw [same]
    exact holds
  have refl := holds.onHeap.exchanged_refl
  rw [PatriciaMap.erase]
  rcases holds.findNode build key with
    ⟨found, outside⟩ | ⟨context, a, data, children, rfl, found, content_eq, value_eq⟩
  · rw [found, ok_bind, if_pos rfl, if_neg outside]
    exact ⟨root, heap, t, rfl, unchanged outside, refl⟩
  · rw [found, ok_bind, if_neg (Option.some_ne_none a), focus_deref holds.onHeap.represents,
      ok_bind]
    dsimp only
    by_cases inside : key ∈ entries
    · rcases Finmap.mem_iff.mp inside with ⟨value, entry⟩
      rw [entry] at value_eq
      rcases removeNode_exchanged build holds.onHeap holds.wellFormed holds.branching value_eq with
        ⟨root', heap', t', removed, left, exchanged⟩
      have gone : ∀ q, lookup t' q = if q = (keys.make key).content then none
          else lookup (plug context (.node a data children)) q := by
        intro q
        rw [left.lookup_eq, content_eq]
      have here := gone (keys.make key).content
      rw [if_pos rfl] at here
      rcases holds.lookup_changed (entries.erase key)
        (fun q other => (gone q).trans (if_neg other))
        (by rw [here, Finmap.lookup_erase]; rfl)
        fun other different => Finmap.lookup_erase_ne different with ⟨lookup_eq, only⟩
      rw [if_pos (by rw [value_eq]; rfl), removed, if_pos inside]
      exact ⟨root', heap', t', rfl,
        ⟨left.onHeap, left.wellFormed, left.branching, lookup_eq, only⟩, exchanged⟩
    · rw [Finmap.lookup_eq_none.mpr inside] at value_eq
      rw [if_neg (by simp [value_eq]), if_neg inside]
      exact ⟨root, heap, _, rfl, unchanged inside, refl⟩

/-- `empty` tells whether there are entries, also where a root without a value is left. -/
theorem isEmpty (holds : MapHolds keys ⟨root, heap⟩ entries t) :
    PatriciaMap.isEmpty (⟨root, heap⟩ : PatriciaMap K V) =
      .ok (decide (entries.keys = ∅)) := by
  rw [PatriciaMap.isEmpty, PatriciaTrie.isEmpty]
  have nothing_iff : (∀ q, lookup t q = none) ↔ entries.keys = ∅ := by
    rw [Finset.eq_empty_iff_forall_notMem]
    constructor
    · intro nothing key inside
      rw [Finmap.mem_keys, ← holds.found_iff, nothing] at inside
      cases inside
    · intro noKey q
      by_contra present
      have found : (lookup t q).isSome := Option.isSome_iff_ne_none.mpr present
      rcases holds.only q found with ⟨key, rfl⟩
      exact noKey key (Finmap.mem_keys.mpr ((holds.found_iff key).mp found))
  have root_eq : root = t.address := holds.onHeap.root_eq
  subst root_eq
  cases t with
  | empty =>
      rw [LinkedTree.address_empty, if_pos rfl, decide_eq_true (nothing_iff.mp fun _ => rfl)]
      rfl
  | node a data children =>
      rw [LinkedTree.address_node, if_neg (Option.some_ne_none a),
        deref_eq holds.onHeap.represents.1, ok_bind, pure_eq_ok]
      congr 1
      rw [Bool.eq_iff_iff, decide_eq_true_iff, ← nothing_iff,
        nothing_found_iff holds.wellFormed holds.branching]
      simp [Bool.forall_bool, left, right, LinkedTree.address_eq_none_iff, and_assoc]

end MapHolds

end SkAsync.Patricia

import SkAsync.Patricia.Remove

/-!
# Removing a key

The trie is taken as it is on the heap: nodes with a bit and a key, and links
between them.  A trie is in order if its links agree, its bits increase
downwards, its keys fit the bits of their nodes, and the keys below a node
agree up to its bit and are on the edge that their next bit names.  Removing a
key keeps this, and takes away the value of that key alone.
-/

namespace SkAsync.Patricia

open SkAsync.Library PatriciaTrie

variable {T : Type}

/-- `empty`. -/
def PatriciaTrie.isEmpty (trie : PatriciaTrie T) : Except Fault Bool :=
  if trie.root = none then pure true
  else do
    let root ← deref trie.heap trie.root
    pure (root.data.value.isNone && (root.edges left).isNone && (root.edges right).isNone)

/-- What `find` leads to: a value, or none at `end()`. -/
def PatriciaTrie.foundValue (build : Build) (trie : PatriciaTrie T) (key : PatriciaKey) :
    Except Fault (Option T) := do
  let it ← find build trie key
  if it = none then pure none
  else
    let value ← iteratorValue build trie.heap it
    pure (some value)

/-! ## Tries in order -/

/-- A bit string is the key of a value in the tree. -/
def Stores : LinkedTree (NodeData T) → List Bool → Prop
  | .empty, _ => False
  | .node _ data children, q =>
      (data.value.isSome ∧ data.key.content = q) ∨ ∃ e, Stores (children e) q

@[simp]
theorem stores_empty (q : List Bool) : ¬ Stores (.empty : LinkedTree (NodeData T)) q :=
  id

/-- With a value the key ends at the bit of the node, without one it is empty. -/
structure Fitting (data : NodeData T) : Prop where
  kept : data.key.Kept
  bits_eq : data.value.isSome → data.key.bits = data.bit
  no_key : data.value = none → data.key.bits = 0

/-- The bits below a node are greater, and the keys below it agree up to its bit
and go on with their edge. -/
structure Routed (bit : Nat) (children : Bool → LinkedTree (NodeData T)) : Prop where
  increasing : ∀ e, (children e).All fun below => bit < below.bit
  agree : ∀ e e' q q', Stores (children e) q → Stores (children e') q' → q.take bit = q'.take bit
  on_edge : ∀ e q, Stores (children e) q → bitAt q bit = e

def Arranged : LinkedTree (NodeData T) → Prop
  | .empty => True
  | .node _ data children => Fitting data ∧ Routed data.bit children ∧ ∀ e, Arranged (children e)

/-- Below the root, a node without a value has two children. -/
def BranchingBelow : LinkedTree (NodeData T) → Prop
  | .empty => True
  | .node _ _ children => ∀ e, Branching (children e)

/-- The trie is the tree `t` on its heap, and in order. -/
structure InOrder (trie : PatriciaTrie T) (t : LinkedTree (NodeData T)) : Prop where
  onHeap : OnHeap trie t
  ordered : Arranged t
  branching : BranchingBelow t

/-- The root is not bound to any number of children. -/
theorem branchingBelow_iff {t : LinkedTree (NodeData T)} :
    BranchingBelow t ↔ RootBranching (fun _ => False) t := by
  cases t with
  | empty => exact Iff.rfl
  | node a data children =>
      constructor
      · intro below
        exact ⟨fun _ impossible => impossible.elim, below⟩
      · intro branching
        exact branching.2

/-! ## Keys in order -/

theorem stores_fill_iff {frame : Frame (NodeData T)} {t : LinkedTree (NodeData T)}
    {q : List Bool} :
    Stores (frame.fill t) q ↔ (frame.data.value.isSome ∧ frame.data.key.content = q) ∨
      Stores t q ∨ Stores frame.sibling q := by
  rw [Frame.fill, Stores]
  apply or_congr_right
  constructor
  · rintro ⟨e, stored⟩
    unfold LinkedTree.onEdge at stored
    split at stored
    · exact Or.inl stored
    · exact Or.inr stored
  · rintro (stored | stored)
    · exact ⟨frame.edge, by rwa [LinkedTree.onEdge_self]⟩
    · exact ⟨!frame.edge, by rwa [LinkedTree.onEdge_not]⟩

theorem Arranged.all_sound {t : LinkedTree (NodeData T)} (ordered : Arranged t) : t.All Sound := by
  induction t with
  | empty => trivial
  | node a data children ih =>
      rcases ordered with ⟨fitting, _, below⟩
      refine ⟨⟨fitting.kept, ?_⟩, fun e => ih e (below e)⟩
      cases present : data.value with
      | none =>
          rw [fitting.no_key present]
          exact Nat.zero_le _
      | some value => exact (fitting.bits_eq (by rw [present]; rfl)).le

/-- The length of a key is the bit of its node. -/
theorem Fitting.length_content {data : NodeData T} (fitting : Fitting data)
    (present : data.value.isSome) : data.key.content.length = data.bit := by
  rw [fitting.kept.length_content, fitting.bits_eq present]

/-- Keys are longer than the bits above them. -/
theorem Arranged.lt_length {t : LinkedTree (NodeData T)} {bit : Nat} {q : List Bool}
    (ordered : Arranged t) (above : t.All fun below => bit < below.bit) (stored : Stores t q) :
    bit < q.length := by
  induction t with
  | empty => exact stored.elim
  | node a data children ih =>
      rcases stored with ⟨present, rfl⟩ | ⟨e, stored⟩
      · rw [ordered.1.length_content present]
        exact above.1
      · exact ih e (ordered.2.2 e) (above.2 e) stored

theorem stores_of_lookup {t : LinkedTree (NodeData T)} {q : List Bool} {value : T}
    (found : lookup t q = some value) : Stores t q := by
  induction t with
  | empty => cases found
  | node a data children ih =>
      rw [lookup_node] at found
      split at found
      · exact Or.inr ⟨_, ih _ found⟩
      · split at found
        · rename_i content_eq
          exact Or.inl ⟨by rw [found]; rfl, content_eq⟩
        · cases found

/-- In an ordered tree the search finds exactly the keys that are there. -/
theorem Arranged.isSome_lookup_iff {t : LinkedTree (NodeData T)} {q : List Bool}
    (ordered : Arranged t) : (lookup t q).isSome ↔ Stores t q := by
  constructor
  · intro found
    rcases Option.isSome_iff_exists.mp found with ⟨value, found⟩
    exact stores_of_lookup found
  · intro stored
    induction t with
    | empty => exact stored.elim
    | node a data children ih =>
        rcases ordered with ⟨fitting, routed, below⟩
        rw [lookup_node]
        rcases stored with ⟨present, content_eq⟩ | ⟨e, stored⟩
        · have length_eq := fitting.length_content present
          rw [← content_eq, if_neg (by omega), if_pos rfl]
          exact present
        · rw [if_pos ((below e).lt_length (routed.increasing e) stored),
            routed.on_edge e q stored]
          exact ih e (below e) stored

theorem Arranged.focus {context : Context (NodeData T)} {t : LinkedTree (NodeData T)}
    (ordered : Arranged (plug context t)) : Arranged t := by
  induction context generalizing t with
  | nil => exact ordered
  | cons frame context ih =>
      have here := (ih ordered).2.2 frame.edge
      rwa [LinkedTree.onEdge_self] at here

/-- The nodes above a key lead to it. -/
theorem Arranged.follows {context : Context (NodeData T)} {t : LinkedTree (NodeData T)}
    {q : List Bool} (ordered : Arranged (plug context t)) (stored : Stores t q) :
    Follows q context := by
  induction context generalizing t with
  | nil => exact fun frame member => by cases member
  | cons frame context ih =>
      have filled := ordered.focus (t := frame.fill t)
      have whole : Arranged (plug (frame :: context) t) := ordered
      have focus := whole.focus
      have increasing := filled.2.1.increasing frame.edge
      have on_edge := filled.2.1.on_edge frame.edge q
      rw [LinkedTree.onEdge_self] at increasing on_edge
      refine List.forall_mem_cons.mpr ⟨⟨focus.lt_length increasing stored, on_edge stored⟩, ?_⟩
      exact ih ordered (stores_fill_iff.mpr (Or.inr (Or.inl stored)))

/-- A tree with fewer nodes and keys can take the place of the focus. -/
theorem Arranged.replace {context : Context (NodeData T)} {t t' : LinkedTree (NodeData T)}
    (ordered : Arranged (plug context t)) (focus : Arranged t')
    (bits : ∀ bit, (t.All fun below => bit < below.bit) → t'.All fun below => bit < below.bit)
    (keys : ∀ q, Stores t' q → Stores t q) : Arranged (plug context t') := by
  induction context generalizing t t' with
  | nil => exact focus
  | cons frame context ih =>
      rcases ordered.focus (t := frame.fill t) with ⟨fitting, routed, below⟩
      have keys' : ∀ e q, Stores (LinkedTree.onEdge frame.edge t' frame.sibling e) q →
          Stores (LinkedTree.onEdge frame.edge t frame.sibling e) q := by
        intro e q stored
        by_cases same : e = frame.edge
        · rw [same, LinkedTree.onEdge_self] at stored ⊢
          exact keys q stored
        · rw [eq_not_of_ne same, LinkedTree.onEdge_not] at stored ⊢
          exact stored
      have sibling := below (!frame.edge)
      rw [LinkedTree.onEdge_not] at sibling
      have increasing := routed.increasing
      rw [forall_onEdge_iff (fun t => t.All fun below => frame.data.bit < below.bit)] at increasing
      apply ih ordered
      · refine ⟨fitting, ⟨?_, ?_, ?_⟩, (forall_onEdge_iff Arranged).mpr ⟨focus, sibling⟩⟩
        · exact (forall_onEdge_iff _).mpr ⟨bits _ increasing.1, increasing.2⟩
        · intro e e' q q' stored stored'
          exact routed.agree e e' q q' (keys' e q stored) (keys' e' q' stored')
        · intro e q stored
          exact routed.on_edge e q (keys' e q stored)
      · intro bit all
        rw [all_fill_iff] at all ⊢
        exact ⟨all.1, bits bit all.2.1, all.2.2⟩
      · intro q stored
        rw [stores_fill_iff] at stored ⊢
        exact stored.imp_right (Or.imp_left (keys q))

/-! ## The tree that is left -/

theorem Arranged.no_keys {context : Context (NodeData T)} {t : LinkedTree (NodeData T)}
    (ordered : Arranged (plug context t)) :
    ∀ frame ∈ context, frame.data.value = none → frame.data.key.bits = 0 := by
  induction context generalizing t with
  | nil => exact fun frame member => by cases member
  | cons frame context ih =>
      exact List.forall_mem_cons.mpr ⟨(ordered.focus (t := frame.fill t)).1.no_key, ih ordered⟩

/-- Without the value of a node, the tree does not have its key, and it has the
other values as before. -/
theorem Arranged.without_value {context : Context (NodeData T)} {a : Address} {data : NodeData T}
    {children : Bool → LinkedTree (NodeData T)} {value : T}
    (ordered : Arranged (plug context (.node a data children)))
    (present : data.value = some value) :
    Arranged (plug context (.node a (cleared data) children)) ∧
      ∀ q, lookup (plug context (.node a (cleared data) children)) q =
        if q = data.key.content then none
        else lookup (plug context (.node a data children)) q := by
  rcases ordered.focus with ⟨fitting, routed, below⟩
  have isSome : data.value.isSome := by
    rw [present]
    rfl
  constructor
  · apply ordered.replace
    · exact ⟨⟨Or.inl rfl, (fun impossible => by cases impossible), fun _ => rfl⟩, routed, below⟩
    · exact fun bit all => all
    · rintro q (⟨impossible, _⟩ | below)
      · cases impossible
      · exact Or.inr below
  · intro q
    by_cases here : q = data.key.content
    · have stored : Stores (.node a data children) data.key.content := Or.inl ⟨isSome, rfl⟩
      have length_eq := fitting.length_content isSome
      have bit_eq : (cleared data).bit = data.bit := rfl
      rw [if_pos here, here, lookup_plug_of_follows (ordered.follows stored), lookup_node,
        if_neg (by omega)]
      split <;> rfl
    · rw [if_neg here]
      apply lookup_plug_eq
      rw [lookup_node, lookup_node]
      have bit_eq : (cleared data).bit = data.bit := rfl
      rw [bit_eq, if_neg (Ne.symm here)]
      split
      · rfl
      · split <;> rfl

/-- A node without a value and with at most one child has no keys of its own. -/
theorem Arranged.lookup_only_child {a : Address} {data : NodeData T}
    {children : Bool → LinkedTree (NodeData T)} {edge : Bool}
    (ordered : Arranged (.node a data children)) (noValue : data.value = none)
    (noOther : children (!edge) = .empty) (q : List Bool) :
    lookup (children edge) q = lookup (.node a data children) q := by
  rcases ordered with ⟨_, routed, below⟩
  rw [lookup_node, noValue, ite_self]
  cases found : lookup (children edge) q with
  | some value =>
      have stored := stores_of_lookup found
      rw [if_pos ((below edge).lt_length (routed.increasing edge) stored),
        routed.on_edge edge q stored, found]
  | none =>
      split
      · by_cases same : bitAt q data.bit = edge
        · rw [same, found]
        · rw [eq_not_of_ne same, noOther, lookup_empty]
      · rfl

/-- Such a node can be taken out. -/
theorem Arranged.takeOut {context : Context (NodeData T)} {a : Address} {data : NodeData T}
    {children : Bool → LinkedTree (NodeData T)} {edge : Bool}
    (ordered : Arranged (plug context (.node a data children))) (noValue : data.value = none)
    (noOther : children (!edge) = .empty) :
    Arranged (plug context (children edge)) ∧
      ∀ q, lookup (plug context (children edge)) q =
        lookup (plug context (.node a data children)) q := by
  have focus := ordered.focus
  constructor
  · apply ordered.replace (focus.2.2 edge)
    · exact fun bit all => all.2 edge
    · exact fun q stored => Or.inr ⟨edge, stored⟩
  · intro q
    apply lookup_plug_eq
    exact focus.lookup_only_child noValue noOther q

/-- Removing the node of a value leaves a trie in order, without its key. -/
theorem removeNode_inOrder (build : Build) {trie : PatriciaTrie T} {context : Context (NodeData T)}
    {a : Address} {data : NodeData T} {children : Bool → LinkedTree (NodeData T)} {value : T}
    (inOrder : InOrder trie (plug context (.node a data children)))
    (present : data.value = some value) :
    ∃ trie' t', removeNode build trie (some a) = .ok trie' ∧ InOrder trie' t' ∧
      ∀ q, lookup t' q = if q = data.key.content then none
        else lookup (plug context (.node a data children)) q := by
  rcases inOrder with ⟨onHeap, ordered, branching⟩
  have bound := onHeap.length_le
  have enough : context.length < trie.heap.size + 1 := by omega
  rcases removeLoop_eq build onHeap ordered.focus.1.no_key ordered.no_keys enough with
    ⟨trie', removed, onHeap'⟩
  have kept : Arranged (pruned context a data children) ∧
      ∀ q, lookup (pruned context a data children) q = if q = data.key.content then none
        else lookup (plug context (.node a data children)) q := by
    apply pruned_rule (fun t => Arranged t ∧ ∀ q, lookup t q = if q = data.key.content then none
      else lookup (plug context (.node a data children)) q) ordered.no_keys
    · rintro context b data' children' edge noValue noOther ⟨ordered', same⟩
      rcases ordered'.takeOut noValue noOther with ⟨ordered'', same'⟩
      exact ⟨ordered'', fun q => (same' q).trans (same q)⟩
    · exact ordered.without_value present
  have branches := (branchingBelow_iff.mp branching).focus
  refine ⟨trie', _, removed, ⟨onHeap', kept.1, ?_⟩, kept.2⟩
  exact branchingBelow_iff.mpr (pruned_branching branches.1 branches.2)

/-! ## The operations -/

/-- A node below the root stores something. -/
theorem Branching.exists_stores {t : LinkedTree (NodeData T)} (branching : Branching t)
    (nonempty : t ≠ .empty) : ∃ q, Stores t q := by
  induction t with
  | empty => exact absurd rfl nonempty
  | node a data children ih =>
      cases present : data.value with
      | some value => exact ⟨data.key.content, Or.inl ⟨by rw [present]; rfl, rfl⟩⟩
      | none =>
          rcases ih false (branching.2 false) (branching.1 present false) with ⟨q, stored⟩
          exact ⟨q, Or.inr ⟨false, stored⟩⟩

/-- `empty` says whether there is no value. -/
theorem isEmpty_spec {trie : PatriciaTrie T} {t : LinkedTree (NodeData T)}
    (inOrder : InOrder trie t) :
    ∃ noneLeft, trie.isEmpty = .ok noneLeft ∧ (noneLeft = true ↔ ∀ q, ¬ Stores t q) := by
  rcases inOrder with ⟨onHeap, _, branching⟩
  rw [isEmpty, onHeap.root_eq]
  cases t with
  | empty =>
      rw [LinkedTree.address_empty, if_pos rfl]
      exact ⟨true, rfl, fun _ => stores_empty, fun _ => rfl⟩
  | node a data children =>
      rw [LinkedTree.address_node, if_neg (Option.some_ne_none a),
        deref_eq onHeap.represents.1, ok_bind]
      refine ⟨_, rfl, ?_⟩
      dsimp only
      rw [Bool.and_eq_true, Bool.and_eq_true, Option.isNone_iff_eq_none, Option.isNone_iff_eq_none,
        Option.isNone_iff_eq_none, LinkedTree.address_eq_none_iff, LinkedTree.address_eq_none_iff]
      constructor
      · rintro ⟨⟨noValue, noLeft⟩, noRight⟩ q (⟨present, _⟩ | ⟨e, stored⟩)
        · rw [noValue] at present
          cases present
        · cases e with
          | false => exact stores_empty q (noLeft ▸ stored)
          | true => exact stores_empty q (noRight ▸ stored)
      · intro nothing
        have childless : ∀ e, children e = .empty := by
          intro e
          by_contra nonempty
          rcases (branching e).exists_stores nonempty with ⟨q, stored⟩
          exact nothing q (Or.inr ⟨e, stored⟩)
        refine ⟨⟨?_, childless left⟩, childless right⟩
        by_contra hasValue
        exact nothing data.key.content (Or.inl ⟨Option.isSome_iff_ne_none.mpr hasValue, rfl⟩)

/-- `find` leads to the value of the key. -/
theorem foundValue_eq (build : Build) {trie : PatriciaTrie T} {t : LinkedTree (NodeData T)}
    {key : PatriciaKey} (inOrder : InOrder trie t) (sized : key.Sized) :
    trie.foundValue build key = .ok (lookup t key.content) := by
  rw [foundValue]
  rcases find_eq build inOrder.onHeap inOrder.ordered.all_sound sized with
    ⟨found, absent⟩ | ⟨context, a, data, children, value, rfl, found, _, present, value_eq⟩
  · rw [found, ok_bind, if_pos rfl, absent]
    rfl
  · have live := focus_read inOrder.onHeap.represents
    rw [found, ok_bind, if_neg (Option.some_ne_none a), iteratorValue_eq build live present,
      value_eq]
    rfl

/-- Where a key has no value, `find` returns `end()`. -/
theorem find_eq_end (build : Build) {trie : PatriciaTrie T} {t : LinkedTree (NodeData T)}
    {key : PatriciaKey} (inOrder : InOrder trie t) (sized : key.Sized)
    (absent : lookup t key.content = none) : find build trie key = .ok none := by
  rcases find_spec build inOrder.onHeap inOrder.ordered.all_sound sized with ⟨it, found, ends, _⟩
  rw [found, ends absent]

/-- `remove` returns whether the key was there, and takes away that key alone. -/
theorem PatriciaTrie.remove_exact (build : Build) {trie : PatriciaTrie T}
    {t : LinkedTree (NodeData T)} {key : PatriciaKey} (inOrder : InOrder trie t)
    (sized : key.Sized) :
    ∃ removed trie' t', remove build trie key = .ok (removed, trie') ∧
      (removed = true ↔ Stores t key.content) ∧ InOrder trie' t' ∧
      find build trie' key = .ok none ∧
      (∀ other : PatriciaKey, other.Sized → other.content ≠ key.content →
        ∃ value, trie.foundValue build other = .ok value ∧
          trie'.foundValue build other = .ok value) ∧
      ∃ noneLeft, trie'.isEmpty = .ok noneLeft ∧ (noneLeft = true ↔ ∀ q, ¬ Stores t' q) := by
  have stored_iff := inOrder.ordered.isSome_lookup_iff (q := key.content)
  rcases find_eq build inOrder.onHeap inOrder.ordered.all_sound sized with
    ⟨found, absent⟩ | ⟨context, a, data, children, value, rfl, found, content_eq, present, value_eq⟩
  · have removed : remove build trie key = .ok (false, trie) := by
      rw [remove, found]
      rfl
    refine ⟨false, trie, t, removed, ?_, inOrder, found, ?_, isEmpty_spec inOrder⟩
    · rw [← stored_iff, absent]
      simp
    · intro other otherSized _
      exact ⟨_, foundValue_eq build inOrder otherSized, foundValue_eq build inOrder otherSized⟩
  · rcases removeNode_inOrder build inOrder present with ⟨trie', t', gone, inOrder', lookup_eq⟩
    rw [content_eq] at lookup_eq
    have removed : remove build trie key = .ok (true, trie') := by
      rw [remove, found, ok_bind, if_neg (Option.some_ne_none a), erase, gone]
      rfl
    refine ⟨true, trie', t', removed, ?_, inOrder', ?_, ?_, isEmpty_spec inOrder'⟩
    · rw [← stored_iff, value_eq]
      simp
    · exact find_eq_end build inOrder' sized (by rw [lookup_eq, if_pos rfl])
    · intro other otherSized different
      refine ⟨_, foundValue_eq build inOrder otherSized, ?_⟩
      rw [foundValue_eq build inOrder' otherSized, lookup_eq, if_neg different]

/-- The key of one letter, on the left edge of a root without a key. -/
def letterBelow : Bool → LinkedTree (NodeData Nat) :=
  LinkedTree.onEdge left (LinkedTree.leaf 1 ⟨8, some 7, ⟨[0x41], 8⟩⟩) .empty

def letterTrie : PatriciaTrie Nat :=
  ⟨some 0, ⟨[some ⟨⟨0, none, .empty⟩, fun e => (letterBelow e).address, none⟩,
    some ⟨⟨8, some 7, ⟨[0x41], 8⟩⟩, fun _ => none, some 0⟩]⟩⟩

theorem letterTrie_inOrder : InOrder letterTrie (.node 0 ⟨0, none, .empty⟩ letterBelow) := by
  have only : ∀ e q, Stores (letterBelow e) q →
      e = left ∧ q = [false, true, false, false, false, false, false, true] := by
    rintro (_ | _) q (⟨_, rfl⟩ | ⟨_, impossible⟩)
    · exact ⟨rfl, by decide⟩
    · exact impossible.elim
  have noSubtree : ∀ bit, Routed bit fun _ => (.empty : LinkedTree (NodeData Nat)) :=
    fun _ => ⟨fun _ => trivial, fun _ _ _ _ stored => stored.elim, fun _ _ stored => stored.elim⟩
  constructor
  · refine ⟨rfl, ⟨rfl, ?_⟩, ?_⟩
    · rintro (_ | _)
      · exact ⟨rfl, fun _ => trivial⟩
      · trivial
    · simp [LinkedTree.Distinct, letterBelow, LinkedTree.onEdge, LinkedTree.leaf]
  · refine ⟨⟨Or.inl rfl, by simp, fun _ => rfl⟩, ⟨?_, ?_, ?_⟩, ?_⟩
    · rintro (_ | _)
      · exact ⟨by decide, fun _ => trivial⟩
      · trivial
    · intro e e' q q' stored stored'
      rw [(only e q stored).2, (only e' q' stored').2]
    · intro e q stored
      rw [(only e q stored).1, (only e q stored).2]
      rfl
    · rintro (_ | _)
      · exact ⟨⟨Or.inr rfl, fun _ => rfl, by simp⟩, noSubtree 8, fun _ => trivial⟩
      · trivial
  · rintro (_ | _)
    · exact ⟨by simp, fun _ => trivial⟩
    · trivial

theorem remove_letter :
    ∃ trie' t', letterTrie.remove .debug ⟨[0x41], 8⟩ = .ok (true, trie') ∧ InOrder trie' t' ∧
      ∀ q, ¬ Stores t' q := by
  have sized : (⟨[0x41], 8⟩ : PatriciaKey).Sized := rfl
  rcases PatriciaTrie.remove_exact .debug letterTrie_inOrder sized with
    ⟨removed, trie', t', removed_eq, there, inOrder, _, _, noneLeft, empty_eq, nothing⟩
  have isThere := there.mpr (Or.inr ⟨left, Or.inl ⟨rfl, rfl⟩⟩)
  subst isThere
  refine ⟨trie', t', removed_eq, inOrder, nothing.mp ?_⟩
  have computed : ∀ found, letterTrie.remove .debug ⟨[0x41], 8⟩ = .ok (true, found) →
      found.isEmpty = .ok true := by
    rintro _ ⟨⟩
    rfl
  rw [computed trie' removed_eq] at empty_eq
  cases empty_eq
  rfl

end SkAsync.Patricia

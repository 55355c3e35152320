import SkAsync.Patricia.Growth
import SkAsync.Patricia.Locality

/-!
# The nodes of a trie

A trie that is alone on its heap has all nodes there, and an operation leaves it so: every
node that it makes is in the tree, and every node that it takes out of the tree is deleted.
-/

namespace SkAsync.Patricia

open SkAsync.Library PatriciaTrie

variable {T : Type}

/-- The nodes of the tree are all that is on the heap. -/
structure Alone (trie : PatriciaTrie T) (t : LinkedTree (NodeData T)) : Prop where
  onHeap : OnHeap trie t
  only : ∀ a, trie.heap.read a ≠ none → a ∈ t.addresses

namespace Alone

variable {trie trie' : PatriciaTrie T} {t t' : LinkedTree (NodeData T)}

theorem live_iff (alone : Alone trie t) (a : Address) :
    trie.heap.read a ≠ none ↔ a ∈ t.addresses := by
  constructor
  · exact alone.only a
  · intro inside
    rcases alone.onHeap.represents.exists_read inside with ⟨cell, live⟩
    simp [live]

/-- The tree is determined by the trie. -/
theorem of_eq (alone : Alone trie t) (onHeap : OnHeap trie t') : Alone trie t' := by
  have same := alone.onHeap.represents.unique onHeap.represents
    (alone.onHeap.root_eq.symm.trans onHeap.root_eq)
  exact same ▸ alone

end Alone

/-- Without the nodes of others, a trie is alone. -/
theorem OnHeap.restrict {trie : PatriciaTrie T} {t : LinkedTree (NodeData T)}
    (onHeap : OnHeap trie t) : Alone ⟨trie.root, trie.heap.restrict t.addresses⟩ t := by
  refine ⟨⟨onHeap.root_eq, ?_, onHeap.distinct⟩, ?_⟩
  · apply onHeap.represents.congr
    intro a inside
    rw [Heap.read_restrict, if_pos inside]
  · intro a live
    by_contra outside
    simp [Heap.read_restrict, outside] at live

/-- What is on a heap is also there with further nodes. -/
theorem OnHeap.beside {others : Address → Option (PatriciaNode T)} {root : NodePtr}
    {small big : NodeHeap T} {t : LinkedTree (NodeData T)} (onHeap : OnHeap ⟨root, small⟩ t)
    (beside : Beside others small big) : OnHeap ⟨root, big⟩ t := by
  refine ⟨onHeap.root_eq, ?_, onHeap.distinct⟩
  apply onHeap.represents.congr
  intro a inside
  rcases onHeap.represents.exists_read inside with ⟨cell, live⟩
  rw [beside.read live, live]

/-! ## Inserting -/

theorem makeRoot_alone {trie : PatriciaTrie T} {t : LinkedTree (NodeData T)}
    (alone : Alone trie t) : Alone (makeRoot trie) (rooted trie.heap.size t) := by
  refine ⟨makeRoot_spec alone.onHeap, ?_⟩
  cases t with
  | empty =>
      rw [makeRoot, alone.onHeap.root_eq, LinkedTree.address_empty, if_pos rfl]
      intro a live
      rcases (GrownBy.allocate trie.heap _).mem_or alone.only live with old | ⟨above, below⟩
      · cases old
      · simp [rooted, LinkedTree.leaf, Nat.le_antisymm (Nat.le_of_lt_succ below) above]
  | node a data children =>
      rw [makeRoot, alone.onHeap.root_eq, LinkedTree.address_node,
        if_neg (Option.some_ne_none a)]
      exact alone.only

section Place

variable {trie trie' : PatriciaTrie T} {context : Context (NodeData T)} {a : Address}
  {data : NodeData T} {children : Bool → LinkedTree (NodeData T)} {key : PatriciaKey}
  {diffbit : Nat} {place : Place T}

theorem newData_content (key : PatriciaKey) : (newData key : NodeData T).key.content = key.content := by
  unfold newData PatriciaKey.isEmpty
  by_cases noBits : key.bits = 0
  · rw [if_pos (decide_eq_true noBits), PatriciaKey.content_of_bits_eq_zero noBits,
      PatriciaKey.content_empty]
  · rw [if_neg (by simpa using noBits)]

/-- The tree of a place has the same values as with one stored, apart from it. -/
theorem Place.lookup_tree (place : Place T) (value : T) {q : List Bool}
    (other : place.data.key.content ≠ q) :
    lookup place.tree q = lookup (place.store value) q := by
  apply lookup_plug_eq
  rw [lookup_node, lookup_node, if_neg other, if_neg other]

/-- Where a new node is hung, there was no child: the values below it would be lost. -/
theorem hang_noChild (fresh : Address)
    (wellFormed : WellFormed [] (plug context (.node a data children)))
    {strict : Nat → Prop} (branching : RootBranching strict (plug context (.node a data children)))
    (new : lookup (plug context (.node a data children)) key.content = none)
    (kept : ∀ q value, lookup (plug context (.node a data children)) q = some value →
      key.content ≠ q →
        lookup (Place.hang key fresh context a data children).tree q = some value) :
    children (key.testBit data.bit) = .empty := by
  rcases wellFormed_plug_iff.mp wellFormed with ⟨lower, around, label, extends_, labelled, inside⟩
  generalize edge_eq : key.testBit data.bit = edge
  by_contra nonempty
  rcases exists_lookup nonempty (inside edge) (branching.focus.2 edge) with ⟨q, value, found⟩
  have around' : ContextWellFormed (⟨a, data, edge, children (!edge)⟩ :: context)
      (label ++ [edge]) :=
    ⟨lower, label, rfl, extends_, labelled, inside (!edge), around⟩
  have follows := around'.follows ((inside edge).prefix_of_lookup found)
  have before : lookup (plug context (.node a data children)) q = some value := by
    rw [← fill_child a data edge children, ← plug_cons, lookup_plug_of_follows follows, found]
  have other : key.content ≠ q := by
    rintro rfl
    rw [before] at new
    cases new
  -- the new node is all that is found on the edge
  have leaf : lookup (.node fresh (newData key) fun _ => .empty) q = some value := by
    rw [← kept q value before other, ← lookup_plug_of_follows follows, ← edge_eq]
    rfl
  rw [lookup_node] at leaf
  split_ifs at leaf
  · cases leaf
  · cases leaf

/-- The nodes of the tree before are among those of the place. -/
theorem mem_place {fresh : Address}
    (grafted : graft key fresh diffbit context a data children = some place)
    (noChild : place = Place.hang key fresh context a data children →
      children (key.testBit data.bit) = .empty) {b : Address}
    (inside : b ∈ (plug context (.node a data children)).addresses) :
    b ∈ place.tree.addresses := by
  have sides : ∀ e, b ∈ (LinkedTree.node a data children).addresses ↔
      b = a ∨ b ∈ (children e).addresses ∨ b ∈ (children (!e)).addresses := by
    intro e
    rw [(LinkedTree.addresses_node_perm a data e children).mem_iff, List.mem_cons,
      List.mem_append]
  rw [mem_addresses_plug] at inside
  unfold graft at grafted
  split_ifs at grafted with reuse hang nil splice
  · cases grafted
    exact mem_addresses_plug.mpr inside
  · cases grafted
    rw [sides (key.testBit data.bit), noChild rfl] at inside
    simp only [LinkedTree.addresses_empty, List.not_mem_nil, false_or] at inside
    simp only [Place.tree, Place.hang, mem_addresses_plug, Context.addresses_cons, List.mem_cons,
      List.mem_append]
    tauto
  · cases grafted
    rw [Place.tree, mem_addresses_plug]
    apply inside.imp_left
    intro below
    have child : b ∈ (LinkedTree.onEdge (data.key.testBit key.sizeBits)
        (LinkedTree.node a data children) .empty (data.key.testBit key.sizeBits)).addresses := by
      rwa [LinkedTree.onEdge_self]
    exact mem_addresses_of_child child
  · cases grafted
    simp only [Place.tree, Place.branch, mem_addresses_plug, Context.addresses_cons,
      List.mem_cons, List.mem_append]
    tauto

/-- The nodes that are made are in the tree of the place. -/
theorem placeNew_grown (build : Build) {context : Context (NodeData T)} {node : PatriciaNode T}
    (found : trie.heap.read a = some node) (data_eq : node.data = data)
    (grafted : graft key trie.heap.size diffbit context a data children = some place) :
    Returns (fun placed => ∃ count, GrownBy count trie.heap placed.2.heap ∧
      ∀ b, trie.heap.size ≤ b → b < trie.heap.size + count → b ∈ place.tree.addresses)
      (placeNew build trie (some a) key diffbit) := by
  have made := makeNode_grown trie.heap key key.sizeBits
  subst data_eq
  unfold placeNew
  rw [deref_eq found, ok_bind]
  generalize makeNode trie.heap key key.sizeBits = first at made
  rcases first with ⟨newNode, heap₀⟩
  dsimp only at made ⊢
  unfold graft at grafted
  apply returns_ite
  · intro reuse
    rw [if_pos reuse] at grafted
    exact returns_ok ⟨0, .refl _, fun b above below => absurd below (Nat.not_lt.mpr above)⟩
  · intro reuse
    rw [if_neg reuse] at grafted
    apply returns_ite
    · intro hang
      rw [if_pos hang] at grafted
      cases grafted
      apply (attachNew_grown heap₀ _ _ _).bind
      intro heap₁ grown₁
      refine returns_ok ⟨1, made.trans grown₁, fun b above below => ?_⟩
      rw [← Nat.le_antisymm above (Nat.le_of_lt_succ below)]
      exact mem_addresses_plug.mpr (.inl List.mem_cons_self)
    · intro hang
      rw [if_neg hang] at grafted
      apply returns_ite
      · intro splice
        rw [if_pos splice] at grafted
        split_ifs at grafted
        cases grafted
        apply (spliceNew_grown heap₀ build _ _ _ _).bind
        intro trie₁ grown₁
        refine returns_ok ⟨1, made.trans grown₁, fun b above below => ?_⟩
        rw [← Nat.le_antisymm above (Nat.le_of_lt_succ below)]
        exact mem_addresses_plug.mpr (.inl List.mem_cons_self)
      · intro splice
        rw [if_neg splice] at grafted
        split_ifs at grafted
        cases grafted
        apply (branchNew_grown heap₀ build _ _ _ _).bind
        intro heap₁ grown₁
        refine returns_ok ⟨2, made.trans grown₁, fun b above below => ?_⟩
        rcases Nat.lt_or_eq_of_le (Nat.le_of_lt_succ below) with lt | rfl
        · rw [← Nat.le_antisymm above (Nat.le_of_lt_succ lt)]
          exact mem_addresses_plug.mpr (.inl List.mem_cons_self)
        · exact mem_addresses_plug.mpr (.inr List.mem_cons_self)

/-- A trie that is alone stays so where a key is placed. -/
theorem placeNew_alone (build : Build)
    (alone : Alone trie (plug context (.node a data children)))
    (grafted : graft key trie.heap.size diffbit context a data children = some place)
    (noChild : place = Place.hang key trie.heap.size context a data children →
      children (key.testBit data.bit) = .empty) :
    ∃ trie', placeNew build trie (some a) key diffbit = .ok (some place.address, trie') ∧
      Alone trie' place.tree := by
  rcases placeNew_spec build alone.onHeap grafted with ⟨trie', placed, onHeap⟩
  refine ⟨trie', placed, onHeap, fun b live => ?_⟩
  have returns := placeNew_grown build (focus_read alone.onHeap.represents) rfl grafted
  rcases returns.holds _ placed with ⟨count, grown, made⟩
  rcases grown.mem_or alone.only live with old | ⟨above, below⟩
  · exact mem_place grafted noChild old
  · exact made b above below

end Place

/-- Above the root, a splice comes to a node that it has deleted. -/
theorem spliceNew_fails (build : Build) {heap : NodeHeap T} {a : Address} {node : PatriciaNode T}
    (live : heap.read a = some node) (noParent : node.parent = none) (newNode : NodePtr)
    (keylen : Nat) :
    Returns (fun _ => False) (spliceNew build ⟨some a, heap⟩ (some a) newNode keylen) := by
  unfold spliceNew
  rw [deref_eq live, ok_bind]
  apply returns_bind
  intro heap₁ _
  rw [if_pos noParent]
  apply (deleteSelf_gone heap₁ a).bind
  intro heap₂ gone
  apply returns_bind
  intro heap₃ updated
  rcases update_eq_ok_iff.mp updated with ⟨_, _, same, present, _⟩
  cases same
  rw [gone] at present
  cases present

/-- Where there is no place, `placeNew` does not return. -/
theorem placeNew_fails (build : Build) {trie : PatriciaTrie T} {context : Context (NodeData T)}
    {a : Address} {data : NodeData T} {children : Bool → LinkedTree (NodeData T)}
    {key : PatriciaKey} {diffbit : Nat}
    (onHeap : OnHeap trie (plug context (.node a data children)))
    (noPlace : graft key trie.heap.size diffbit context a data children = none) :
    Returns (fun _ => False) (placeNew build trie (some a) key diffbit) := by
  unfold graft at noPlace
  split_ifs at noPlace with reuse hang nil
  subst nil
  by_cases splice : key.sizeBits = diffbit
  · have live := onHeap.represents.1
    have kept : (trie.heap.allocate (newCell key)).read a =
        some ⟨data, fun e => (children e).address, none⟩ := by
      rw [Heap.read_allocate, if_neg (Heap.lt_size_of_read live).ne, live]
    have root_eq : trie.root = some a := onHeap.root_eq
    have made_eq : makeNode trie.heap key key.sizeBits =
        (some trie.heap.size, trie.heap.allocate (newCell key)) := rfl
    unfold placeNew
    rw [deref_eq live, ok_bind, if_neg reuse]
    dsimp only
    rw [made_eq, if_neg hang, if_pos splice, root_eq]
    apply (spliceNew_fails build kept rfl (some trie.heap.size) key.sizeBits).bind
    exact fun _ impossible => impossible.elim
  · rw [placeNew_of_no_parent build onHeap hang splice]
    exact returns_error _ _

/-- An insertion loses no node. -/
theorem insertNode_alone (build : Build) {trie trie' : PatriciaTrie T}
    {t : LinkedTree (NodeData T)} {key : PatriciaKey} {root : Address} {place : Place T}
    (alone : Alone trie t) (wellFormed : WellFormed [] t) (branching : RootBranching (· ≠ 0) t)
    (inserted : Inserted (· ≠ 0) key (rooted root t) place)
    (done : insertNode build trie key = .ok (some place.address, trie'))
    (onHeap : OnHeap trie' place.tree) : Alone trie' place.tree := by
  rcases insertNode_stops build alone.onHeap key with
    ⟨root', passed, context, bottom, below, a, data, children, diffbit, stopped, onHeap₁, placed⟩
  have alone₁ : Alone (makeRoot trie) (plug context (.node a data children)) :=
    (makeRoot_alone alone).of_eq onHeap₁
  rw [placed] at done
  cases grafted : graft key (makeRoot trie).heap.size diffbit context a data children with
  | none => exact ((placeNew_fails build onHeap₁ grafted).holds _ done).elim
  | some other =>
      have tree_eq := stopped.tree_eq
      rcases placeNew_spec build onHeap₁ grafted with ⟨trie₂, done₂, onHeap₂⟩
      rw [done] at done₂
      injection done₂ with done₂
      injection done₂ with address_eq trie_eq
      subst trie_eq
      have place_eq : place.tree = other.tree := by
        apply onHeap.represents.unique onHeap₂.represents
        rw [← onHeap.root_eq, ← onHeap₂.root_eq]
      have data_eq : place.data = other.data := by
        have first := focus_read onHeap.represents
        have second := focus_read onHeap₂.represents
        rw [Option.some.inj address_eq, second] at first
        simp only [Option.some.injEq, Cell.mk.injEq] at first
        exact first.1.symm
      have noChild : other = Place.hang key (makeRoot trie).heap.size context a data children →
          children (key.testBit data.bit) = .empty := by
        rintro rfl
        have new := inserted.value_eq
        rw [data_eq, lookup_rooted] at new
        apply hang_noChild (makeRoot trie).heap.size
          (tree_eq ▸ rooted_wellFormed root' wellFormed)
          (tree_eq ▸ rooted_branching root' branching)
        · rw [tree_eq, lookup_rooted]
          exact new.symm
        · intro q value before different
          have notHere : place.data.key.content ≠ q := by
            rw [data_eq]
            exact fun same => different ((newData_content (T := T) key).symm.trans same)
          rw [← place_eq, place.lookup_tree value notHere, inserted.lookup_eq,
            if_neg (Ne.symm different), lookup_rooted, ← lookup_rooted root' t, ← tree_eq, before]
      rcases placeNew_alone build alone₁ grafted noChild with ⟨trie₃, done₃, alone₃⟩
      rw [done] at done₃
      injection done₃ with done₃
      injection done₃ with _ trie_eq
      rw [trie_eq, place_eq]
      exact alone₃

/-! ## Removing -/

section Pruning

variable (build : Build) {trie : PatriciaTrie T} {context : Context (NodeData T)} {a : Address}
  {data : NodeData T} {children : Bool → LinkedTree (NodeData T)}

/-- Below a node that has not two children, everything is below the only child. -/
theorem mem_onlyChild (notBoth : ¬ ∀ e, children e ≠ .empty) {b : Address}
    (inside : b ∈ (LinkedTree.node a data children).addresses) :
    b = a ∨ b ∈ (onlyChild children).addresses := by
  rw [LinkedTree.addresses_node, List.mem_cons, List.mem_append] at inside
  apply inside.imp_right
  by_cases childless : ∀ e, children e = .empty
  · simp [childless left, childless right]
  · rcases only_child notBoth childless with ⟨edge, chosen, _, noOther⟩
    rw [onlyChild, chosen]
    cases edge with
    | false =>
        have noRight : children true = .empty := noOther
        simp [noRight]
    | true =>
        have noLeft : children false = .empty := noOther
        simp [noLeft]

theorem clearValue_alone (alone : Alone trie (plug context (.node a data children))) :
    ∃ heap', clearValue trie.heap (some a) = .ok heap' ∧
      Alone ⟨trie.root, heap'⟩ (plug context (.node a (cleared data) children)) := by
  rcases clearValue_spec alone.onHeap with ⟨heap', clear_eq, onHeap⟩
  refine ⟨heap', clear_eq, onHeap, fun b live => ?_⟩
  have grown := (update_grown trie.heap _ _).holds heap' clear_eq
  rcases grown.mem_or alone.only live with old | ⟨above, below⟩
  · rw [mem_addresses_plug] at old ⊢
    exact old
  · exact absurd below (Nat.not_lt.mpr above)

theorem removeRoot_alone (alone : Alone trie (.node a data children))
    (noKey : data.value = none → data.key.bits = 0) (notBoth : ¬ ∀ e, children e ≠ .empty) :
    ∃ trie', removeRoot build trie (some a) = .ok trie' ∧
      Alone trie' (pruned [] a data children) := by
  have old : ∀ {trie'}, removeRoot build trie (some a) = .ok trie' → ∀ b,
      trie'.heap.read b ≠ none → b ∈ (LinkedTree.node a data children).addresses := by
    intro trie' removed b live
    have grown := ((removeRoot_grown build trie.heap trie.root a).holds trie' removed).1
    rcases grown.mem_or alone.only live with old | ⟨above, below⟩
    · exact old
    · exact absurd below (Nat.not_lt.mpr above)
  unfold pruned
  by_cases childless : ∀ e, children e = .empty
  · rcases removeRoot_of_childless build alone.onHeap noKey childless with
      ⟨trie', removed, onHeap⟩
    rw [if_neg (fun one => (childCount_eq_one_iff.mp one).2 childless)]
    exact ⟨trie', removed, onHeap, old removed⟩
  · rcases only_child notBoth childless with ⟨edge, chosen, child, noOther⟩
    rcases removeRoot_of_child build alone.onHeap noKey chosen child noOther with
      ⟨trie', removed, onHeap⟩
    rw [if_pos (childCount_eq_one_iff.mpr ⟨notBoth, childless⟩)]
    have only_eq : onlyChild children = children edge := by
      rw [onlyChild, chosen]
    rw [only_eq]
    refine ⟨trie', removed, onHeap, fun b live => ?_⟩
    rcases mem_onlyChild notBoth (old removed b live) with rfl | inside
    · -- the old root is not the new one, which is below it
      exfalso
      rcases ((removeRoot_grown build trie.heap trie.root b).holds trie' removed).2 with
        same | gone
      · rw [onHeap.root_eq, alone.onHeap.root_eq] at same
        have distinct : (plug [] (LinkedTree.node b data children)).Distinct :=
          alone.onHeap.distinct
        have notBelow := (distinct.apart edge).1.1
        rcases (children edge).empty_or_node with none_ | ⟨c, data', children', child_eq⟩
        · exact child none_
        · rw [child_eq] at same notBelow
          cases same
          exact notBelow List.mem_cons_self
      · exact live gone
    · rwa [only_eq] at inside

theorem removeBelow_alone {frame : Frame (NodeData T)}
    (alone : Alone trie (plug (frame :: context) (.node a data children)))
    (notBoth : ¬ ∀ e, children e ≠ .empty) :
    ∃ heap', removeBelow build trie.heap (some a) = .ok (some frame.address, heap') ∧
      Alone ⟨trie.root, heap'⟩ (plug (frame :: context) (onlyChild children)) := by
  rcases removeBelow_eq build alone.onHeap notBoth with ⟨heap', removed, onHeap⟩
  refine ⟨heap', removed, onHeap, fun b live => ?_⟩
  rcases (removeBelow_grown build trie.heap a).holds _ removed with ⟨grown, gone⟩
  rcases grown.mem_or alone.only live with old | ⟨above, below⟩
  · rcases mem_addresses_plug.mp old with inside | around
    · rcases mem_onlyChild notBoth inside with rfl | below
      · exact absurd gone live
      · exact mem_addresses_plug.mpr (.inl below)
    · exact mem_addresses_plug.mpr (.inr around)
  · exact absurd below (Nat.not_lt.mpr above)

/-- The loop deletes the nodes that are not in the pruned tree.  The induction is on the
nodes above. -/
theorem removeLoop_alone :
    ∀ {trie trie' : PatriciaTrie T} {a : Address} {data : NodeData T}
      {children : Bool → LinkedTree (NodeData T)} {fuel : Nat},
    Alone trie (plug context (.node a data children)) →
    (data.value = none → data.key.bits = 0) →
    (∀ frame ∈ context, frame.data.value = none → frame.data.key.bits = 0) →
    removeLoop build fuel trie (some a) = .ok trie' →
    Alone trie' (pruned context a data children) := by
  induction context with
  | nil =>
      intro trie trie' a data children fuel alone noKey _ removed
      cases fuel with
      | zero => cases removed
      | succ fuel =>
          have isRoot : some a = trie.root := alone.onHeap.root_eq.symm
          rw [removeLoop, focus_deref alone.onHeap.represents, ok_bind, edgecount_eq] at removed
          by_cases both : childCount children = 2
          · rcases clearValue_alone alone with ⟨heap', clear_eq, alone'⟩
            rw [if_pos both, clear_eq] at removed
            cases removed
            rw [pruned, if_neg (by rw [both]; decide)]
            exact alone'
          · have notBoth := mt childCount_eq_two_iff.mpr both
            rcases removeRoot_alone build alone noKey notBoth with ⟨trie'', removed', alone'⟩
            rw [if_neg both, if_pos isRoot, removed'] at removed
            cases removed
            exact alone'
  | cons frame context ih =>
      intro trie trie' a data children fuel alone noKey noKeys removed
      cases fuel with
      | zero => cases removed
      | succ fuel =>
          rw [List.forall_mem_cons] at noKeys
          rw [removeLoop, focus_deref alone.onHeap.represents, ok_bind, edgecount_eq] at removed
          rw [pruned]
          by_cases both : childCount children = 2
          · rcases clearValue_alone alone with ⟨heap', clear_eq, alone'⟩
            rw [if_pos both, clear_eq] at removed
            cases removed
            rw [if_pos both]
            exact alone'
          · have notBoth := mt childCount_eq_two_iff.mpr both
            rcases removeBelow_alone build alone notBoth with ⟨heap', removed', alone'⟩
            have above : Alone ⟨trie.root, heap'⟩ (plug context (.node frame.address frame.data
                (LinkedTree.onEdge frame.edge (onlyChild children) frame.sibling))) := alone'
            rw [if_neg both, if_neg (root_ne_focus alone.onHeap), removed', ok_bind] at removed
            dsimp only at removed
            rw [focus_deref above.onHeap.represents, ok_bind] at removed
            dsimp only at removed
            rw [if_neg both]
            by_cases goes : frame.data.value.isNone = true ∧
                childCount (LinkedTree.onEdge frame.edge (onlyChild children) frame.sibling) ≠ 2
            · rw [if_pos ⟨goes.1, childCount_ne_two_iff.mp goes.2⟩] at removed
              rw [if_pos goes]
              exact ih above noKeys.1 noKeys.2 removed
            · rw [if_neg fun asked => goes ⟨asked.1, childCount_ne_two_iff.mpr asked.2⟩] at removed
              cases removed
              rw [if_neg goes]
              exact alone'

/-- A removal loses no node. -/
theorem removeNode_alone {trie' : PatriciaTrie T} {t' : LinkedTree (NodeData T)}
    (alone : Alone trie (plug context (.node a data children)))
    (wellFormed : WellFormed [] (plug context (.node a data children)))
    (removed : removeNode build trie (some a) = .ok trie') (onHeap : OnHeap trie' t') :
    Alone trie' t' := by
  rcases wellFormed_plug_iff.mp wellFormed with ⟨lower, around, label, _, labelled, _⟩
  exact (removeLoop_alone build alone labelled.no_key around.no_keys removed).of_eq onHeap

end Pruning

end SkAsync.Patricia

import SkAsync.Patricia.Ownership
import SkAsync.Patricia.Teardown

/-!
# Tries that share a heap

What an operation does to a trie that is alone, it does on every heap: the nodes of the
tree are exchanged for those of the tree that it leaves, and the nodes of other tries stay
as they are.  A copy is a tree of new nodes beside the original.
-/

namespace SkAsync.Patricia

open SkAsync.Library PatriciaTrie

variable {T : Type}

/-! ## The tree of a copy -/

section Similar

variable {t t' : LinkedTree (NodeData T)}

theorem similar_empty_iff (similar : t.Similar Copied t') : t = .empty ↔ t' = .empty := by
  cases t with
  | empty =>
      cases t' with
      | empty => simp
      | node a' data' children' => exact similar.elim
  | node a data children =>
      cases t' with
      | empty => exact similar.elim
      | node a' data' children' => simp

/-- Two trees with the same nodes have the same values. -/
theorem similar_lookup (similar : t.Similar Copied t') (q : List Bool) :
    lookup t' q = lookup t q := by
  induction t generalizing t' with
  | empty =>
      cases t' with
      | empty => rfl
      | node a' data' children' => exact similar.elim
  | node a data children ih =>
      cases t' with
      | empty => exact similar.elim
      | node a' data' children' =>
          rcases similar with ⟨copied, below⟩
          rw [lookup_node, lookup_node, copied.bit_eq, copied.content_eq, copied.value_eq,
            ih _ (below _)]

theorem similar_length (similar : t.Similar Copied t') :
    t'.addresses.length = t.addresses.length := by
  induction t generalizing t' with
  | empty =>
      cases t' with
      | empty => rfl
      | node a' data' children' => exact similar.elim
  | node a data children ih =>
      cases t' with
      | empty => exact similar.elim
      | node a' data' children' =>
          simp [ih false (similar.2 false), ih true (similar.2 true)]

theorem similar_wellFormed {lower : List Bool} (similar : t.Similar Copied t')
    (keys : t'.All fun data => data.key.Kept) (wellFormed : WellFormed lower t) :
    WellFormed lower t' := by
  induction t generalizing t' lower with
  | empty =>
      cases t' with
      | empty => trivial
      | node a' data' children' => exact similar.elim
  | node a data children ih =>
      cases t' with
      | empty => exact similar.elim
      | node a' data' children' =>
          rcases similar with ⟨copied, below⟩
          rcases wellFormed with ⟨label, extends_, labelled, inside⟩
          refine ⟨label, extends_, ⟨?_, keys.1, ?_, ?_⟩, fun e =>
            ih e (below e) (keys.2 e) (inside e)⟩
          · rw [copied.bit_eq]
            exact labelled.length_eq
          · rw [copied.value_eq, copied.content_eq]
            exact labelled.content_eq
          · rw [copied.value_eq, copied.bits_eq]
            exact labelled.no_key

theorem similar_branching (similar : t.Similar Copied t') (branching : Branching t) :
    Branching t' := by
  induction t generalizing t' with
  | empty =>
      cases t' with
      | empty => trivial
      | node a' data' children' => exact similar.elim
  | node a data children ih =>
      cases t' with
      | empty => exact similar.elim
      | node a' data' children' =>
          rcases similar with ⟨copied, below⟩
          refine ⟨?_, fun e => ih e (below e) (branching.2 e)⟩
          rw [copied.value_eq]
          exact fun noValue e => mt (similar_empty_iff (below e)).mpr (branching.1 noValue e)

theorem similar_rootBranching {strict : Nat → Prop} (similar : t.Similar Copied t')
    (branching : RootBranching strict t) : RootBranching strict t' := by
  cases t with
  | empty =>
      cases t' with
      | empty => trivial
      | node a' data' children' => exact similar.elim
  | node a data children =>
      cases t' with
      | empty => exact similar.elim
      | node a' data' children' =>
          rcases similar with ⟨copied, below⟩
          refine ⟨?_, fun e => similar_branching (below e) (branching.2 e)⟩
          rw [copied.value_eq, copied.bit_eq]
          intro noValue isStrict
          apply (branching.1 noValue isStrict).imp
          · exact fun both e => mt (similar_empty_iff (below e)).mpr (both e)
          · exact fun neither e => (similar_empty_iff (below e)).mp (neither e)

end Similar

/-! ## Keys of the nodes -/

/-- The keys of a well-formed tree are keys that a node may have. -/
theorem WellFormed.keys {lower : List Bool} {t : LinkedTree (NodeData T)}
    (wellFormed : WellFormed lower t) : t.All fun data => data.key.Kept := by
  induction t generalizing lower with
  | empty => trivial
  | node a data children ih =>
      rcases wellFormed with ⟨label, _, labelled, inside⟩
      exact ⟨labelled.kept, fun e => ih e (inside e)⟩

theorem Alone.keysKept {trie : PatriciaTrie T} {t : LinkedTree (NodeData T)}
    (alone : Alone trie t) (wellFormed : WellFormed [] t) : KeysKept trie.heap := by
  intro a node live
  have inside := alone.only a (by simp [live])
  exact alone.onHeap.represents.data_of_all wellFormed.keys inside live

/-! ## Copying -/

section Copy

variable {heap : NodeHeap T} {a : Address} {data : NodeData T}
  {children : Bool → LinkedTree (NodeData T)}

/-- A copy makes no more nodes than the original has. -/
theorem copy_extends (represented : Represents heap none (.node a data children))
    (distinct : (LinkedTree.node a data children).Distinct) (child : ∃ e, children e ≠ .empty) :
    Returns (fun made => Extends (LinkedTree.node a data children).addresses.length heap made.2)
      (copy heap (some a)) := by
  rcases copying_root represented distinct with ⟨made, made_ok, size_eq, copying⟩
  have behind : (following [] children).length + 1 ≤
      (LinkedTree.node a data children).addresses.length := length_following_lt a data
  have bound := represented.length_le distinct
  -- the loop ends when there is just enough fuel
  rcases copyLoop_spec copying (fun _ => child) (Nat.lt_succ_self _) with ⟨heap', _, looped, _⟩
  have first := (shallowCopy_extends heap (some a)).holds _ made_ok
  have rest := (copyLoop_extends made _ (some a) (some heap.size)).holds heap' looped
  have whole : copyLoop (made.size + 1) made (some a) (some heap.size) = .ok heap' :=
    copyLoop_mono (by omega) looped
  rw [copy, made_ok, ok_bind]
  dsimp only
  rw [whole, ok_bind]
  apply returns_ok
  refine ⟨(first.grown.trans rest.grown).mono (by omega), rest.keys ∘ first.keys⟩

/-- Distinct new addresses, as many as can be, are all of them. -/
theorem mem_of_bounded {addresses : List Address} (nodup : addresses.Nodup) {start count : Nat}
    (length_eq : addresses.length = count) (inside : ∀ b ∈ addresses, start ≤ b ∧ b < start + count)
    {b : Address} (above : start ≤ b) (below : b < start + count) : b ∈ addresses := by
  have sub : addresses ⊆ List.range' start count := by
    intro c member
    rw [List.mem_range'_1]
    exact inside c member
  have perm := (List.subperm_of_subset nodup sub).perm_of_length_le (by simp [length_eq])
  rw [perm.mem_iff, List.mem_range'_1]
  exact ⟨above, below⟩

/-- The copy of a trie that is alone. -/
theorem copy_alone {root : NodePtr} {strict : Nat → Prop}
    (alone : Alone ⟨root, heap⟩ (.node a data children))
    (wellFormed : WellFormed [] (.node a data children))
    (branching : RootBranching strict (.node a data children))
    (child : ∃ e, children e ≠ .empty) :
    ∃ root' heap' t', copy heap root = .ok (root', heap') ∧ OnHeap ⟨root', heap'⟩ t' ∧
      WellFormed [] t' ∧ RootBranching strict t' ∧
      (∀ q, lookup t' q = lookup (.node a data children) q) ∧
      (∀ b node, heap.read b = some node → heap'.read b = some node) ∧
      (∀ b ∈ t'.addresses, heap.read b = none) ∧
      ∀ b, heap'.read b ≠ none →
        b ∈ (LinkedTree.node a data children).addresses ∨ b ∈ t'.addresses := by
  have root_eq : root = some a := alone.onHeap.root_eq
  subst root_eq
  rcases copy_faithful alone.onHeap.represents alone.onHeap.distinct child with
    ⟨heap', t', made, represented, distinct, fresh, similar, _, kept⟩
  have extends_ := (copy_extends alone.onHeap.represents alone.onHeap.distinct child).holds _ made
  have keys : t'.All fun data => data.key.Kept :=
    represented.all (extends_.keys (alone.keysKept wellFormed))
  have inside : ∀ b ∈ t'.addresses, heap.size ≤ b ∧
      b < heap.size + (LinkedTree.node a data children).addresses.length := by
    intro b member
    rcases represented.exists_read member with ⟨cell, live⟩
    constructor
    · rcases extends_.grown.live b (by simp [live]) with old | new
      · exact absurd (fresh b member) old
      · exact new
    · exact (represented.lt_size member).trans_le extends_.grown.size_le
  refine ⟨t'.address, heap', t', made, ⟨rfl, represented, distinct⟩,
    similar_wellFormed similar keys wellFormed, similar_rootBranching similar branching,
    similar_lookup similar, kept, fresh, fun b live => ?_⟩
  rcases extends_.grown.mem_or alone.only live with old | ⟨above, below⟩
  · exact .inl old
  · exact .inr (mem_of_bounded distinct (similar_length similar) inside above below)

/-- A copy is a tree of new nodes, and there are no others. -/
theorem copy_exchanged {root : NodePtr} {strict : Nat → Prop}
    (onHeap : OnHeap ⟨root, heap⟩ (.node a data children))
    (wellFormed : WellFormed [] (.node a data children))
    (branching : RootBranching strict (.node a data children))
    (child : ∃ e, children e ≠ .empty) :
    ∃ root' heap' t', copy heap root = .ok (root', heap') ∧ OnHeap ⟨root', heap'⟩ t' ∧
      WellFormed [] t' ∧ RootBranching strict t' ∧
      (∀ q, lookup t' q = lookup (.node a data children) q) ∧
      Exchanged heap heap' [] t'.addresses := by
  have beside := beside_restrict heap (LinkedTree.node a data children).addresses
  rcases copy_alone onHeap.restrict wellFormed branching child with
    ⟨root', small', t', made, onHeap', wellFormed', branching', lookup_eq, kept, fresh, only⟩
  rcases copy_repeats beside root _ made with ⟨_, made', ⟨_, beside'⟩⟩
  refine ⟨root', _, t', made', onHeap'.beside beside', wellFormed', branching', lookup_eq,
    .of_beside_kept beside' kept fresh ?_ ?_ only⟩
  · intro b member
    rcases onHeap'.represents.exists_read member with ⟨cell, live⟩
    simp [live]
  · intro b member
    rcases onHeap.represents.exists_read member with ⟨cell, live⟩
    simp [live]

end Copy

/-! ## Inserting and removing -/

theorem OnHeap.exchanged_refl {root : NodePtr} {heap : NodeHeap T} {t : LinkedTree (NodeData T)}
    (onHeap : OnHeap ⟨root, heap⟩ t) : Exchanged heap heap t.addresses t.addresses := by
  apply Exchanged.refl
  intro a inside
  rcases onHeap.represents.exists_read inside with ⟨cell, live⟩
  simp [live]

section Change

variable {root : NodePtr} {heap : NodeHeap T} {t : LinkedTree (NodeData T)}

theorem insertNode_exchanged (build : Build) {key : PatriciaKey} (onHeap : OnHeap ⟨root, heap⟩ t)
    (wellFormed : WellFormed [] t) (branching : RootBranching (· ≠ 0) t) (sized : key.Sized)
    (admits : ∀ top, Admits (rooted top t) key) :
    ∃ top place root' heap', insertNode build ⟨root, heap⟩ key =
        .ok (some place.address, ⟨root', heap'⟩) ∧ OnHeap ⟨root', heap'⟩ place.tree ∧
      Inserted (· ≠ 0) key (rooted top t) place ∧
      Exchanged heap heap' t.addresses place.tree.addresses := by
  have beside := TrieBeside.mk root (beside_restrict heap t.addresses)
  rcases insertNode_inserted build onHeap.restrict.onHeap wellFormed branching sized admits with
    ⟨top, _, _, _, _, _, _, place, trie', _, _, done, onHeap', inserted⟩
  have alone := insertNode_alone build onHeap.restrict wellFormed branching inserted done onHeap'
  rcases insertNode_repeats build beside key _ done with ⟨_, done', ⟨_, ⟨root', beside'⟩⟩⟩
  exact ⟨top, place, root', _, done', onHeap'.beside beside', inserted,
    .of_beside beside' alone.live_iff⟩

/-- What a node stores can be changed where it is. -/
theorem update_exchanged {context : Context (NodeData T)} {a : Address} {data : NodeData T}
    {children : Bool → LinkedTree (NodeData T)}
    (onHeap : OnHeap ⟨root, heap⟩ (plug context (.node a data children)))
    (change : NodeData T → NodeData T) :
    ∃ heap', update heap (some a) (fun n => { n with data := change n.data }) = .ok heap' ∧
      OnHeap ⟨root, heap'⟩ (plug context (.node a (change data) children)) ∧
      Exchanged heap heap' (plug context (.node a data children)).addresses
        (plug context (.node a (change data) children)).addresses := by
  rcases update_focus onHeap change with ⟨heap', updated, onHeap'⟩
  have same : ∀ b, b ∈ (plug context (.node a (change data) children)).addresses ↔
      b ∈ (plug context (.node a data children)).addresses := by
    intro b
    simp [mem_addresses_plug]
  have here : a ∈ (plug context (.node a data children)).addresses :=
    mem_addresses_plug.mpr (.inl List.mem_cons_self)
  rcases update_eq_ok_iff.mp updated with ⟨b, node, address_eq, live, rfl⟩
  cases address_eq
  refine ⟨_, updated, onHeap', ?_⟩
  have read_eq := Heap.read_write (Heap.lt_size_of_read live)
    { node with data := change node.data }
  constructor
  · intro b outside _
    rw [read_eq, if_neg]
    rintro rfl
    exact outside here
  · exact fun b member => .inl ((same b).mp member)
  · intro b member
    rcases onHeap'.represents.exists_read member with ⟨cell, live'⟩
    simp [live']
  · intro b live'
    by_cases inside : b ∈ (plug context (.node a data children)).addresses
    · exact .inl ((same b).mpr inside)
    · right
      rw [read_eq, if_neg] at live'
      · exact ⟨inside, live'⟩
      · rintro rfl
        exact inside here

theorem removeNode_exchanged (build : Build) {strict : Nat → Prop}
    {context : Context (NodeData T)} {a : Address} {data : NodeData T}
    {children : Bool → LinkedTree (NodeData T)} {value : T}
    (onHeap : OnHeap ⟨root, heap⟩ (plug context (.node a data children)))
    (wellFormed : WellFormed [] (plug context (.node a data children)))
    (branching : RootBranching strict (plug context (.node a data children)))
    (hasValue : data.value = some value) :
    ∃ root' heap' t', removeNode build ⟨root, heap⟩ (some a) = .ok ⟨root', heap'⟩ ∧
      Left strict ⟨root', heap'⟩ (fun q => if q = data.key.content then none
        else lookup (plug context (.node a data children)) q) t' ∧
      Exchanged heap heap' (plug context (.node a data children)).addresses t'.addresses := by
  have beside := TrieBeside.mk root
    (beside_restrict heap (plug context (LinkedTree.node a data children)).addresses)
  rcases removeNode_spec build onHeap.restrict.onHeap wellFormed branching hasValue with
    ⟨trie', t', removed, left⟩
  have alone := removeNode_alone build onHeap.restrict wellFormed removed left.onHeap
  rcases removeNode_repeats build beside _ _ removed with ⟨_, removed', ⟨root', beside'⟩⟩
  exact ⟨root', _, t', removed', ⟨left.onHeap.beside beside', left.wellFormed, left.branching,
    left.lookup_eq⟩, .of_beside beside' alone.live_iff⟩

/-- `delete_self` of a root gives up the nodes of its tree. -/
theorem deleteSelf_exchanged {a : Address} {data : NodeData T}
    {children : Bool → LinkedTree (NodeData T)}
    (onHeap : OnHeap ⟨root, heap⟩ (.node a data children)) :
    ∃ heap', deleteSelf heap root = .ok heap' ∧
      Exchanged heap heap' (LinkedTree.node a data children).addresses [] := by
  have root_eq : root = some a := onHeap.root_eq
  rcases deleteSelf_spec onHeap.represents onHeap.distinct with ⟨heap', deleted, _, read_eq⟩
  refine ⟨heap', root_eq ▸ deleted, ?_, by simp, by simp, ?_⟩
  · intro b outside _
    rw [read_eq, if_neg outside]
  · intro b live
    rw [read_eq] at live
    split_ifs at live with inside
    · exact absurd rfl live
    · exact .inr ⟨inside, live⟩

end Change

end SkAsync.Patricia

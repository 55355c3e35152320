import SkAsync.Patricia.Insert
import SkAsync.Patricia.Radix

/-!
# Finding a key

`find_node` follows the bits of the key and compares once at the end, as
`lookup` does.  Nothing is needed of the tree but that no key is longer than
the bit of its node.
-/

namespace SkAsync.Patricia

open SkAsync.Library PatriciaTrie

variable {T : Type}

/-- The key of a node was made from enough bytes, and it is not longer than the
bit of the node. -/
def Sound (data : NodeData T) : Prop :=
  data.key.Kept ∧ data.key.bits ≤ data.bit

theorem WellFormed.all_sound {lower : List Bool} {t : LinkedTree (NodeData T)}
    (wellFormed : WellFormed lower t) : t.All Sound := by
  induction t generalizing lower with
  | empty => trivial
  | node a data children ih =>
      rcases wellFormed with ⟨label, _, labelled, below⟩
      refine ⟨⟨labelled.kept, ?_⟩, fun e => ih e (below e)⟩
      cases found : data.value with
      | none =>
          rw [labelled.no_key found]
          exact Nat.zero_le _
      | some value =>
          rw [← labelled.kept.length_content, labelled.content_eq (by rw [found]; rfl),
            labelled.length_eq]

/-- A walk down with a key follows its bit string. -/
theorem follows_of_searching {key : PatriciaKey} {context : Context (NodeData T)}
    (sized : key.Sized)
    (asked : ∀ frame ∈ context,
      searching key frame.data = true ∧ frame.edge = turn key frame.data) :
    Follows key.content context := by
  intro frame member
  rcases asked frame member with ⟨asks, edge_eq⟩
  have inside : frame.data.bit < key.bits := of_decide_eq_true asks
  refine ⟨sized.length_content ▸ inside, ?_⟩
  rw [edge_eq, turn, PatriciaKey.testBit_eq_bitAt inside]

/-- Where the first loop of `find_node` and `prefix_match` ends. -/
theorem descendLoop_spec {trie : PatriciaTrie T} {t : LinkedTree (NodeData T)} {key : PatriciaKey}
    (onHeap : OnHeap trie t) (nonempty : t ≠ .empty) (sized : key.Sized) :
    ∃ context a data children, plug context (.node a data children) = t ∧
      descendLoop (searching key) key trie.heap (trie.heap.size + 1) trie.root = .ok (some a) ∧
      Follows key.content context ∧
      (data.bit < key.bits → children (bitAt key.content data.bit) = .empty) := by
  rcases walked : t.descend (searching key) (turn key) [] with ⟨context, found⟩
  have same := plug_descend (searching key) (turn key) [] t
  rw [walked, plug_nil] at same
  rcases descend_end walked nonempty (by simp) with ⟨asked, a, data, children, rfl, ends⟩
  refine ⟨context, a, data, children, same, ?_, follows_of_searching sized asked, ?_⟩
  · have enough := onHeap.represents.length_le onHeap.distinct
    rw [onHeap.root_eq, descendLoop_eq [] onHeap.represents nonempty
      (enough.trans (Nat.le_succ _)), walked]
    rfl
  · intro inside
    have empty := ends (decide_eq_true inside)
    rwa [turn, PatriciaKey.testBit_eq_bitAt inside] at empty

/-- `find_node` returns a node with the value of the bit string, or no node if
there is none. -/
theorem findNode_spec (build : Build) {trie : PatriciaTrie T} {t : LinkedTree (NodeData T)}
    {key : PatriciaKey} (onHeap : OnHeap trie t) (sound : t.All Sound) (sized : key.Sized) :
    (findNode build trie key = .ok none ∧ lookup t key.content = none) ∨
      ∃ context a data children, plug context (.node a data children) = t ∧
        findNode build trie key = .ok (some a) ∧ data.key.content = key.content ∧
        data.value = lookup t key.content := by
  unfold findNode
  by_cases nonempty : t = .empty
  · subst nonempty
    left
    rw [onHeap.root_eq, LinkedTree.address_empty, if_pos rfl]
    exact ⟨rfl, rfl⟩
  · rcases descendLoop_spec onHeap nonempty sized with
      ⟨context, a, data, children, rfl, down, follows, ends⟩
    have notNull : trie.root ≠ none := by
      rw [onHeap.root_eq]
      exact fun absent => nonempty (LinkedTree.address_eq_none_iff.mp absent)
    rcases (all_plug_iff.mp sound).1.1 with ⟨kept, short⟩
    have length_key := sized.length_content
    rw [if_neg notNull, down, ok_bind, focus_deref onHeap.represents, ok_bind]
    dsimp only
    rw [keyEqual_eq build sized kept, ok_bind, lookup_plug_of_follows follows, lookup_node]
    by_cases same : key.content = data.key.content
    · right
      have notLonger : ¬ data.bit < key.content.length := by
        rw [same, kept.length_content]
        exact Nat.not_lt_of_le short
      refine ⟨context, a, data, children, rfl, ?_, same.symm, ?_⟩
      · rw [decide_eq_true same]
        rfl
      · rw [if_neg notLonger, if_pos same.symm]
    · left
      rw [decide_eq_false same, length_key]
      refine ⟨rfl, ?_⟩
      split
      · rename_i inside
        rw [ends inside, lookup_empty]
      · rw [if_neg (Ne.symm same)]

/-- `find` returns the node with the value of the bit string, or `end()` if there is none. -/
theorem find_eq (build : Build) {trie : PatriciaTrie T} {t : LinkedTree (NodeData T)}
    {key : PatriciaKey} (onHeap : OnHeap trie t) (sound : t.All Sound) (sized : key.Sized) :
    (find build trie key = .ok none ∧ lookup t key.content = none) ∨
      ∃ context a data children value, plug context (.node a data children) = t ∧
        find build trie key = .ok (some a) ∧ data.key.content = key.content ∧
        data.value = some value ∧ lookup t key.content = some value := by
  unfold find
  rcases findNode_spec build onHeap sound sized with
    ⟨found, absent⟩ | ⟨context, a, data, children, rfl, found, content_eq, value_eq⟩
  · left
    rw [found]
    exact ⟨rfl, absent⟩
  · have live := focus_read onHeap.represents
    rw [found, ok_bind, if_neg (Option.some_ne_none a), deref_eq live, ok_bind, ← value_eq]
    dsimp only
    cases present : data.value with
    | none =>
        left
        rw [if_neg (by simp)]
        exact ⟨rfl, rfl⟩
    | some value =>
        right
        rw [if_pos (Option.isSome_some), iteratorAt_of_isSome live (by rw [present]; rfl)]
        exact ⟨context, a, data, children, value, rfl, rfl, content_eq, present, rfl⟩

/-- `find` yields the value of the bit string, or `end()` if there is none. -/
theorem find_spec (build : Build) {trie : PatriciaTrie T} {t : LinkedTree (NodeData T)}
    {key : PatriciaKey} (onHeap : OnHeap trie t) (sound : t.All Sound) (sized : key.Sized) :
    ∃ it, find build trie key = .ok it ∧
      (lookup t key.content = none → it = none) ∧
      ∀ value, lookup t key.content = some value →
        iteratorValue build trie.heap it = .ok value := by
  rcases find_eq build onHeap sound sized with
    ⟨found, absent⟩ | ⟨context, a, data, children, value, rfl, found, _, present, value_eq⟩
  · refine ⟨none, found, fun _ => rfl, fun value present => ?_⟩
    rw [absent] at present
    cases present
  · refine ⟨some a, found, fun absent => ?_, fun value' present' => ?_⟩
    · rw [absent] at value_eq
      cases value_eq
    · rw [value_eq] at present'
      cases present'
      exact iteratorValue_eq build (focus_read onHeap.represents) present

/-- `contains` of a set. -/
theorem contains_spec (build : Build) {keyMaker : T → PatriciaKey} {set : PatriciaSet T}
    {t : LinkedTree (NodeData T)} {value : T} (onHeap : OnHeap set t) (sound : t.All Sound)
    (sized : (keyMaker value).Sized) :
    PatriciaSet.contains build keyMaker set value =
      .ok (lookup t (keyMaker value).content).isSome := by
  unfold PatriciaSet.contains
  rcases findNode_spec build onHeap sound sized with
    ⟨found, absent⟩ | ⟨context, a, data, children, rfl, found, _, value_eq⟩
  · rw [found, ok_bind, if_pos rfl, absent]
    rfl
  · rw [found, ok_bind, if_neg (Option.some_ne_none a), focus_deref onHeap.represents, ok_bind,
      ← value_eq]
    rfl

end SkAsync.Patricia

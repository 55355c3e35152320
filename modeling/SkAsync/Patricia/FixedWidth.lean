import SkAsync.Library.Execution
import SkAsync.Patricia.Find
import SkAsync.Patricia.Graft
import SkAsync.Patricia.KeyMaker
import SkAsync.Patricia.Remove
import Mathlib.Data.Finset.Basic

/-!
# Sets of keys of one width

A `patricia_set` of values whose keys have the same number of whole bytes is a
finite set, through insertions and removals in any order, as long as no value is
inserted that belongs above the root.  A removal can make a node below the
first root the new one, and `insert_node` cannot put a node above it.
-/

namespace SkAsync.Patricia

open SkAsync.Library PatriciaTrie

variable {T : Type}

inductive SetOp (T : Type)
  | insert (value : T)
  | erase (value : T)

inductive SetOut
  | inserted (isNew : Bool)
  | erased (count : Nat)
  deriving DecidableEq, Repr

def setStep (build : Build) (keys : KeyMaker T) (set : PatriciaSet T) :
    SetOp T → Except Fault (SetOut × PatriciaSet T)
  | .insert value => do
      let (result, set) ← PatriciaSet.insert build keys.make set value
      pure (.inserted result.2, set)
  | .erase value => do
      let (count, set) ← PatriciaSet.erase build keys.make set value
      pure (.erased count, set)

section Reference

variable [DecidableEq T]

/-- The same operations of a finite set. -/
def reference (values : Finset T) : SetOp T → SetOut × Finset T
  | .insert value => (.inserted (decide (value ∉ values)), insert value values)
  | .erase value => (.erased (if value ∈ values then 1 else 0), values.erase value)

end Reference

/-- The node at the root of a trie. -/
def rootNode (trie : PatriciaTrie T) : Option (PatriciaNode T) :=
  trie.root.bind trie.heap.read

/-- The value does not belong above the root: the root is at bit 0, or some value
of the set has the same bits up to that of the root. -/
def BelowRoot (keys : KeyMaker T) (set : PatriciaSet T) (values : Finset T) : SetOp T → Prop
  | .insert value => ∀ node ∈ rootNode set, node.data.bit = 0 ∨
      ∃ member ∈ values, (keys.make member).content.take node.data.bit =
        (keys.make value).content.take node.data.bit
  | .erase _ => True

instance (keys : KeyMaker T) (set : PatriciaSet T) (values : Finset T) (op : SetOp T) :
    Decidable (BelowRoot keys set values op) :=
  match op with
  | .insert _ => inferInstanceAs (Decidable (∀ node ∈ rootNode set, _ ∨ ∃ member ∈ values, _))
  | .erase _ => inferInstanceAs (Decidable True)

/-- A trie with the keys of given values. -/
structure Holds (keys : KeyMaker T) (trie : PatriciaTrie T) (values : Finset T)
    (t : LinkedTree (NodeData T)) : Prop where
  onHeap : OnHeap trie t
  wellFormed : WellFormed [] t
  branching : RootBranching (· ≠ 0) t
  found_iff : ∀ q, (lookup t q).isSome ↔ ∃ value ∈ values, (keys.make value).content = q

theorem holds_empty (keys : KeyMaker T) :
    Holds keys (PatriciaTrie.empty : PatriciaTrie T) ∅ .empty :=
  ⟨onHeap_empty, trivial, trivial, fun _ => by simp⟩

namespace Holds

variable {keys : KeyMaker T} {trie : PatriciaTrie T} {values : Finset T}
  {t : LinkedTree (NodeData T)}

theorem found (holds : Holds keys trie values t) (value : T) :
    (lookup t (keys.make value).content).isSome ↔ value ∈ values := by
  rw [holds.found_iff]
  constructor
  · rintro ⟨member, inside, same⟩
    rwa [keys.content_injective same] at inside
  · intro inside
    exact ⟨value, inside, rfl⟩

theorem length_of_found (holds : Holds keys trie values t) {q : List Bool}
    (found : (lookup t q).isSome) : q.length = 8 * keys.width := by
  rcases (holds.found_iff q).mp found with ⟨value, _, rfl⟩
  exact keys.length_content value

/-- What the condition says of the tree. -/
theorem rootNode_eq (holds : Holds keys trie values t) {a : Address} {data : NodeData T}
    {children : Bool → LinkedTree (NodeData T)} (t_eq : t = .node a data children) :
    ∃ node, rootNode trie = some node ∧ node.data = data := by
  subst t_eq
  refine ⟨⟨data, fun e => (children e).address, none⟩, ?_, rfl⟩
  rw [rootNode, holds.onHeap.root_eq]
  exact holds.onHeap.represents.1

section Insert

variable {value : T}

/-- The root has its place below the new value. -/
theorem root_cases (holds : Holds keys trie values t)
    (below : BelowRoot keys trie values (.insert value)) {root a : Address} {data : NodeData T}
    {children : Bool → LinkedTree (NodeData T)}
    (rooted_eq : rooted root t = .node a data children) :
    data.bit = 0 ∨ ∃ member, (lookup (rooted root t) (keys.make member).content).isSome ∧
      (keys.make member).content.take data.bit = (keys.make value).content.take data.bit := by
  cases t with
  | empty =>
      cases rooted_eq
      exact Or.inl rfl
  | node b data' children' =>
      cases rooted_eq
      rcases holds.rootNode_eq rfl with ⟨node, node_eq, rfl⟩
      rcases below node node_eq with atStart | ⟨member, inside, same⟩
      · exact Or.inl atStart
      · refine Or.inr ⟨member, ?_, same⟩
        rw [lookup_rooted, holds.found]
        exact inside

/-- The label of the root begins the new key. -/
theorem root_label (holds : Holds keys trie values t)
    (below : BelowRoot keys trie values (.insert value)) {root a : Address} {data : NodeData T}
    {children : Bool → LinkedTree (NodeData T)} {lower label : List Bool}
    (focus : Focus (rooted root t) [] a data children lower label) :
    label <+: (keys.make value).content := by
  have lower_eq : lower = [] := focus.around
  have length_eq := focus.labelled.length_eq
  rcases holds.root_cases below focus.tree_eq.symm with atStart | ⟨member, found, same⟩
  · rw [atStart, List.length_eq_zero_iff] at length_eq
    rw [length_eq]
    exact List.nil_prefix
  · have isPrefix := focus.label_isPrefix (lower_eq ▸ List.nil_prefix) found
    rw [List.prefix_iff_eq_take, length_eq, same] at isPrefix
    rw [isPrefix]
    exact List.take_prefix _ _

/-- A node without a value is above the last bit of the keys. -/
theorem short_of_no_value (holds : Holds keys trie values t)
    (below : BelowRoot keys trie values (.insert value)) {root a : Address}
    {context : Context (NodeData T)} {data : NodeData T} {children : Bool → LinkedTree (NodeData T)}
    {lower label : List Bool} (focus : Focus (rooted root t) context a data children lower label)
    (noValue : data.value = none) : label.length < 8 * keys.width := by
  by_cases belowRoot : context = []
  · subst belowRoot
    have lower_eq : lower = [] := focus.around
    rcases holds.root_cases below focus.tree_eq.symm with atStart | ⟨member, found, same⟩
    · rw [focus.labelled.length_eq, atStart]
      exact Nat.mul_pos (by decide) keys.width_pos
    · have isPrefix := focus.label_isPrefix (lower_eq ▸ List.nil_prefix) found
      rw [← keys.length_content member]
      apply Nat.lt_of_le_of_ne isPrefix.length_le
      intro sameLength
      rw [← isPrefix.eq_of_length sameLength, focus.lookup_label noValue] at found
      cases found
  · rcases focus.exists_below (rooted_branching root holds.branching) belowRoot noValue false with
      ⟨q, longer, found⟩
    rw [lookup_rooted] at found
    have bound := longer.length_le
    rw [holds.length_of_found found, List.length_append, List.length_singleton] at bound
    exact bound

theorem admits (holds : Holds keys trie values t)
    (below : BelowRoot keys trie values (.insert value)) (root : Address) :
    Admits (rooted root t) (keys.make value) := by
  refine ⟨?_, holds.root_label below, ?_, ?_⟩
  · intro a data children tree_eq noValue notZero
    rcases holds.root_cases below tree_eq with atStart | ⟨member, found, _⟩
    · exact absurd atStart notZero
    · by_contra noChild
      rw [not_exists] at noChild
      rw [tree_eq, lookup_node, not_not.mp (noChild _), lookup_empty, noValue, ite_self,
        ite_self] at found
      cases found
  · intro context a data children lower label focus _ noValue label_eq
    have short := holds.short_of_no_value below focus noValue
    rw [label_eq, keys.length_content] at short
    exact absurd short (Nat.lt_irrefl _)
  · intro context a data children lower label focus _ noValue _ shorter
    have short := holds.short_of_no_value below focus noValue
    rw [keys.length_content] at shorter
    exact absurd short (Nat.lt_asymm shorter)

variable [DecidableEq T]

/-- An insertion that is not above the root adds its value, and changes neither
another value nor the bit of the root. -/
theorem insert (build : Build) (holds : Holds keys trie values t)
    (below : BelowRoot keys trie values (.insert value)) :
    ∃ it trie' t', PatriciaSet.insert build keys.make trie value =
        .ok ((it, decide (value ∉ values)), trie') ∧
      Holds keys trie' (insert value values) t' ∧
      (∀ q, lookup t' q = if q = (keys.make value).content
        then (lookup t q).or (some value) else lookup t q) ∧
      ∀ root, rootBit t' = rootBit (rooted root t) := by
  rcases insertNode_inserted build holds.onHeap holds.wellFormed holds.branching
    (keys.make_sized value) (holds.admits below) with
    ⟨root, fresh, context, a, data, children, diffbit, place, trie', tree_eq, grafted, done,
      onHeap, inserted⟩
  rcases PatriciaSet.insert_spec keys.make done onHeap with ⟨trie'', stepped, onHeap'⟩
  have isNew : place.data.value.isNone = decide (value ∉ values) := by
    rw [inserted.value_eq, lookup_rooted, ← Option.not_isSome, Bool.eq_iff_iff, Bool.not_eq_true',
      decide_eq_true_iff, ← holds.found, Bool.not_eq_true]
  have lookup_eq : ∀ q, lookup (place.store value) q = if q = (keys.make value).content
      then (lookup t q).or (some value) else lookup t q := by
    intro q
    rw [inserted.lookup_eq, lookup_rooted]
  refine ⟨some place.address, trie'', place.store value, by rw [stepped, isNew],
    ⟨onHeap', inserted.wellFormed _, inserted.branching _, fun q => ?_⟩, lookup_eq, fun other => ?_⟩
  · rw [lookup_eq]
    by_cases here : q = (keys.make value).content
    · subst here
      simp
    · rw [if_neg here, holds.found_iff]
      constructor
      · rintro ⟨member, inside, rfl⟩
        exact ⟨member, Finset.mem_insert_of_mem inside, rfl⟩
      · rintro ⟨member, inside, rfl⟩
        rcases Finset.mem_insert.mp inside with rfl | inside
        · exact absurd rfl here
        · exact ⟨member, inside, rfl⟩
  · rw [rootBit_store grafted, tree_eq]
    cases t <;> rfl

end Insert

variable [DecidableEq T]

/-- A removal takes its value away. -/
theorem erase (build : Build) (holds : Holds keys trie values t) (value : T) :
    ∃ trie' t', PatriciaSet.erase build keys.make trie value =
        .ok (if value ∈ values then 1 else 0, trie') ∧
      Holds keys trie' (values.erase value) t' := by
  unfold PatriciaSet.erase
  by_cases inside : value ∈ values
  · have found := (holds.found value).mpr inside
    rcases findNode_spec build holds.onHeap holds.wellFormed.all_sound (keys.make_sized value) with
      ⟨_, absent⟩ | ⟨context, a, data, children, rfl, node_eq, content_eq, value_eq⟩
    · rw [absent] at found
      cases found
    · rw [← value_eq] at found
      rcases Option.isSome_iff_exists.mp found with ⟨stored, stored_eq⟩
      rcases removeNode_spec build holds.onHeap holds.wellFormed holds.branching stored_eq with
        ⟨trie', t', removed, left⟩
      refine ⟨trie', t', ?_, left.onHeap, left.wellFormed, left.branching, fun q => ?_⟩
      · rw [node_eq, ok_bind, if_neg (Option.some_ne_none a), focus_deref holds.onHeap.represents,
          ok_bind]
        dsimp only
        rw [if_pos found, removed, if_pos inside]
        rfl
      · rw [left.lookup_eq, content_eq]
        by_cases here : q = (keys.make value).content
        · rw [if_pos here]
          constructor
          · intro impossible
            cases impossible
          · rintro ⟨member, kept, same⟩
            rw [here] at same
            exact absurd (keys.content_injective same) (Finset.ne_of_mem_erase kept)
        · rw [if_neg here, holds.found_iff]
          constructor
          · rintro ⟨member, before, rfl⟩
            refine ⟨member, Finset.mem_erase.mpr ⟨?_, before⟩, rfl⟩
            rintro rfl
            exact here rfl
          · rintro ⟨member, kept, rfl⟩
            exact ⟨member, Finset.mem_of_mem_erase kept, rfl⟩
  · have absent := mt (holds.found value).mp inside
    refine ⟨trie, t, ?_, ?_⟩
    · rcases findNode_spec build holds.onHeap holds.wellFormed.all_sound
        (keys.make_sized value) with
        ⟨node_eq, _⟩ | ⟨context, a, data, children, rfl, node_eq, _, value_eq⟩
      · rw [node_eq, if_neg inside]
        rfl
      · rw [← value_eq] at absent
        rw [node_eq, ok_bind, if_neg (Option.some_ne_none a), focus_deref holds.onHeap.represents,
          ok_bind]
        dsimp only
        rw [if_neg absent, if_neg inside]
        rfl
    · rw [Finset.erase_eq_of_notMem inside]
      exact holds

/-- One step of the set is one step of the finite set. -/
theorem step (build : Build) (holds : Holds keys trie values t) {op : SetOp T}
    (below : BelowRoot keys trie values op) :
    ∃ trie' t', setStep build keys trie op = .ok ((reference values op).1, trie') ∧
      Holds keys trie' (reference values op).2 t' := by
  cases op with
  | insert value =>
      rcases holds.insert build below with ⟨it, trie', t', inserted, holds', _⟩
      refine ⟨trie', t', ?_, holds'⟩
      rw [setStep, inserted]
      rfl
  | erase value =>
      rcases holds.erase build value with ⟨trie', t', erased, holds'⟩
      refine ⟨trie', t', ?_, holds'⟩
      rw [setStep, erased]
      rfl

theorem contains (build : Build) (holds : Holds keys trie values t) (q : T) :
    PatriciaSet.contains build keys.make trie q = .ok (decide (q ∈ values)) := by
  rw [contains_spec build holds.onHeap holds.wellFormed.all_sound (keys.make_sized q)]
  congr 1
  rw [Bool.eq_iff_iff, decide_eq_true_iff]
  exact holds.found q

end Holds

/-! ## Whole runs -/

section Runs

variable [DecidableEq T]

theorem step_refines (build : Build) (keys : KeyMaker T) :
    Refines (withReference (setStep build keys) fun values op => (reference values op).2)
      (fun values op out values' => (out, values') = reference values op)
      (fun both values => both.2 = values ∧ ∃ t, Holds keys both.1 values t)
      (fun both op => BelowRoot keys both.1 both.2 op) where
  step_refines := by
    rintro ⟨set, values⟩ _ op ⟨rfl, t, holds⟩ below
    rcases holds.step build below with ⟨set', t', stepped, holds'⟩
    exact ⟨(reference values op).1, (set', (reference values op).2), (reference values op).2,
      withReference_of_ok _ _ stepped, rfl, rfl, t', holds'⟩

/-- Three operations leave one value, whose node is the root. -/
abbrev newRoot : List (SetOp (BitVec 8)) :=
  [.insert 0x00, .insert 0x80, .erase 0x80, .insert 0x80]

end Runs

end SkAsync.Patricia

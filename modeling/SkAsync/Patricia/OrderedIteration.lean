import SkAsync.Patricia.FixedWidth
import SkAsync.Patricia.Iterate

/-!
# Iterating in the order of the values

In a well-formed tree a pre-order walk meets the labels in the order of their
bits: a label comes before those that extend it, and the labels that go on with
0 come before those that go on with 1.  The key makers turn this into the order
of the values.
-/

namespace SkAsync.Patricia

open SkAsync.Library PatriciaTrie

variable {T : Type}

/-! ## The order of the labels -/

/-- The bit strings that have a value, in the order of a walk. -/
def bindings (t : LinkedTree (NodeData T)) : List (List Bool × T) :=
  t.preorder.filterMap fun entry => entry.2.value.map fun value => (entry.2.key.content, value)

@[simp]
theorem bindings_empty : bindings (.empty : LinkedTree (NodeData T)) = [] :=
  rfl

theorem bindings_node (a : Address) (data : NodeData T)
    (children : Bool → LinkedTree (NodeData T)) :
    bindings (.node a data children) =
      (data.value.map fun value => (data.key.content, value)).toList ++
        (bindings (children false) ++ bindings (children true)) := by
  rw [bindings, LinkedTree.preorder_node, List.filterMap_cons, List.filterMap_append]
  cases data.value <;> rfl

/-- The walk meets what can be found. -/
theorem mem_bindings_iff {lower : List Bool} {t : LinkedTree (NodeData T)}
    (wellFormed : WellFormed lower t) {q : List Bool} {value : T} :
    (q, value) ∈ bindings t ↔ lookup t q = some value := by
  induction t generalizing lower with
  | empty => simp
  | node a data children ih =>
      rcases wellFormed with ⟨label, _, labelled, below⟩
      have onEdge : (q, value) ∈ bindings (children false) ++ bindings (children true) ↔
          ∃ e, lookup (children e) q = some value := by
        rw [List.mem_append, ih false (below false), ih true (below true), Bool.exists_bool]
      rw [bindings_node, List.mem_append, onEdge]
      constructor
      · rintro (here | ⟨e, found⟩)
        · rw [Option.mem_toList, Option.map_eq_some_iff] at here
          rcases here with ⟨_, present, ⟨⟩⟩
          rw [labelled.content_eq (by rw [present]; rfl), lookup_node_label a children labelled,
            present]
        · have longer := (below e).prefix_of_lookup found
          rwa [lookup_child a labelled below, if_pos longer] at found
      · intro found
        rw [lookup_node] at found
        split at found
        · exact Or.inr ⟨_, found⟩
        · split at found
          · rename_i content_eq
            left
            rw [found, content_eq]
            simp
          · cases found

/-- The walk meets the bit strings in ascending order. -/
theorem bindings_ascending {lower : List Bool} {t : LinkedTree (NodeData T)}
    (wellFormed : WellFormed lower t) :
    (bindings t).Pairwise fun first second => first.1 < second.1 := by
  induction t generalizing lower with
  | empty => exact List.Pairwise.nil
  | node a data children ih =>
      rcases wellFormed with ⟨label, _, labelled, below⟩
      have onEdge : ∀ e, ∀ binding ∈ bindings (children e), label ++ [e] <+: binding.1 :=
        fun e binding member =>
          (below e).prefix_of_lookup ((mem_bindings_iff (below e)).mp member)
      rw [bindings_node, List.pairwise_append, List.pairwise_append]
      refine ⟨?_, ⟨ih false (below false), ih true (below true), ?_⟩, ?_⟩
      · cases data.value <;> simp
      · intro first inLeft second inRight
        exact lt_of_branches (onEdge false first inLeft) (onEdge true second inRight)
      · intro first here second inside
        rw [Option.mem_toList, Option.map_eq_some_iff] at here
        rcases here with ⟨value, present, rfl⟩
        rw [labelled.content_eq (by rw [present]; rfl)]
        rcases List.mem_append.mp inside with inLeft | inRight
        · exact lt_of_append_prefix (onEdge false second inLeft)
        · exact lt_of_append_prefix (onEdge true second inRight)

/-! ## Sets that were filled by insertions -/

/-- A set that holds given values, each under its own key, and has not lost the
root of the first insertion. -/
structure Filled (keys : KeyMaker T) (set : PatriciaSet T) (values : Finset T)
    (t : LinkedTree (NodeData T)) : Prop where
  holds : Holds keys set values t
  root_bit : ∀ bit ∈ rootBit t, bit = 0
  own_key : ∀ q value, lookup t q = some value → (keys.make value).content = q
  used : t ≠ .empty → values.Nonempty

theorem filled_empty (keys : KeyMaker T) :
    Filled keys (PatriciaTrie.empty : PatriciaSet T) ∅ .empty := by
  refine ⟨holds_empty keys, ?_, ?_, fun nonempty => absurd rfl nonempty⟩
  · intro bit impossible
    cases impossible
  · intro q value impossible
    cases impossible

namespace Filled

variable {keys : KeyMaker T} {set : PatriciaSet T} {values : Finset T} {t : LinkedTree (NodeData T)}

/-- No value belongs above the root. -/
theorem belowRoot (filled : Filled keys set values t) (value : T) :
    BelowRoot keys set values (.insert value) := by
  intro node node_eq
  left
  cases t with
  | empty =>
      rw [rootNode, filled.holds.onHeap.root_eq] at node_eq
      cases node_eq
  | node a data children =>
      rcases filled.holds.rootNode_eq rfl with ⟨root, root_eq, rfl⟩
      rw [root_eq] at node_eq
      cases node_eq
      exact filled.root_bit _ rfl

/-- A set with a value has a node below the root. -/
theorem rootBearing (filled : Filled keys set values t) : RootBearing t := by
  intro a data children t_eq
  rcases filled.used (by rw [t_eq]; exact fun impossible => by cases impossible) with
    ⟨value, inside⟩
  have found := (filled.holds.found value).mpr inside
  have root_bit := filled.root_bit
  rw [t_eq] at found root_bit
  have longer : data.bit < (keys.make value).content.length := by
    rw [root_bit data.bit rfl, keys.length_content]
    exact Nat.mul_pos (by decide) keys.width_pos
  rw [lookup_node, if_pos longer] at found
  refine ⟨bitAt (keys.make value).content data.bit, fun noChild => ?_⟩
  rw [noChild] at found
  cases found

variable [DecidableEq T]

/-- An insertion leaves such a set. -/
theorem insert (build : Build) (filled : Filled keys set values t) (value : T) :
    ∃ out set' t', setStep build keys set (.insert value) = .ok (out, set') ∧
      Filled keys set' (insert value values) t' := by
  rcases filled.holds.insert build (filled.belowRoot value) with
    ⟨it, set', t', inserted, holds, lookup_eq, rootBit_eq⟩
  refine ⟨_, set', t', by rw [setStep, inserted]; rfl, holds, ?_, ?_, fun _ => ?_⟩
  · intro bit member
    rw [rootBit_eq 0] at member
    cases t with
    | empty =>
        cases member
        rfl
    | node a data children => exact filled.root_bit bit member
  · intro q other found
    rw [lookup_eq] at found
    split at found
    · rename_i here
      cases before : lookup t q with
      | none =>
          rw [before] at found
          cases found
          exact here.symm
      | some kept =>
          rw [before] at found
          cases found
          exact filled.own_key q other before
    · exact filled.own_key q other found
  · exact Finset.insert_nonempty value values

/-- The same for a sequence of insertions. -/
theorem insertAll (build : Build) (filled : Filled keys set values t) (inserted : List T) :
    ∃ outs final values' t',
      run (setStep build keys) set (inserted.map .insert) = .ok (outs, final) ∧
      Filled keys final values' t' ∧
      ∀ value, value ∈ values' ↔ value ∈ inserted ∨ value ∈ values := by
  induction inserted generalizing set values t with
  | nil => exact ⟨[], set, values, t, rfl, filled, fun value => by simp⟩
  | cons first inserted ih =>
      rcases filled.insert build first with ⟨out, set', t', stepped, filled'⟩
      rcases ih filled' with ⟨outs, final, values', t'', ran, filled'', mem_iff⟩
      refine ⟨out :: outs, final, values', t'',
        run_cons_eq_ok_iff.mpr ⟨out, set', outs, stepped, ran, rfl⟩, filled'', fun value => ?_⟩
      rw [mem_iff, Finset.mem_insert, List.mem_cons]
      tauto

end Filled

/-- The walk through such a set yields its values in ascending order. -/
theorem Filled.traverse {keys : KeyMaker T} {set : PatriciaSet T} {values : Finset T}
    {t : LinkedTree (NodeData T)} (build : Build) (filled : Filled keys set values t) :
    ∃ visited, PatriciaSet.traverse build set = .ok visited ∧ visited.Pairwise keys.less ∧
      ∀ value, value ∈ visited ↔ value ∈ values := by
  have wellFormed := filled.holds.wellFormed
  have visited_eq : (bindings t).map Prod.snd =
      t.preorder.filterMap fun entry => entry.2.value := by
    rw [bindings, List.map_filterMap]
    congr 1
    funext entry
    rw [Option.map_map]
    exact Option.map_id'
  refine ⟨(bindings t).map Prod.snd, ?_, ?_, ?_⟩
  · rw [visited_eq]
    exact PatriciaSet.traverse_spec build filled.holds.onHeap filled.rootBearing
  · rw [List.pairwise_map]
    refine (bindings_ascending wellFormed).imp_of_mem fun {first second} inside inside' less => ?_
    have own := filled.own_key _ _ ((mem_bindings_iff wellFormed).mp inside)
    have own' := filled.own_key _ _ ((mem_bindings_iff wellFormed).mp inside')
    rwa [keys.less_iff_content, own, own']
  · intro value
    rw [← filled.holds.found, List.mem_map]
    constructor
    · rintro ⟨⟨q, _⟩, inside, rfl⟩
      rw [mem_bindings_iff wellFormed] at inside
      rw [filled.own_key q _ inside, inside]
      rfl
    · intro found
      rcases Option.isSome_iff_exists.mp found with ⟨other, found⟩
      have same := keys.content_injective (filled.own_key _ _ found)
      subst same
      exact ⟨_, (mem_bindings_iff wellFormed).mpr found, rfl⟩

/-! ## The types of the keys -/

/-- After the insertions, going from `begin()` to `end()` yields every inserted
value, each once and in ascending order. -/
def IteratesInOrder (build : Build) (keys : KeyMaker T) (less : T → T → Prop) (inserted : List T) :
    Prop :=
  ∃ outs set visited,
    run (setStep build keys) PatriciaTrie.empty (inserted.map .insert) = .ok (outs, set) ∧
    PatriciaSet.traverse build set = .ok visited ∧ visited.Pairwise less ∧
    ∀ value, value ∈ visited ↔ value ∈ inserted

/-- This holds of any key maker, in the order of its values. -/
theorem iteratesInOrder_less (build : Build) (keys : KeyMaker T) (inserted : List T) :
    IteratesInOrder build keys keys.less inserted := by
  classical
  rcases (filled_empty keys).insertAll build inserted with
    ⟨outs, set, values, t, ran, filled, mem_iff⟩
  rcases filled.traverse build with ⟨visited, traversed, ascending, visited_iff⟩
  refine ⟨outs, set, visited, ran, traversed, ascending, fun value => ?_⟩
  rw [visited_iff, mem_iff, or_iff_left (Finset.notMem_empty value)]

/-- Integers are met in the order of numbers, addresses in that of their bytes. -/
theorem iteratesInOrder_of_integers_and_addresses (build : Build) :
    (∀ (width : Nat) (positive : 0 < width) (inserted : List (BitVec (8 * width))),
      IteratesInOrder build (KeyMaker.unsigned width positive) (fun v w => v.toNat < w.toNat)
        inserted) ∧
    (∀ (width : Nat) (positive : 0 < width) (inserted : List (BitVec (8 * width))),
      IteratesInOrder build (KeyMaker.signed width positive) (fun v w => v.toInt < w.toInt)
        inserted) ∧
    (∀ inserted : List (Net.Address 4), IteratesInOrder build KeyMaker.inet
      (fun addr other => addr.bytes < other.bytes) inserted) ∧
    ∀ inserted : List (Net.Address 16), IteratesInOrder build KeyMaker.inet6
      (fun addr other => addr.bytes < other.bytes) inserted := by
  refine ⟨?_, ?_, ?_, ?_⟩
  · exact fun width positive => iteratesInOrder_less build (KeyMaker.unsigned width positive)
  · exact fun width positive => iteratesInOrder_less build (KeyMaker.signed width positive)
  · exact iteratesInOrder_less build KeyMaker.inet
  · exact iteratesInOrder_less build KeyMaker.inet6

/-- The numbers on both sides of the sign bit, one of them twice. -/
theorem iteratesInOrder_of_ints :
    IteratesInOrder .debug (KeyMaker.signed 4 (by decide)) (fun v w => v.toInt < w.toInt)
      [512, -1, BitVec.intMin 32, 0, -42, 65535, BitVec.intMax 32, -1, 1] :=
  (iteratesInOrder_of_integers_and_addresses .debug).2.1 4 (by decide) _

example : (run (setStep .debug (KeyMaker.signed 2 (by decide))) PatriciaTrie.empty
      ([512, -1, BitVec.intMin 16, 0, -42, -1, 1].map .insert) >>= fun result =>
    PatriciaSet.traverse .debug result.2).toOption =
      some [BitVec.intMin 16, -42, -1, 0, 1, 512] := by
  decide +kernel

end SkAsync.Patricia

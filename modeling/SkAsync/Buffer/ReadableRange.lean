import SkAsync.Check
import SkAsync.Library.Memory

/-!
# `readable_range_buffer`

A buffer over an existing range.  Elements are copied out of it as bytes, and the
number of elements is passed to `memcpy` as the number of bytes.  So elements of one
byte are delivered; of wider ones only the first bytes arrive.
-/

namespace SkAsync.Buffer

open SkAsync.Library

/-- An object of a trivially copyable type of `s` bytes, by its object representation. -/
structure Element (s : Nat) where
  bytes : List UInt8
  size_eq : bytes.length = s
  deriving DecidableEq, Repr

variable {s : Nat}

/-- The bytes of elements that stand next to each other. -/
def objectBytes (elements : List (Element s)) : List UInt8 :=
  elements.flatMap Element.bytes

@[simp]
theorem length_objectBytes (elements : List (Element s)) :
    (objectBytes elements).length = elements.length * s := by
  induction elements with
  | nil => rw [List.length_nil, Nat.zero_mul]; rfl
  | cons element elements ih =>
      have split : objectBytes (element :: elements) = element.bytes ++ objectBytes elements := rfl
      rw [split, List.length_append, ih, element.size_eq, List.length_cons, Nat.succ_mul,
        Nat.add_comm]

/-- `readable_range_buffer`: the elements of `read_window`. -/
structure ReadableRangeBuffer (s : Nat) where
  readWindow : List (Element s)

namespace ReadableRangeBuffer

/-- `readable_range_buffer::discard`. -/
def discard (buffer : ReadableRangeBuffer s) (n : Nat) : Nat × ReadableRangeBuffer s :=
  let willDiscard := min n buffer.readWindow.length
  (willDiscard, ⟨buffer.readWindow.drop willDiscard⟩)

/-- `readable_range_buffer::read`: the count, and the memory at `dptr` after `memcpy`. -/
def read (buffer : ReadableRangeBuffer s) (dptr : Memory UInt8) (dsize : Nat) :
    (Nat × Memory UInt8) × ReadableRangeBuffer s :=
  let canRead := min dsize buffer.readWindow.length
  let willRead := buffer.readWindow.take canRead
  let readData := objectBytes willRead
  let readSize := willRead.length
  -- `memcpy(dptr, read_data, read_size)`
  let dptr := dptr.store 0 (readData.take readSize)
  ((canRead, dptr), (buffer.discard canRead).2)

/-! ## Runs -/

/-- The calls. -/
inductive Call
  | read (n : Nat)
  | discard (n : Nat)
  deriving DecidableEq, Repr

/-- The number of elements a call asks for. -/
def Call.amount : Call → Nat
  | .read n => n
  | .discard n => n

/-- A call, with what is at its destination before; to `discard` this does not matter. -/
structure Op where
  call : Call
  dptr : Memory UInt8

/-- What a call returns, and what is at its destination afterwards. -/
structure Output where
  count : Nat
  dptr : Memory UInt8

/-- One call. -/
def step (buffer : ReadableRangeBuffer s) (op : Op) :
    Except Fault (Output × ReadableRangeBuffer s) :=
  match op.call with
  | .read n =>
      let ((count, dptr), next) := buffer.read op.dptr n
      .ok (⟨count, dptr⟩, next)
  | .discard n =>
      let (count, next) := buffer.discard n
      .ok (⟨count, op.dptr⟩, next)

/-- What a call on the rest of a range should do: the next elements are taken off, and a
read has delivered them in every byte. -/
def Allows (remaining : List (Element s)) (op : Op) (out : Output)
    (rest : List (Element s)) : Prop :=
  out.count = min op.call.amount remaining.length ∧ rest = remaining.drop out.count ∧
    ∀ n, op.call = .read n →
      out.dptr.slice 0 (out.count * s) = objectBytes (remaining.take out.count)

/-- In a run the calls do what they should, and what they took and what remains are the
whole range. -/
def DeliversRange (range : List (Element s)) (ops : List Op) : Prop :=
  ∃ outs final, run step ⟨range⟩ ops = .ok (outs, final) ∧
    Trace Allows range ops outs final.readWindow ∧
    range = range.take (outs.map Output.count).sum ++ final.readWindow

/-! ## One call -/

/-- Only as many bytes as there are elements are copied: the others have to be there. -/
def HoldsRest (buffer : ReadableRangeBuffer s) (op : Op) : Prop :=
  ∀ n, op.call = .read n →
    op.dptr.slice (min n buffer.readWindow.length)
        (min n buffer.readWindow.length * s - min n buffer.readWindow.length) =
      (objectBytes (buffer.readWindow.take (min n buffer.readWindow.length))).drop
        (min n buffer.readWindow.length)

/-- A block of which only the first bytes are stored reads back if the others were there. -/
theorem slice_store_take_iff (memory : Memory UInt8) {block : List UInt8} {count : Nat}
    (within : count ≤ block.length) :
    (memory.store 0 (block.take count)).slice 0 block.length = block ↔
      memory.slice count (block.length - count) = block.drop count := by
  have stored : (block.take count).length = count := List.length_take_of_le within
  have split : (memory.store 0 (block.take count)).slice 0 block.length =
      block.take count ++ memory.slice count (block.length - count) := by
    have parts : block.length = count + (block.length - count) :=
      (Nat.add_sub_of_le within).symm
    have front := Memory.slice_store_self memory 0 (block.take count)
    rw [stored] at front
    rw [parts, Memory.slice_add, front, Nat.zero_add, Nat.add_sub_cancel_left,
      Memory.slice_store_of_disjoint _ (.inr (by omega))]
  rw [split]
  constructor
  · intro whole
    have parts : block.take count ++ memory.slice count (block.length - count) =
        block.take count ++ block.drop count := by
      rw [whole, List.take_append_drop]
    exact List.append_cancel_left parts
  · intro behind
    rw [behind, List.take_append_drop]

theorem read_eq (buffer : ReadableRangeBuffer s) (dptr : Memory UInt8) (n : Nat) :
    buffer.read dptr n =
      ((min n buffer.readWindow.length,
          dptr.store 0 ((objectBytes (buffer.readWindow.take
            (min n buffer.readWindow.length))).take (min n buffer.readWindow.length))),
        ⟨buffer.readWindow.drop (min n buffer.readWindow.length)⟩) := by
  unfold read discard
  dsimp only
  rw [List.length_take_of_le (Nat.min_le_right ..), Nat.min_assoc, Nat.min_self]

/-- Every call takes off the elements it should, and does all it should exactly if it finds
the bytes it does not copy. -/
theorem exists_step (positive : 0 < s) (buffer : ReadableRangeBuffer s) (op : Op) :
    ∃ out next, step buffer op = .ok (out, next) ∧
      out.count = min op.call.amount buffer.readWindow.length ∧
      next.readWindow = buffer.readWindow.drop out.count ∧
      (Allows buffer.readWindow op out next.readWindow ↔ buffer.HoldsRest op) := by
  rcases op with ⟨call, dptr⟩
  cases call with
  | read n =>
      have stepped : step buffer ⟨.read n, dptr⟩ = .ok
          (⟨(buffer.read dptr n).1.1, (buffer.read dptr n).1.2⟩, (buffer.read dptr n).2) := rfl
      rw [read_eq] at stepped
      refine ⟨_, _, stepped, rfl, rfl, ?_⟩
      generalize taken : min n buffer.readWindow.length = k
      have k_le : k ≤ buffer.readWindow.length := taken ▸ Nat.min_le_right ..
      have bytes : (objectBytes (buffer.readWindow.take k)).length = k * s := by
        rw [length_objectBytes, List.length_take_of_le k_le]
      have within : k ≤ (objectBytes (buffer.readWindow.take k)).length := by
        rw [bytes]
        exact Nat.le_mul_of_pos_right k positive
      have delivered := slice_store_take_iff dptr within
      rw [bytes] at delivered
      constructor
      · rintro ⟨_, _, reads⟩ m same
        cases same
        rw [taken]
        exact delivered.mp (reads n rfl)
      · intro holds
        refine ⟨taken.symm, rfl, fun m same => ?_⟩
        cases same
        have rest := holds n rfl
        rw [taken] at rest
        exact delivered.mpr rest
  | discard n =>
      refine ⟨_, _, rfl, rfl, rfl, iff_of_true ⟨rfl, rfl, ?_⟩ ?_⟩
      · intro m impossible
        cases impossible
      · intro m impossible
        cases impossible

/-! ## Runs -/

/-- A run delivers its range exactly if every read finds the bytes that are not copied. -/
theorem deliversRange_iff_holdsRest (positive : 0 < s) (range : List (Element s))
    (ops : List Op) : DeliversRange range ops ↔ Guarded step HoldsRest ⟨range⟩ ops := by
  induction ops generalizing range with
  | nil => exact iff_of_true ⟨[], ⟨range⟩, rfl, .nil range, rfl⟩ trivial
  | cons op ops ih =>
      rcases exists_step positive ⟨range⟩ op with
        ⟨out, next, stepped, count_eq, next_eq, allowed⟩
      have count_le : out.count ≤ range.length := count_eq ▸ Nat.min_le_right ..
      have continues := ih next.readWindow
      rw [guarded_cons_iff stepped, ← allowed, ← continues]
      constructor
      · rintro ⟨outs, final, ran, trace, whole⟩
        rcases run_cons_eq_ok_iff.mp ran with ⟨out', next', rest, stepped', tail, rfl⟩
        rw [stepped] at stepped'
        cases stepped'
        cases trace with
        | cons first others =>
            have middle_eq := first.2.1
            rw [← next_eq] at middle_eq
            subst middle_eq
            refine ⟨first, rest, final, tail, others, ?_⟩
            -- what is behind the first elements is whole as well
            have behind := congrArg (List.drop out.count) whole
            rw [List.map_cons, List.sum_cons, List.drop_append_of_le_length (by
              rw [List.length_take]
              omega), List.drop_take, Nat.add_sub_cancel_left, ← next_eq] at behind
            exact behind
      · rintro ⟨first, outs, final, ran, trace, whole⟩
        refine ⟨out :: outs, final, run_cons_eq_ok_iff.mpr ⟨out, next, outs, stepped, ran, rfl⟩,
          .cons first trace, ?_⟩
        rw [List.map_cons, List.sum_cons, List.take_add, ← next_eq, List.append_assoc, ← whole,
          next_eq]
        exact (List.take_append_drop _ _).symm

/-- In a sequence of calls on that many elements, no read transfers anything. -/
def TransfersNothing : (remaining : Nat) → List Call → Prop
  | _, [] => True
  | remaining, .read n :: calls =>
      min n remaining = 0 ∧ TransfersNothing (remaining - n) calls
  | remaining, .discard n :: calls => TransfersNothing (remaining - n) calls

/-- A memory that differs from the rest of a block. -/
theorem exists_memory_not_holding {block : List UInt8} {count : Nat}
    (longer : count < block.length) :
    ∃ memory : Memory UInt8,
      memory.slice count (block.length - count) ≠ block.drop count := by
  refine ⟨fun _ => block[count] + 1, ?_⟩
  intro same
  have first := congrArg (·[0]?) same
  have more : block.length - count = block.length - count - 1 + 1 := by omega
  rw [more, Memory.slice_succ] at first
  simp only [List.getElem?_cons_zero, List.getElem?_drop, Nat.add_zero,
    List.getElem?_eq_getElem longer, Option.some.injEq] at first
  exact absurd first (by simp)

theorem forall_holdsRest_read_iff (positive : 0 < s) (buffer : ReadableRangeBuffer s) (n : Nat) :
    (∀ dptr, buffer.HoldsRest ⟨.read n, dptr⟩) ↔
      s = 1 ∨ min n buffer.readWindow.length = 0 := by
  generalize taken : min n buffer.readWindow.length = k
  have k_le : k ≤ buffer.readWindow.length := taken ▸ Nat.min_le_right ..
  have bytes : (objectBytes (buffer.readWindow.take k)).length = k * s := by
    rw [length_objectBytes, List.length_take_of_le k_le]
  constructor
  · intro holds
    by_contra neither
    rw [not_or] at neither
    have longer : k < (objectBytes (buffer.readWindow.take k)).length := by
      rw [bytes]
      exact (Nat.lt_mul_iff_one_lt_right (Nat.pos_of_ne_zero neither.2)).mpr (by omega)
    rcases exists_memory_not_holding longer with ⟨dptr, differs⟩
    have same := holds dptr n rfl
    rw [taken, ← bytes] at same
    exact differs same
  · intro either dptr m same
    cases same
    rw [taken]
    have nothing : k * s - k = 0 := by
      rcases either with rfl | rfl
      · rw [Nat.mul_one, Nat.sub_self]
      · rw [Nat.zero_mul]
    rw [nothing, Memory.slice_zero, List.drop_eq_nil_of_le]
    rw [bytes]
    omega

/-- The first call, with anything at its destination, and the others. -/
theorem forall_guarded_cons_iff (positive : 0 < s) (range : List (Element s)) (call : Call)
    (calls : List Call) :
    (∀ ops : List Op, ops.map Op.call = call :: calls → Guarded step HoldsRest ⟨range⟩ ops) ↔
      (∀ dptr, HoldsRest ⟨range⟩ ⟨call, dptr⟩) ∧
        ∀ ops : List Op, ops.map Op.call = calls →
          Guarded step HoldsRest ⟨range.drop (min call.amount range.length)⟩ ops := by
  have next : ∀ dptr, ∃ out, step ⟨range⟩ ⟨call, dptr⟩ =
      .ok (out, ⟨range.drop (min call.amount range.length)⟩) := by
    intro dptr
    rcases exists_step positive ⟨range⟩ ⟨call, dptr⟩ with
      ⟨out, ⟨rest⟩, stepped, count_eq, next_eq, _⟩
    refine ⟨out, stepped.trans ?_⟩
    rw [← count_eq]
    exact congrArg (fun window => Except.ok (out, ReadableRangeBuffer.mk window)) next_eq
  constructor
  · intro guarded
    constructor
    · intro dptr
      apply And.left
      apply guarded (⟨call, dptr⟩ :: calls.map fun call => ⟨call, dptr⟩)
      rw [List.map_cons, List.map_map]
      exact congrArg (call :: ·) (List.map_id calls)
    · intro ops same
      rcases next fun _ => 0 with ⟨out, stepped⟩
      exact ((guarded_cons_iff stepped).mp (guarded (⟨call, fun _ => 0⟩ :: ops)
        (by rw [List.map_cons, same]))).2
  · rintro ⟨first, others⟩ ops same
    cases ops with
    | nil => cases same
    | cons op ops =>
        rcases op with ⟨call', dptr⟩
        rcases List.cons.inj same with ⟨rfl, rest⟩
        rcases next dptr with ⟨out, stepped⟩
        exact (guarded_cons_iff stepped).mpr ⟨first dptr, others ops rest⟩

/-- Whatever is at the destinations, a sequence of calls delivers the range exactly if the
elements are bytes or no read transfers anything. -/
theorem deliversRange_iff (positive : 0 < s) (range : List (Element s)) (calls : List Call) :
    (∀ ops : List Op, ops.map Op.call = calls → DeliversRange range ops) ↔
      s = 1 ∨ TransfersNothing range.length calls := by
  simp only [deliversRange_iff_holdsRest positive]
  induction calls generalizing range with
  | nil =>
      refine iff_of_true ?_ (.inr trivial)
      intro ops same
      rw [List.map_eq_nil_iff.mp same]
      trivial
  | cons call calls ih =>
      have left : (range.drop (min call.amount range.length)).length =
          range.length - call.amount := by
        rw [List.length_drop]
        omega
      rw [forall_guarded_cons_iff positive, ih, left]
      cases call with
      | read n =>
          rw [forall_holdsRest_read_iff positive, ← or_and_left]
          rfl
      | discard n =>
          rw [and_iff_right]
          · rfl
          · intro dptr m impossible
            cases impossible

theorem deliversRange_iff_of_bytes :
    (∀ ops : List Op, ops.map Op.call = [.read 1, .discard 1] →
        DeliversRange [⟨[7], rfl⟩, ⟨[8], rfl⟩, (⟨[9], rfl⟩ : Element 1)] ops) ↔
      1 = 1 ∨ TransfersNothing 3 [.read 1, .discard 1] :=
  deliversRange_iff Nat.one_pos [⟨[7], rfl⟩, ⟨[8], rfl⟩, ⟨[9], rfl⟩] _

/-- Of an element of two bytes the second does not arrive. -/
theorem not_deliversRange_of_two_bytes :
    ¬ ∀ (s : Nat), 0 < s → ∀ (range : List (Element s)) (ops : List Op),
      DeliversRange range ops := by
  intro delivers
  rcases delivers 2 Nat.zero_lt_two [⟨[1, 2], rfl⟩] [⟨.read 1, fun _ => 0⟩] with
    ⟨outs, final, ran, trace, _⟩
  rcases run_cons_eq_ok_iff.mp ran with ⟨out, next, rest, stepped, tail, rfl⟩
  cases stepped
  cases trace with
  | cons first _ => exact absurd (first.2.2 1 rfl) (by decide)

end ReadableRangeBuffer

end SkAsync.Buffer

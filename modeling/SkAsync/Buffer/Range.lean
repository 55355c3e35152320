import SkAsync.Buffer.Queue
import SkAsync.Check

/-!
# Buffers as channel I/O sees them

Reading from a channel into a buffer and writing from a buffer to a channel use
only the zero-copy half of the `buffer` concept: the ranges, `commit` and
`discard`.  `RangeBuffer` is that interface, with the store into a range that
the channel itself performs.  `RangeBuffer.Lawful` says what a buffer must do
for the data to arrive once and in order.
-/

namespace SkAsync.Buffer

/-- The zero-copy interface of a buffer with states `β` and writable ranges `ρ`. -/
structure RangeBuffer (β ρ α : Type) where
  /-- `buffer.writable_ranges()`, which may allocate. -/
  writableRanges : β → Except Fault (List ρ × β)
  /-- The length of a writable range. -/
  size : ρ → Nat
  /-- Storing elements into a range from an offset on. -/
  store : β → ρ → Nat → List α → β
  /-- `buffer.commit(n)`. -/
  commit : β → Nat → Except Fault (Nat × β)
  /-- `buffer.readable_ranges()`, as the elements seen through the ranges. -/
  readableRanges : β → Except Fault (List (List α))
  /-- `buffer.discard(n)`. -/
  discard : β → Nat → Except Fault (Nat × β)

namespace RangeBuffer

variable {β ρ α : Type}

/-- Store data into ranges in order, each range taking what fits. -/
def fill (ops : RangeBuffer β ρ α) : β → List ρ → List α → β
  | buffer, [], _ => buffer
  | buffer, range :: ranges, data =>
      fill ops (ops.store buffer range 0 (data.take (ops.size range))) ranges
        (data.drop (ops.size range))

/-- The space in a list of ranges. -/
def space (ops : RangeBuffer β ρ α) (ranges : List ρ) : Nat :=
  (ranges.map ops.size).sum

@[simp]
theorem space_nil (ops : RangeBuffer β ρ α) : ops.space [] = 0 :=
  rfl

@[simp]
theorem space_cons (ops : RangeBuffer β ρ α) (range : ρ) (ranges : List ρ) :
    ops.space (range :: ranges) = ops.size range + ops.space ranges :=
  List.sum_cons

@[simp]
theorem fill_nil_ranges (ops : RangeBuffer β ρ α) (buffer : β) (data : List α) :
    ops.fill buffer [] data = buffer :=
  rfl

theorem fill_cons (ops : RangeBuffer β ρ α) (buffer : β) (range : ρ) (ranges : List ρ)
    (data : List α) :
    ops.fill buffer (range :: ranges) data =
      ops.fill (ops.store buffer range 0 (data.take (ops.size range))) ranges
        (data.drop (ops.size range)) :=
  rfl

/-- What the zero-copy operations do to the content of a buffer. -/
structure Lawful (ops : RangeBuffer β ρ α) (valid : β → Prop) (content : β → List α) : Prop where
  store_nil : ∀ buffer range offset, ops.store buffer range offset [] = buffer
  store_store : ∀ buffer range offset first second,
    ops.store (ops.store buffer range offset first) range (offset + first.length) second =
      ops.store buffer range offset (first ++ second)
  /-- Data stored into the writable ranges and committed is appended. -/
  writable : ∀ buffer, valid buffer → ∃ ranges next,
    ops.writableRanges buffer = .ok (ranges, next) ∧
      valid next ∧ content next = content buffer ∧
      ∀ data : List α, data.length ≤ ops.space ranges →
        ∃ final, ops.commit (ops.fill next ranges data) data.length = .ok (data.length, final) ∧
          valid final ∧ content final = content buffer ++ data
  /-- The readable ranges show the oldest part of the content. -/
  readable : ∀ buffer, valid buffer → ∃ ranges,
    ops.readableRanges buffer = .ok ranges ∧ ranges.flatten <+: content buffer
  /-- Discarding at most the content removes its oldest elements. -/
  discard : ∀ buffer n, valid buffer → n ≤ (content buffer).length →
    ∃ final, ops.discard buffer n = .ok (n, final) ∧ valid final ∧
      content final = (content buffer).drop n

/-- Filling ranges with no data stores nothing. -/
theorem Lawful.fill_nil {ops : RangeBuffer β ρ α} {valid : β → Prop} {content : β → List α}
    (lawful : ops.Lawful valid content) (buffer : β) (ranges : List ρ) :
    ops.fill buffer ranges [] = buffer := by
  induction ranges with
  | nil => rfl
  | cons range ranges ih => rw [fill_cons, List.take_nil, List.drop_nil, lawful.store_nil, ih]

/-- Data that fits in the first range touches only that range. -/
theorem Lawful.fill_cons_of_le {ops : RangeBuffer β ρ α} {valid : β → Prop}
    {content : β → List α} (lawful : ops.Lawful valid content) (buffer : β) {range : ρ}
    (ranges : List ρ) {data : List α} (fits : data.length ≤ ops.size range) :
    ops.fill buffer (range :: ranges) data = ops.store buffer range 0 data := by
  rw [fill_cons, List.take_of_length_le fits, List.drop_of_length_le fits, lawful.fill_nil]

/-- Data that starts with a full first range continues in the others. -/
theorem fill_cons_append (ops : RangeBuffer β ρ α) (buffer : β) {range : ρ} (ranges : List ρ)
    {first : List α} (rest : List α) (full : first.length = ops.size range) :
    ops.fill buffer (range :: ranges) (first ++ rest) =
      ops.fill (ops.store buffer range 0 first) ranges rest := by
  rw [fill_cons, ← full, List.take_left' rfl, List.drop_left' rfl]

end RangeBuffer

end SkAsync.Buffer

import SkAsync.Buffer.Circular.Refinement
import SkAsync.Buffer.Range

/-!
# The zero-copy half of the ring

Storing data into the writable ranges in order and committing its length gives
the very state that `write` gives, array included, provided the data fits.
Together with `readable_ranges` and `discard` this makes the ring a lawful
buffer for channel I/O.
-/

namespace SkAsync.Buffer.CircularBuffer

open SkAsync.Library

variable {α : Type} {N : Nat}

/-- Store elements into a span of the array. -/
def storeSpan (buffer : CircularBuffer α N) (span : Span) (offset : Nat) (elements : List α) :
    CircularBuffer α N :=
  { buffer with data := buffer.data.store (span.start + offset) elements }

/-- The ring as channel I/O sees it. -/
def ranges (build : Build) : RangeBuffer (CircularBuffer α N) Span α where
  writableRanges buffer := do
    let spans ← buffer.writableRanges build
    pure (spans.items, buffer)
  size := Span.size
  store := storeSpan
  commit := commit build
  readableRanges buffer := do
    let spans ← buffer.readableRanges build
    pure (buffer.seenThrough spans.items)
  discard := discard build

theorem storeSpan_nil (buffer : CircularBuffer α N) (span : Span) (offset : Nat) :
    buffer.storeSpan span offset [] = buffer := by
  rw [storeSpan, Memory.store_nil]

theorem storeSpan_storeSpan (buffer : CircularBuffer α N) (span : Span) (offset : Nat)
    (first second : List α) :
    (buffer.storeSpan span offset first).storeSpan span (offset + first.length) second =
      buffer.storeSpan span offset (first ++ second) := by
  simp only [storeSpan]
  rw [← Nat.add_assoc, Memory.store_store]

/-- The spans `writable_ranges` works through, empty ones included. -/
def writableSpans (buffer : CircularBuffer α N) : List Span :=
  if buffer.readPointer ≤ buffer.writePointer then
    if buffer.readPointer = 0 then [⟨buffer.writePointer, N - buffer.writePointer⟩]
    else [⟨buffer.writePointer, N + 1 - buffer.writePointer⟩, ⟨0, buffer.readPointer - 1⟩]
  else [⟨buffer.writePointer, buffer.readPointer - 1 - buffer.writePointer⟩]

/-- `writable_ranges` returns the non-empty ones of these spans. -/
theorem writableRanges_eq (build : Build) {buffer : CircularBuffer α N}
    (wellFormed : buffer.WellFormed) :
    ∃ spans, buffer.writableRanges build = .ok spans ∧
      spans.items = buffer.writableSpans.filter fun span => span.size ≠ 0 := by
  have writeBound := wellFormed.writePointer_le
  have room : (StaticVector.empty : StaticVector Span 2).items.length < 2 := Nat.zero_lt_two
  unfold writableRanges writableHigh writableSpans
  by_cases ordered : buffer.readPointer ≤ buffer.writePointer
  · rw [if_pos ordered, if_pos ordered]
    by_cases atStart : buffer.readPointer = 0
    · have wend_eq : buffer.wend = N := by simp [wend, atStart]
      obtain ⟨next, pushed, _, items_eq⟩ := pushNonempty_eq build
        ⟨buffer.writePointer, N - buffer.writePointer⟩ room
      refine ⟨next, ?_, by simpa [atStart] using items_eq⟩
      simp [wend_eq, pushed, atStart]
    · have wend_eq : buffer.wend = N + 1 := by simp [wend, atStart]
      have reached : buffer.writePointer + (N + 1 - buffer.writePointer) = N + 1 := by omega
      obtain ⟨middle, pushed, middle_length, middle_eq⟩ := pushNonempty_eq build
        ⟨buffer.writePointer, N + 1 - buffer.writePointer⟩ room
      obtain ⟨next, pushed', _, items_eq⟩ := pushNonempty_eq build
        ⟨0, buffer.readPointer - 1⟩ (Nat.lt_of_le_of_lt middle_length Nat.one_lt_two)
      refine ⟨next, ?_, ?_⟩
      · simp [wend_eq, pushed, atStart, reached, Nat.pos_of_ne_zero atStart, pushed']
      · rw [if_neg atStart, items_eq, middle_eq, StaticVector.items_empty, List.nil_append,
          ← List.filter_append]
        rfl
  · obtain ⟨next, pushed, _, items_eq⟩ := pushNonempty_eq build
      ⟨buffer.writePointer, buffer.readPointer - 1 - buffer.writePointer⟩ room
    refine ⟨next, ?_, by simpa [ordered] using items_eq⟩
    simp [ordered, Nat.not_le.mp ordered, pushed]

theorem space_filter (build : Build) (spans : List Span) :
    (ranges build (α := α) (N := N)).space (spans.filter fun span => span.size ≠ 0) =
      (ranges build (α := α) (N := N)).space spans := by
  induction spans with
  | nil => rfl
  | cons span spans ih =>
      by_cases isEmpty : span.size = 0
      · simpa [isEmpty, ranges] using ih
      · simpa [isEmpty] using ih

theorem fill_filter (build : Build) (buffer : CircularBuffer α N) (spans : List Span)
    (data : List α) :
    (ranges build).fill buffer (spans.filter fun span => span.size ≠ 0) data =
      (ranges build).fill buffer spans data := by
  induction spans generalizing buffer data with
  | nil => rfl
  | cons span spans ih =>
      by_cases isEmpty : span.size = 0
      · simp only [isEmpty, ne_eq, not_true_eq_false, decide_false, Bool.false_eq_true,
          not_false_eq_true, List.filter_cons_of_neg, RangeBuffer.fill_cons]
        rw [ih]
        simp [ranges, isEmpty, storeSpan_nil]
      · simp only [isEmpty, ne_eq, not_false_eq_true, decide_true, List.filter_cons_of_pos,
          RangeBuffer.fill_cons]
        exact ih _ _

/-- The writable spans have room for exactly what is missing from `N` elements. -/
theorem space_writableSpans (build : Build) {buffer : CircularBuffer α N}
    (wellFormed : buffer.WellFormed) :
    (ranges build (α := α) (N := N)).space buffer.writableSpans = N - buffer.content.length := by
  have readBound := wellFormed.readPointer_le
  have writeBound := wellFormed.writePointer_le
  rw [length_content, writableSpans]
  by_cases ordered : buffer.readPointer ≤ buffer.writePointer
  · by_cases atStart : buffer.readPointer = 0
    · simp [ranges, RangeBuffer.space, atStart]
    · simp only [ordered, if_true, atStart, if_false, RangeBuffer.space_cons, RangeBuffer.space_nil]
      simp only [ranges]
      omega
  · simp only [ordered, if_false, RangeBuffer.space_cons, RangeBuffer.space_nil]
    simp only [ranges]
    omega

/-- The element-wise loop of `write` stores one block when it does not run
into the read pointer. -/
theorem writeLow_eq {buffer : CircularBuffer α N} {cptr : List α}
    (fits : cptr.length ≤ buffer.readPointer - 1 - buffer.writePointer) :
    buffer.writeLow cptr =
      ({ buffer with
          data := buffer.data.store buffer.writePointer cptr
          writePointer := buffer.writePointer + cptr.length }, []) := by
  induction cptr generalizing buffer with
  | nil => simp [writeLow]
  | cons c cptr ih =>
      rw [List.length_cons] at fits
      have room : buffer.writePointer < buffer.readPointer - 1 := by omega
      have stored := Memory.store_store buffer.data buffer.writePointer [c] cptr
      rw [List.length_singleton, List.singleton_append] at stored
      rw [writeLow, if_pos room, ih (by dsimp only; omega)]
      dsimp only
      rw [stored, List.length_cons, Nat.add_assoc, Nat.add_comm 1]

/-- The first branch of `write` takes all data that fits before the end of the
writable space. -/
theorem writeHigh_eq {buffer : CircularBuffer α N} {data : List α}
    (ordered : buffer.readPointer ≤ buffer.writePointer)
    (fits : data.length ≤ buffer.wend - buffer.writePointer) :
    buffer.writeHigh data =
      ({ buffer with
          data := buffer.data.store buffer.writePointer data
          writePointer :=
            if buffer.writePointer + data.length = N + 1 then 0
            else buffer.writePointer + data.length }, []) := by
  simp [writeHigh, ordered, Nat.min_eq_right fits]

/-- Data that stays short of the end of the array is one store. -/
theorem commit_fill_eq_write_of_short (build : Build) {buffer : CircularBuffer α N}
    (ordered : buffer.readPointer ≤ buffer.writePointer) {data : List α}
    (fits : data.length ≤ buffer.wend - buffer.writePointer)
    (short : buffer.writePointer + data.length ≠ N + 1) :
    commit build ((ranges build).fill buffer buffer.writableSpans data) data.length =
      .ok (data.length, (buffer.write data).2) := by
  let target : CircularBuffer α N :=
    { buffer with
      data := buffer.data.store buffer.writePointer data
      writePointer := buffer.writePointer + data.length }
  have notWrapped : ¬ buffer.writePointer + data.length < buffer.readPointer := by omega
  have written : buffer.write data = (data.length, target) := by
    simp [write, writeHigh_eq ordered fits, short, notWrapped, target]
  have filled : (ranges build).fill buffer buffer.writableSpans data =
      { buffer with data := buffer.data.store buffer.writePointer data } := by
    unfold writableSpans
    unfold wend at fits
    by_cases atStart : buffer.readPointer = 0
    · have small : data.length ≤ N - buffer.writePointer := by
        rw [if_pos atStart] at fits
        omega
      simp [atStart, ranges, RangeBuffer.fill, storeSpan, List.take_of_length_le small]
    · have small : data.length ≤ N + 1 - buffer.writePointer := by
        rw [if_neg atStart] at fits
        exact fits
      simp [ordered, atStart, ranges, RangeBuffer.fill, storeSpan, List.take_of_length_le small,
        List.drop_of_length_le small]
  have wend_eq : wend (N := N)
      { buffer with data := buffer.data.store buffer.writePointer data } = buffer.wend := rfl
  rw [filled, written]
  simp [commit, commitHigh, ordered, wend_eq, Nat.min_eq_right fits, short, notWrapped, target]

/-- Data that reaches the end of the array continues at its start. -/
theorem commit_fill_eq_write_of_long (build : Build) {buffer : CircularBuffer α N}
    (wellFormed : buffer.WellFormed) (ordered : buffer.readPointer ≤ buffer.writePointer)
    (positive : 0 < buffer.readPointer) {data : List α}
    (reaches : N + 1 ≤ buffer.writePointer + data.length)
    (fits : buffer.writePointer + data.length < N + 1 + buffer.readPointer) :
    commit build ((ranges build).fill buffer buffer.writableSpans data) data.length =
      .ok (data.length, (buffer.write data).2) := by
  have writeBound := wellFormed.writePointer_le
  have atStart : buffer.readPointer ≠ 0 := Nat.ne_of_gt positive
  have wend_eq : buffer.wend = N + 1 := if_neg atStart
  generalize first_eq : N + 1 - buffer.writePointer = first
  have reached : buffer.writePointer + first = N + 1 := by omega
  have whole : first ≤ data.length := by omega
  let target : CircularBuffer α N :=
    { buffer with
      data := (buffer.data.store buffer.writePointer (data.take first)).store 0 (data.drop first)
      writePointer := data.length - first }
  have high : buffer.writeHigh data =
      ({ buffer with
          data := buffer.data.store buffer.writePointer (data.take first)
          writePointer := 0 }, data.drop first) := by
    simp [writeHigh, ordered, wend_eq, first_eq, Nat.min_eq_left whole, reached]
  have room : (data.drop first).length ≤ buffer.readPointer - 1 - 0 := by
    rw [List.length_drop]
    omega
  have written : (buffer.write data).2 = target := by
    simp only [write, high, gt_iff_lt, positive, if_true]
    rw [writeLow_eq room]
    simp [target]
  have small : (data.drop first).length ≤ buffer.readPointer - 1 := room
  have filled : (ranges build).fill buffer buffer.writableSpans data =
      { buffer with
        data := (buffer.data.store buffer.writePointer (data.take first)).store 0
          (data.drop first) } := by
    simp [writableSpans, ordered, atStart, ranges, RangeBuffer.fill, storeSpan, first_eq,
      List.take_of_length_le small]
  have rest_eq : min (buffer.readPointer - 1) (data.length - first) = data.length - first := by
    rw [List.length_drop] at small
    exact Nat.min_eq_right small
  have behind : data.length - first < buffer.readPointer := by omega
  have total : first + (data.length - first) = data.length := Nat.add_sub_of_le whole
  rw [filled, written]
  simp [commit, commitHigh, wend, ordered, atStart, positive, first_eq, Nat.min_eq_left whole,
    reached, rest_eq, skCheck_of behind, total, target]

/-- In a ring that has wrapped, data that fits is one store below the read pointer. -/
theorem commit_fill_eq_write_of_wrapped (build : Build) {buffer : CircularBuffer α N}
    (wrapped : buffer.writePointer < buffer.readPointer) {data : List α}
    (fits : data.length ≤ buffer.readPointer - 1 - buffer.writePointer) :
    commit build ((ranges build).fill buffer buffer.writableSpans data) data.length =
      .ok (data.length, (buffer.write data).2) := by
  have notOrdered : ¬ buffer.readPointer ≤ buffer.writePointer := Nat.not_le.mpr wrapped
  have written : (buffer.write data).2 =
      { buffer with
        data := buffer.data.store buffer.writePointer data
        writePointer := buffer.writePointer + data.length } := by
    simp [write, writeHigh, notOrdered, wrapped, writeLow_eq fits]
  have filled : (ranges build).fill buffer buffer.writableSpans data =
      { buffer with data := buffer.data.store buffer.writePointer data } := by
    simp [writableSpans, notOrdered, ranges, RangeBuffer.fill, storeSpan,
      List.take_of_length_le fits]
  have within : min (buffer.readPointer - 1) data.length = data.length :=
    Nat.min_eq_right (by omega)
  have behind : buffer.writePointer + data.length < buffer.readPointer := by omega
  rw [filled, written]
  simp [commit, commitHigh, notOrdered, wrapped, within, skCheck_of behind]

/-- Filling the writable spans and committing is `write`, in the state and in
the count, for all data that fits. -/
theorem commit_fill_eq_write (build : Build) {buffer : CircularBuffer α N}
    (wellFormed : buffer.WellFormed) {data : List α}
    (fits : data.length ≤ N - buffer.content.length) :
    commit build ((ranges build).fill buffer buffer.writableSpans data) data.length =
      .ok (data.length, (buffer.write data).2) := by
  have readBound := wellFormed.readPointer_le
  have writeBound := wellFormed.writePointer_le
  rw [length_content] at fits
  by_cases ordered : buffer.readPointer ≤ buffer.writePointer
  · rw [if_pos ordered] at fits
    by_cases atStart : buffer.readPointer = 0
    · have wend_eq : buffer.wend = N := by simp [wend, atStart]
      exact commit_fill_eq_write_of_short build ordered (by omega) (by omega)
    · have wend_eq : buffer.wend = N + 1 := if_neg atStart
      by_cases reaches : N + 1 ≤ buffer.writePointer + data.length
      · exact commit_fill_eq_write_of_long build wellFormed ordered (Nat.pos_of_ne_zero atStart)
          reaches (by omega)
      · exact commit_fill_eq_write_of_short build ordered (by omega) (by omega)
  · rw [if_neg ordered] at fits
    exact commit_fill_eq_write_of_wrapped build (Nat.not_le.mp ordered) (by omega)

/-- The ring is a lawful buffer for channel I/O. -/
theorem ranges_lawful (build : Build) :
    (ranges build).Lawful (WellFormed (α := α) (N := N)) content where
  store_nil := storeSpan_nil
  store_store := storeSpan_storeSpan
  writable := by
    intro buffer wellFormed
    obtain ⟨spans, spans_eq, items_eq⟩ := writableRanges_eq build wellFormed
    refine ⟨spans.items, buffer, ?_, wellFormed, rfl, ?_⟩
    · simp [ranges, spans_eq]
    · intro data fits
      rw [items_eq, space_filter, space_writableSpans build wellFormed] at fits
      obtain ⟨_, wellFormed', content_eq⟩ := write_spec wellFormed data
      have all : accepted (some N) buffer.content data = data.length := Nat.min_eq_left fits
      refine ⟨(buffer.write data).2, ?_, wellFormed', ?_⟩
      · rw [items_eq, fill_filter]
        exact commit_fill_eq_write build wellFormed fits
      · rw [content_eq, all, List.take_length]
  readable := by
    intro buffer wellFormed
    obtain ⟨spans, spans_eq, seen⟩ := readableRanges_spec build wellFormed
    refine ⟨buffer.seenThrough spans.items, ?_, seen ▸ List.prefix_rfl⟩
    simp [ranges, spans_eq]
  discard := by
    intro buffer n wellFormed within
    obtain ⟨final, discarded, wellFormed', content_eq⟩ := discard_spec build wellFormed n
    rw [Nat.min_eq_left within] at discarded
    exact ⟨final, discarded, wellFormed', content_eq⟩

end SkAsync.Buffer.CircularBuffer

import SkAsync.Buffer.Circular.Core

/-!
# The ring is a bounded queue

The content of the ring is the slice from the read pointer to the write
pointer, or the two slices around the end of the array when the write pointer
is behind.  Each branch of each operation has one lemma that says what it does
to the content and to the pointers.  The refinement to the queue of capacity
`N` is assembled from these.
-/

namespace SkAsync.Buffer.CircularBuffer

open SkAsync.Library

variable {α : Type} {N : Nat}

/-- The elements that can be read, oldest first. -/
def content (buffer : CircularBuffer α N) : List α :=
  if buffer.readPointer ≤ buffer.writePointer then
    buffer.data.slice buffer.readPointer (buffer.writePointer - buffer.readPointer)
  else
    buffer.data.slice buffer.readPointer (N + 1 - buffer.readPointer) ++
      buffer.data.slice 0 buffer.writePointer

/-- Both pointers are inside the array of `N + 1` elements. -/
structure WellFormed (buffer : CircularBuffer α N) : Prop where
  readPointer_le : buffer.readPointer ≤ N
  writePointer_le : buffer.writePointer ≤ N

theorem wellFormed_new (data : Memory α) : (new data : CircularBuffer α N).WellFormed :=
  ⟨Nat.zero_le _, Nat.zero_le _⟩

@[simp]
theorem content_new (data : Memory α) : (new data : CircularBuffer α N).content = [] := by
  simp [content, new]

theorem content_of_le {buffer : CircularBuffer α N}
    (ordered : buffer.readPointer ≤ buffer.writePointer) :
    buffer.content =
      buffer.data.slice buffer.readPointer (buffer.writePointer - buffer.readPointer) :=
  if_pos ordered

theorem content_of_lt {buffer : CircularBuffer α N}
    (wrapped : buffer.writePointer < buffer.readPointer) :
    buffer.content = buffer.data.slice buffer.readPointer (N + 1 - buffer.readPointer) ++
      buffer.data.slice 0 buffer.writePointer :=
  if_neg (Nat.not_le.mpr wrapped)

theorem length_content (buffer : CircularBuffer α N) :
    buffer.content.length =
      if buffer.readPointer ≤ buffer.writePointer then
        buffer.writePointer - buffer.readPointer
      else N + 1 - buffer.readPointer + buffer.writePointer := by
  unfold content
  split <;> simp

/-- The ring never holds more than `N` elements. -/
theorem length_content_le {buffer : CircularBuffer α N} (wellFormed : buffer.WellFormed) :
    buffer.content.length ≤ N := by
  have writeBound := wellFormed.writePointer_le
  rw [length_content]
  split <;> omega

/-! ## Writing -/

/-- What a writing branch does: it moves a prefix of the data to the end of
the content and leaves the read pointer where it was. -/
structure Appends (buffer : CircularBuffer α N) (data : List α)
    (next : CircularBuffer α N) (rest : List α) : Prop where
  wellFormed : next.WellFormed
  readPointer_eq : next.readPointer = buffer.readPointer
  content_eq : ∃ moved, data = moved ++ rest ∧ next.content = buffer.content ++ moved

theorem Appends.refl {buffer : CircularBuffer α N} (wellFormed : buffer.WellFormed)
    (data : List α) : buffer.Appends data buffer data :=
  ⟨wellFormed, rfl, [], rfl, (List.append_nil _).symm⟩

theorem Appends.trans {first second third : CircularBuffer α N} {data middle rest : List α}
    (head : first.Appends data second middle) (tail : second.Appends middle third rest) :
    first.Appends data third rest := by
  obtain ⟨_, firstRead, moved, rfl, firstContent⟩ := head
  obtain ⟨wellFormed, secondRead, moved', rfl, secondContent⟩ := tail
  refine ⟨wellFormed, secondRead.trans firstRead, moved ++ moved', ?_, ?_⟩
  · rw [List.append_assoc]
  · rw [secondContent, firstContent, List.append_assoc]

/-- Storing behind the write pointer and moving it, without reaching the end
of the array, extends the content. -/
theorem content_store_of_le {buffer : CircularBuffer α N} (moved : List α)
    (ordered : buffer.readPointer ≤ buffer.writePointer) :
    ({ buffer with
        data := buffer.data.store buffer.writePointer moved
        writePointer := buffer.writePointer + moved.length } : CircularBuffer α N).content =
      buffer.content ++ moved := by
  rw [content_of_le (Nat.le_add_right_of_le ordered), content_of_le ordered]
  exact Memory.slice_store_extend _ _ ordered

/-- Filling the array up to its end and wrapping extends the content. -/
theorem content_store_wrap {buffer : CircularBuffer α N} {moved : List α}
    (ordered : buffer.readPointer ≤ buffer.writePointer) (positive : 0 < buffer.readPointer)
    (reached : buffer.writePointer + moved.length = N + 1) :
    ({ buffer with
        data := buffer.data.store buffer.writePointer moved
        writePointer := 0 } : CircularBuffer α N).content = buffer.content ++ moved := by
  rw [content_of_lt positive, content_of_le ordered]
  have extend := Memory.slice_store_extend buffer.data moved ordered
  rw [reached] at extend
  simpa using extend

theorem writeHigh_appends {buffer : CircularBuffer α N} (wellFormed : buffer.WellFormed)
    (cptr : List α) :
    buffer.Appends cptr (buffer.writeHigh cptr).1 (buffer.writeHigh cptr).2 ∧
      ((buffer.writeHigh cptr).2 = [] ∨
        (buffer.writeHigh cptr).1.writePointer < (buffer.writeHigh cptr).1.readPointer ∨
        (buffer.writeHigh cptr).1.content.length = N) := by
  have readBound := wellFormed.readPointer_le
  have writeBound := wellFormed.writePointer_le
  unfold writeHigh
  by_cases ordered : buffer.readPointer ≤ buffer.writePointer
  · rw [if_pos ordered]
    generalize wr_eq : min (buffer.wend - buffer.writePointer) cptr.length = wr
    have wendBound : buffer.writePointer ≤ buffer.wend ∧ buffer.wend ≤ N + 1 := by
      unfold wend
      split <;> omega
    have moved_length : (cptr.take wr).length = wr := by
      rw [List.length_take]
      omega
    have split_eq : cptr = cptr.take wr ++ cptr.drop wr := (List.take_append_drop wr cptr).symm
    by_cases reached : buffer.writePointer + wr = N + 1
    · -- The array is full up to its end, so the read pointer is not at its start.
      have positive : 0 < buffer.readPointer := by
        by_contra atStart
        have : buffer.wend = N := by simp [wend, Nat.eq_zero_of_not_pos atStart]
        omega
      simp only [if_pos reached]
      refine ⟨⟨⟨readBound, Nat.zero_le _⟩, rfl, cptr.take wr, split_eq, ?_⟩, .inr (.inl positive)⟩
      exact content_store_wrap ordered positive (by rw [moved_length, reached])
    · have appended := content_store_of_le (cptr.take wr) ordered
      rw [moved_length] at appended
      simp only [if_neg reached]
      refine ⟨⟨⟨readBound, by dsimp only; omega⟩, rfl, cptr.take wr, split_eq, appended⟩, ?_⟩
      by_cases finished : cptr.length ≤ wr
      · exact .inl (List.drop_of_length_le finished)
      · -- Short of the end of the array only because the last slot is reserved.
        have atStart : buffer.readPointer = 0 := by
          by_contra moved
          have : buffer.wend = N + 1 := if_neg moved
          omega
        have wend_eq : buffer.wend = N := by simp [wend, atStart]
        refine .inr (.inr ?_)
        rw [appended, List.length_append, length_content, if_pos ordered, moved_length]
        omega
  · rw [if_neg ordered]
    exact ⟨.refl wellFormed cptr, .inr (.inl (Nat.not_le.mp ordered))⟩

theorem writeLow_appends {buffer : CircularBuffer α N} (wellFormed : buffer.WellFormed)
    (wrapped : buffer.writePointer < buffer.readPointer) (cptr : List α) :
    buffer.Appends cptr (buffer.writeLow cptr).1 (buffer.writeLow cptr).2 ∧
      ((buffer.writeLow cptr).2 = [] ∨ (buffer.writeLow cptr).1.content.length = N) := by
  have readBound := wellFormed.readPointer_le
  induction cptr generalizing buffer with
  | nil => exact ⟨.refl wellFormed [], .inl rfl⟩
  | cons c cptr ih =>
      unfold writeLow
      by_cases room : buffer.writePointer < buffer.readPointer - 1
      · rw [if_pos room]
        let stored : CircularBuffer α N :=
          { buffer with
            data := buffer.data.store buffer.writePointer [c]
            writePointer := buffer.writePointer + 1 }
        have storedWrapped : stored.writePointer < stored.readPointer := by
          dsimp only [stored]
          omega
        have storedWellFormed : stored.WellFormed := ⟨readBound, by dsimp only [stored]; omega⟩
        have stored_content : stored.content = buffer.content ++ [c] := by
          rw [content_of_lt storedWrapped, content_of_lt wrapped, List.append_assoc]
          congr 1
          · exact Memory.slice_store_of_disjoint _ (.inr (by simpa using Nat.succ_le_of_lt wrapped))
          · simpa using Memory.slice_store_extend buffer.data [c] (Nat.zero_le buffer.writePointer)
        have one : buffer.Appends (c :: cptr) stored cptr :=
          ⟨storedWellFormed, rfl, [c], rfl, stored_content⟩
        obtain ⟨rest, finished⟩ := ih storedWellFormed storedWrapped readBound
        exact ⟨one.trans rest, finished⟩
      · rw [if_neg room]
        refine ⟨.refl wellFormed _, .inr ?_⟩
        rw [length_content, if_neg (Nat.not_le.mpr wrapped)]
        dsimp only
        omega

/-- `write` moves a prefix of the data, and stops short only when the ring is full. -/
theorem write_appends {buffer : CircularBuffer α N} (wellFormed : buffer.WellFormed)
    (data : List α) :
    ∃ rest, (buffer.write data).1 = data.length - rest.length ∧
      buffer.Appends data (buffer.write data).2 rest ∧
      (rest = [] ∨ (buffer.write data).2.content.length = N) := by
  obtain ⟨high, afterHigh⟩ := writeHigh_appends wellFormed data
  unfold write
  by_cases wrapped : (buffer.writeHigh data).1.writePointer < (buffer.writeHigh data).1.readPointer
  · obtain ⟨low, afterLow⟩ := writeLow_appends high.wellFormed wrapped (buffer.writeHigh data).2
    simp only [gt_iff_lt, if_pos wrapped]
    exact ⟨_, rfl, high.trans low, afterLow⟩
  · simp only [gt_iff_lt, if_neg wrapped]
    refine ⟨_, rfl, high, ?_⟩
    rcases afterHigh with finished | wrapped' | full
    · exact .inl finished
    · exact absurd wrapped' wrapped
    · exact .inr full

/-- `write` appends the elements that fit and returns their number. -/
theorem write_spec {buffer : CircularBuffer α N} (wellFormed : buffer.WellFormed)
    (data : List α) :
    (buffer.write data).1 = accepted (some N) buffer.content data ∧
      (buffer.write data).2.WellFormed ∧
      (buffer.write data).2.content =
        buffer.content ++ data.take (accepted (some N) buffer.content data) := by
  obtain ⟨rest, count_eq, appends, stopped⟩ := write_appends wellFormed data
  obtain ⟨wellFormed', _, moved, rfl, content_eq⟩ := appends
  have bound := length_content_le wellFormed'
  have length_eq := congrArg List.length content_eq
  rw [List.length_append] at length_eq
  have accepted_eq : accepted (some N) buffer.content (moved ++ rest) = moved.length := by
    simp only [accepted, List.length_append]
    rcases stopped with rfl | full
    · simp only [List.length_nil]
      omega
    · omega
  rw [accepted_eq]
  refine ⟨?_, wellFormed', ?_⟩
  · rw [count_eq, List.length_append, Nat.add_sub_cancel]
  · rw [content_eq, List.take_left' rfl]

/-! ## Reading -/

theorem consumeHigh_spec {buffer : CircularBuffer α N} (wellFormed : buffer.WellFormed)
    (left : Nat) :
    (buffer.consumeHigh left).1 ≤ left ∧ (buffer.consumeHigh left).2.WellFormed ∧
      (buffer.consumeHigh left).2.data = buffer.data ∧
      buffer.content = buffer.data.slice buffer.readPointer (buffer.consumeHigh left).1 ++
        (buffer.consumeHigh left).2.content ∧
      ((buffer.consumeHigh left).1 = left ∨
        (buffer.consumeHigh left).2.readPointer ≤ (buffer.consumeHigh left).2.writePointer) := by
  have readBound := wellFormed.readPointer_le
  have writeBound := wellFormed.writePointer_le
  unfold consumeHigh
  by_cases wrapped : buffer.writePointer < buffer.readPointer
  · simp only [gt_iff_lt, if_pos wrapped]
    generalize rd_eq : min left (N + 1 - buffer.readPointer) = rd
    have rdBound : rd ≤ left := rd_eq ▸ Nat.min_le_left _ _
    by_cases reached : buffer.readPointer + rd = N + 1
    · simp only [if_pos reached]
      refine ⟨rdBound, ⟨Nat.zero_le _, writeBound⟩, trivial, ?_, .inr (Nat.zero_le _)⟩
      have rd_all : N + 1 - buffer.readPointer = rd := by omega
      rw [content_of_lt wrapped, content_of_le (Nat.zero_le _), rd_all]
      rfl
    · simp only [if_neg reached]
      refine ⟨rdBound, ⟨by dsimp only; omega, writeBound⟩, trivial, ?_, .inl (by omega)⟩
      have split_eq : N + 1 - buffer.readPointer = rd + (N + 1 - (buffer.readPointer + rd)) := by
        omega
      rw [content_of_lt wrapped, content_of_lt (Nat.lt_add_right rd wrapped), split_eq,
        Memory.slice_add, List.append_assoc]
  · simp only [gt_iff_lt, if_neg wrapped]
    exact ⟨Nat.zero_le _, wellFormed, trivial, rfl, .inr (Nat.not_lt.mp wrapped)⟩

theorem consumeLow_spec {buffer : CircularBuffer α N} (wellFormed : buffer.WellFormed)
    {left : Nat} (ordered : left = 0 ∨ buffer.readPointer ≤ buffer.writePointer) :
    (buffer.consumeLow left).1 = min left buffer.content.length ∧
      (buffer.consumeLow left).2.WellFormed ∧
      buffer.content = buffer.data.slice buffer.readPointer (buffer.consumeLow left).1 ++
        (buffer.consumeLow left).2.content := by
  have writeBound := wellFormed.writePointer_le
  unfold consumeLow
  by_cases some : buffer.readPointer < buffer.writePointer
  · simp only [if_pos some]
    generalize rd_eq : min left (buffer.writePointer - buffer.readPointer) = rd
    have within : buffer.readPointer + rd ≤ buffer.writePointer := by omega
    have split_eq : buffer.writePointer - buffer.readPointer =
        rd + (buffer.writePointer - (buffer.readPointer + rd)) := by omega
    refine ⟨?_, ⟨within.trans writeBound, writeBound⟩, ?_⟩
    · rw [length_content, if_pos some.le, rd_eq]
    · rw [content_of_le some.le, content_of_le within, split_eq, Memory.slice_add]
  · simp only [if_neg some]
    refine ⟨?_, wellFormed, rfl⟩
    rcases ordered with rfl | ordered
    · simp
    · rw [length_content, if_pos ordered]
      omega

/-- The two branches in sequence take the oldest elements. -/
theorem consume_spec {buffer : CircularBuffer α N} (wellFormed : buffer.WellFormed) (n : Nat)
    {first second : Nat} {high low : CircularBuffer α N}
    (firstBranch : buffer.consumeHigh n = (first, high))
    (secondBranch : high.consumeLow (n - first) = (second, low)) :
    first + second = min n buffer.content.length ∧ low.WellFormed ∧
      buffer.data.slice buffer.readPointer first ++ high.data.slice high.readPointer second =
        buffer.content.take n ∧
      low.content = buffer.content.drop n := by
  have highSpec := consumeHigh_spec wellFormed n
  rw [firstBranch] at highSpec
  obtain ⟨firstBound, highWellFormed, _, highContent, highState⟩ := highSpec
  have lowState : n - first = 0 ∨ high.readPointer ≤ high.writePointer :=
    highState.imp (fun taken => Nat.sub_eq_zero_of_le taken.ge) id
  have lowSpec := consumeLow_spec highWellFormed lowState
  rw [secondBranch] at lowSpec
  obtain ⟨secondCount, lowWellFormed, lowContent⟩ := lowSpec
  have length_eq := congrArg List.length highContent
  rw [List.length_append, Memory.length_slice] at length_eq
  dsimp only at secondCount highContent lowContent length_eq firstBound
  have content_eq : buffer.content =
      (buffer.data.slice buffer.readPointer first ++
        high.data.slice high.readPointer second) ++ low.content := by
    rw [highContent, lowContent, List.append_assoc]
  have taken_length : (buffer.data.slice buffer.readPointer first ++
      high.data.slice high.readPointer second).length = min n buffer.content.length := by
    simp only [List.length_append, Memory.length_slice]
    omega
  refine ⟨by simpa using taken_length, lowWellFormed, ?_, ?_⟩
  · calc
      _ = buffer.content.take (min n buffer.content.length) := by
        rw [← taken_length]
        conv_rhs => rw [content_eq]
        exact (List.take_left' rfl).symm
      _ = buffer.content.take n := by rw [← List.take_take, List.take_length]
  · calc
      _ = buffer.content.drop (min n buffer.content.length) := by
        rw [← taken_length]
        conv_rhs => rw [content_eq]
        exact (List.drop_left' rfl).symm
      _ = buffer.content.drop n := by
        obtain short | long := Nat.le_total n buffer.content.length
        · rw [Nat.min_eq_left short]
        · rw [Nat.min_eq_right long, List.drop_length, List.drop_of_length_le long]

/-- `read` copies out the oldest elements; its check does not fire. -/
theorem read_spec (build : Build) {buffer : CircularBuffer α N} (wellFormed : buffer.WellFormed)
    (n : Nat) :
    ∃ next, buffer.read build n =
        .ok ((min n buffer.content.length, buffer.content.take n), next) ∧
      next.WellFormed ∧ next.content = buffer.content.drop n := by
  rcases firstBranch : buffer.consumeHigh n with ⟨first, high⟩
  rcases secondBranch : high.consumeLow (n - first) with ⟨second, low⟩
  obtain ⟨count_eq, lowWellFormed, taken, left⟩ :=
    consume_spec wellFormed n firstBranch secondBranch
  refine ⟨low, ?_, lowWellFormed, left⟩
  simp only [read, firstBranch, secondBranch,
    skCheck_of (Nat.lt_succ_of_le lowWellFormed.readPointer_le), ok_bind, pure_eq_ok, count_eq,
    taken]

/-- The early return of `discard` and `readable_ranges` is the empty ring. -/
theorem content_eq_nil_of_eq {buffer : CircularBuffer α N}
    (equal : buffer.readPointer = buffer.writePointer) : buffer.content = [] := by
  rw [content_of_le equal.le, equal, Nat.sub_self, Memory.slice_zero]

/-- `discard` removes the oldest elements; its check does not fire. -/
theorem discard_spec (build : Build) {buffer : CircularBuffer α N}
    (wellFormed : buffer.WellFormed) (n : Nat) :
    ∃ next, buffer.discard build n = .ok (min n buffer.content.length, next) ∧
      next.WellFormed ∧ next.content = buffer.content.drop n := by
  unfold discard
  by_cases equal : buffer.readPointer = buffer.writePointer
  · refine ⟨buffer, ?_, wellFormed, ?_⟩
    · simp [equal, content_eq_nil_of_eq equal]
    · simp [content_eq_nil_of_eq equal]
  · rcases firstBranch : buffer.consumeHigh n with ⟨first, high⟩
    rcases secondBranch : high.consumeLow (n - first) with ⟨second, low⟩
    obtain ⟨count_eq, lowWellFormed, _, left⟩ :=
      consume_spec wellFormed n firstBranch secondBranch
    refine ⟨low, ?_, lowWellFormed, left⟩
    simp only [if_neg equal, secondBranch,
      skCheck_of (Nat.lt_succ_of_le lowWellFormed.readPointer_le), ok_bind, pure_eq_ok, count_eq]

/-! ## Readable ranges -/

/-- The elements seen through a list of spans, range by range. -/
def seenThrough (buffer : CircularBuffer α N) (spans : List Span) : List (List α) :=
  spans.map fun span => buffer.data.slice span.start span.size

/-- Pushing a span unless it is empty. -/
theorem pushNonempty_eq {capacity : Nat} (build : Build) {ret : StaticVector Span capacity}
    (span : Span) (room : ret.items.length < capacity) :
    ∃ next, pushNonempty build ret span = .ok next ∧
      next.items.length ≤ ret.items.length + 1 ∧
      next.items = ret.items ++ [span].filter (fun span => span.size ≠ 0) := by
  unfold pushNonempty
  by_cases isEmpty : span.size = 0
  · exact ⟨ret, if_pos isEmpty, Nat.le_succ _, by simp [isEmpty]⟩
  · obtain ⟨next, pushed, items_eq⟩ := StaticVector.pushBack_of_lt build span room
    exact ⟨next, (if_neg isEmpty).trans pushed, by simp [items_eq], by simp [items_eq, isEmpty]⟩

/-- Leaving out an empty span loses no element. -/
theorem flatten_seenThrough_push (buffer : CircularBuffer α N) (spans : List Span) (span : Span) :
    (buffer.seenThrough (spans ++ [span].filter fun span => span.size ≠ 0)).flatten =
      (buffer.seenThrough spans).flatten ++ buffer.data.slice span.start span.size := by
  by_cases isEmpty : span.size = 0
  · simp [seenThrough, isEmpty]
  · simp [seenThrough, isEmpty]

theorem readableHigh_spec (build : Build) {buffer : CircularBuffer α N}
    (wellFormed : buffer.WellFormed) :
    ∃ ret theoretical, buffer.readableHigh build .empty = .ok (ret, theoretical) ∧
      ret.items.length ≤ 1 ∧ theoretical ≤ buffer.writePointer ∧
      buffer.content = (buffer.seenThrough ret.items).flatten ++
        buffer.data.slice theoretical (buffer.writePointer - theoretical) := by
  have readBound := wellFormed.readPointer_le
  unfold readableHigh
  by_cases wrapped : buffer.writePointer < buffer.readPointer
  · have room : (StaticVector.empty : StaticVector Span 2).items.length < 2 := Nat.zero_lt_two
    obtain ⟨ret, pushed, size, items_eq⟩ := pushNonempty_eq build
      ⟨buffer.readPointer, N + 1 - buffer.readPointer⟩ room
    have reached : buffer.readPointer + (N + 1 - buffer.readPointer) = N + 1 := by omega
    refine ⟨ret, 0, ?_, size, Nat.zero_le _, ?_⟩
    · simp [wrapped, pushed, reached]
    · rw [content_of_lt wrapped, items_eq, flatten_seenThrough_push]
      simp [seenThrough]
  · refine ⟨.empty, buffer.readPointer, ?_, Nat.zero_le _, Nat.not_lt.mp wrapped, ?_⟩
    · simp [wrapped]
    · rw [content_of_le (Nat.not_lt.mp wrapped)]
      simp [seenThrough]

/-- The readable ranges, in order, show exactly the content; neither the check
nor the capacity of the range vector is violated. -/
theorem readableRanges_spec (build : Build) {buffer : CircularBuffer α N}
    (wellFormed : buffer.WellFormed) :
    ∃ ranges, buffer.readableRanges build = .ok ranges ∧
      (buffer.seenThrough ranges.items).flatten = buffer.content := by
  have writeBound := wellFormed.writePointer_le
  unfold readableRanges
  by_cases equal : buffer.readPointer = buffer.writePointer
  · exact ⟨.empty, if_pos equal, by simp [seenThrough, content_eq_nil_of_eq equal]⟩
  · obtain ⟨ret, theoretical, high, size, behind, content_eq⟩ := readableHigh_spec build wellFormed
    rw [if_neg equal, high, content_eq]
    unfold readableLow
    by_cases more : theoretical < buffer.writePointer
    · obtain ⟨next, pushed, _, items_eq⟩ := pushNonempty_eq build
        ⟨theoretical, buffer.writePointer - theoretical⟩ (Nat.lt_of_le_of_lt size Nat.one_lt_two)
      have inside : theoretical + (buffer.writePointer - theoretical) < N + 1 := by omega
      refine ⟨next, ?_, ?_⟩
      · rw [ok_bind]
        dsimp only
        rw [if_pos more, pushed, ok_bind, pure_eq_ok, ok_bind]
        dsimp only
        rw [skCheck_of inside]
        rfl
      · rw [items_eq, flatten_seenThrough_push]
    · have inside : theoretical < N + 1 := by omega
      have done : buffer.writePointer - theoretical = 0 := by omega
      refine ⟨ret, ?_, ?_⟩
      · rw [ok_bind]
        dsimp only
        rw [if_neg more, pure_eq_ok, ok_bind]
        dsimp only
        rw [skCheck_of inside]
        rfl
      · rw [done, Memory.slice_zero, List.append_nil]

/-! ## The refinement -/

/-- The ring represents a queue when its content is that queue. -/
structure Represents (buffer : CircularBuffer α N) (queue : List α) : Prop where
  wellFormed : buffer.WellFormed
  content_eq : buffer.content = queue

/-- Every operation on the ring is an operation on the queue of capacity `N`. -/
theorem step_refines (build : Build) :
    Refines (step build (N := N)) (Allows (some N) (α := α) Eq) Represents (fun _ _ => True) where
  step_refines := by
    rintro buffer _ op ⟨wellFormed, rfl⟩ -
    cases op with
    | write data =>
        obtain ⟨count_eq, wellFormed', content_eq⟩ := write_spec wellFormed data
        refine ⟨_, (buffer.write data).2, _, ?_, .write _ data, wellFormed', content_eq⟩
        rw [← count_eq]
        rfl
    | read n =>
        obtain ⟨next, read_eq, wellFormed', content_eq⟩ := read_spec build wellFormed n
        refine ⟨_, next, _, ?_, .read _ n, wellFormed', content_eq⟩
        simp [step, read_eq]
    | discard n =>
        obtain ⟨next, discard_eq, wellFormed', content_eq⟩ := discard_spec build wellFormed n
        refine ⟨_, next, _, ?_, .discard _ n, wellFormed', content_eq⟩
        simp [step, discard_eq]
    | readableRanges =>
        obtain ⟨ranges, ranges_eq, seen⟩ := readableRanges_spec build wellFormed
        refine ⟨_, buffer, _, ?_, .readableRanges _ _ seen, wellFormed, rfl⟩
        simp [step, ranges_eq, seenThrough]

/-- `clear` included. -/
theorem clearableStep_refines (build : Build) :
    Refines (clearableStep build (N := N)) (ClearableAllows (some N) (α := α) Eq) Represents
      (fun _ _ => True) where
  step_refines := by
    intro buffer queue op start _
    cases op with
    | clear =>
        exact ⟨none, buffer.clear, [], rfl, .clear queue, wellFormed_new buffer.data,
          content_new buffer.data⟩
    | op operation =>
        rcases (step_refines build).step_refines start trivial with
          ⟨out, next, queue', stepped, allowed, finish⟩
        refine ⟨some out, next, queue', ?_, .op allowed, finish⟩
        simp [clearableStep, stepped]

/-- For every capacity, build and run of operations, the ring completes every
operation and answers as the bounded queue does, its content is the queue's,
and both pointers are inside the array. -/
theorem run_refines_boundedQueue (build : Build) (data : Memory α) (ops : List (ClearableOp α)) :
    ∃ outs final queue,
      run (clearableStep build) (new data : CircularBuffer α N) ops = .ok (outs, final) ∧
      Trace (ClearableAllows (some N) Eq) [] ops outs queue ∧ final.content = queue ∧
      final.readPointer < N + 1 ∧ final.writePointer < N + 1 := by
  have start : (new data : CircularBuffer α N).Represents [] :=
    ⟨wellFormed_new data, content_new data⟩
  obtain ⟨outs, final, queue, ran, trace, wellFormed, content_eq⟩ :=
    (clearableStep_refines build).run start (guarded_true _ _ ops)
  exact ⟨outs, final, queue, ran, trace, content_eq, Nat.lt_succ_of_le wellFormed.readPointer_le,
    Nat.lt_succ_of_le wellFormed.writePointer_le⟩

end SkAsync.Buffer.CircularBuffer

import SkAsync.Buffer.Circular.ZeroCopy

/-!
# Committing into the ring

`commit` clamps its argument twice: by the distance to the end of the array and,
once it has wrapped, by the distance from the start of the array to the read
pointer.  The second bound is the free space only when the write pointer is at
the start of the array.  `Clamped` says when the two bounds together are the
free space, and that is exactly when `commit` does not overrun.

The runs of this module use the whole interface of the ring, so that a state is
reachable when any mix of copying and zero-copy calls leads to it.
-/

namespace SkAsync.Buffer

open SkAsync.Library

/-- The offsets a span covers. -/
def Span.offsets (span : Span) : List Nat :=
  List.range' span.start span.size

namespace CircularBuffer

variable {α : Type} {N : Nat}

/-- The space that is not taken by readable elements. -/
def free (buffer : CircularBuffer α N) : Nat :=
  N - buffer.content.length

/-- The calls on a ring, with the stores of the caller through the spans it got. -/
inductive RangeOp (α : Type)
  | copying (operation : ClearableOp α)
  /-- Take the writable ranges and store data through them, none for just looking. -/
  | writableRanges (data : List α)
  | commit (n : Nat)
  deriving Repr

/-- One call on a ring, with what the caller gets to see. -/
def rangeStep (build : Build) (buffer : CircularBuffer α N) :
    RangeOp α → Except Fault (Option (Output α) × CircularBuffer α N)
  | .copying operation => buffer.clearableStep build operation
  | .writableRanges data => do
      let spans ← buffer.writableRanges build
      pure (some (.count ((ranges build (α := α) (N := N)).space spans.items)),
        (ranges build).fill buffer spans.items data)
  | .commit n => do
      let (count, next) ← buffer.commit build n
      pure (some (.count count), next)

/-! ## The condition and the property -/

/-- The ring has not wrapped, or the write pointer is at the start of the
array, or there is space for everything that is committed. -/
def Clamped (buffer : CircularBuffer α N) (n : Nat) : Prop :=
  buffer.readPointer ≤ buffer.writePointer ∨ buffer.writePointer = 0 ∨ n ≤ buffer.free

instance (buffer : CircularBuffer α N) (n : Nat) : Decidable (buffer.Clamped n) :=
  inferInstanceAs (Decidable (_ ∨ _ ∨ _))

/-- `commit` returns and marks what fits, behind the elements that could be
read before, and leaves the write pointer inside the array. -/
def CommitsWhatFits (build : Build) (buffer : CircularBuffer α N) (n : Nat) : Prop :=
  ∃ next, buffer.commit build n = .ok (min n buffer.free, next) ∧
    next.content.length = buffer.content.length + min n buffer.free ∧
    buffer.content <+: next.content ∧ next.writePointer < N + 1

/-- Every commit of a run is clamped to the free space. -/
def ClampedStep (buffer : CircularBuffer α N) : RangeOp α → Prop
  | .copying _ => True
  | .writableRanges _ => True
  | .commit n => buffer.Clamped n

instance (buffer : CircularBuffer α N) : (op : RangeOp α) → Decidable (buffer.ClampedStep op)
  | .copying _ => isTrue trivial
  | .writableRanges _ => isTrue trivial
  | .commit _ => inferInstanceAs (Decidable (buffer.Clamped _))

/-! ## What a commit does -/

/-- The content is the start of the array rotated to the read pointer. -/
theorem content_eq_take {buffer : CircularBuffer α N} (wellFormed : buffer.WellFormed) :
    buffer.content =
      (buffer.data.slice buffer.readPointer (N + 1 - buffer.readPointer) ++
        buffer.data.slice 0 buffer.readPointer).take buffer.content.length := by
  have readBound := wellFormed.readPointer_le
  have writeBound := wellFormed.writePointer_le
  have length_eq := length_content buffer
  by_cases ordered : buffer.readPointer ≤ buffer.writePointer
  · rw [if_pos ordered] at length_eq
    have short : buffer.writePointer - buffer.readPointer ≤ N + 1 - buffer.readPointer := by omega
    rw [length_eq, List.take_append_of_le_length (by simpa using short), Memory.take_slice,
      Nat.min_eq_left short]
    exact content_of_le ordered
  · have wrapped := Nat.not_le.mp ordered
    rw [if_neg ordered] at length_eq
    have split_eq : N + 1 - buffer.readPointer + buffer.writePointer =
        (buffer.data.slice buffer.readPointer (N + 1 - buffer.readPointer)).length +
          buffer.writePointer := by
      rw [Memory.length_slice]
    rw [length_eq, split_eq, List.take_length_add_append, Memory.take_slice,
      Nat.min_eq_left wrapped.le]
    exact content_of_lt wrapped

/-- Moving the write pointer so that more can be read keeps what could be read. -/
theorem content_prefix {before after : CircularBuffer α N} (wellFormed : before.WellFormed)
    (wellFormed' : after.WellFormed) (data_eq : after.data = before.data)
    (read_eq : after.readPointer = before.readPointer)
    (grows : before.content.length ≤ after.content.length) : before.content <+: after.content := by
  rw [content_eq_take wellFormed, content_eq_take wellFormed', data_eq, read_eq]
  exact List.take_prefix_take_left grows

/-- What `commit` may do to the pointers when it marks `count` elements. -/
structure Marks (buffer next : CircularBuffer α N) (count : Nat) : Prop where
  data_eq : next.data = buffer.data
  readPointer_eq : next.readPointer = buffer.readPointer
  wellFormed : next.WellFormed
  length_eq : next.content.length = buffer.content.length + count

theorem Marks.commitsWhatFits {build : Build} {buffer next : CircularBuffer α N} {n : Nat}
    (wellFormed : buffer.WellFormed)
    (committed : buffer.commit build n = .ok (min n buffer.free, next))
    (marks : buffer.Marks next (min n buffer.free)) : buffer.CommitsWhatFits build n := by
  refine ⟨next, committed, marks.length_eq, ?_, Nat.lt_succ_of_le marks.wellFormed.writePointer_le⟩
  apply content_prefix wellFormed marks.wellFormed marks.data_eq marks.readPointer_eq
  rw [marks.length_eq]
  exact Nat.le_add_right ..

/-- In a ring that has not wrapped, the two bounds add up to the free space. -/
theorem commit_of_ordered (build : Build) {buffer : CircularBuffer α N}
    (wellFormed : buffer.WellFormed) (ordered : buffer.readPointer ≤ buffer.writePointer)
    (n : Nat) :
    ∃ next, buffer.commit build n = .ok (min n buffer.free, next) ∧
      buffer.Marks next (min n buffer.free) := by
  have writeBound := wellFormed.writePointer_le
  have length_eq := length_content buffer
  rw [if_pos ordered] at length_eq
  by_cases atStart : buffer.readPointer = 0
  · have wend_eq : buffer.wend = N := by simp [wend, atStart]
    have count_eq : min (N - buffer.writePointer) n = min n buffer.free := by
      rw [free]
      omega
    generalize min n buffer.free = count at count_eq
    let next : CircularBuffer α N := { buffer with writePointer := buffer.writePointer + count }
    refine ⟨next, ?_, rfl, rfl, ⟨wellFormed.readPointer_le, ?_⟩, ?_⟩
    · simp [commit, commitHigh, wend_eq, count_eq, atStart, next]
    · change buffer.writePointer + count ≤ N
      omega
    · have ordered' : next.readPointer ≤ next.writePointer := Nat.le_add_right_of_le ordered
      rw [length_content, if_pos ordered']
      change buffer.writePointer + count - buffer.readPointer = _
      omega
  · have wend_eq : buffer.wend = N + 1 := if_neg atStart
    by_cases reaches : N + 1 ≤ buffer.writePointer + n
    · -- The first branch fills the array up to its end, the second starts from its start.
      have first_eq : min (N + 1 - buffer.writePointer) n = N + 1 - buffer.writePointer := by omega
      have reached : buffer.writePointer + (N + 1 - buffer.writePointer) = N + 1 := by omega
      generalize second_eq :
        min (buffer.readPointer - 1) (n - (N + 1 - buffer.writePointer)) = second
      have count_eq : N + 1 - buffer.writePointer + second = min n buffer.free := by
        rw [free]
        omega
      have positive : 0 < buffer.readPointer := Nat.pos_of_ne_zero atStart
      have behind : second < buffer.readPointer := by omega
      let next : CircularBuffer α N := { buffer with writePointer := second }
      refine ⟨next, ?_, rfl, rfl, ⟨wellFormed.readPointer_le, ?_⟩, ?_⟩
      · simp [commit, commitHigh, ordered, wend_eq, first_eq, reached, atStart, positive,
          second_eq, skCheck_of behind, count_eq, next]
      · exact (behind.trans_le wellFormed.readPointer_le).le
      · have wrapped : ¬ next.readPointer ≤ next.writePointer := Nat.not_le.mpr behind
        rw [length_content, if_neg wrapped]
        change N + 1 - buffer.readPointer + second = _
        omega
    · have first_eq : min (N + 1 - buffer.writePointer) n = n := by omega
      have short : buffer.writePointer + n ≠ N + 1 := by omega
      have notWrapped : ¬ buffer.writePointer + n < buffer.readPointer := by omega
      have count_eq : n = min n buffer.free := by
        rw [free]
        omega
      rw [← count_eq]
      let next : CircularBuffer α N := { buffer with writePointer := buffer.writePointer + n }
      refine ⟨next, ?_, rfl, rfl, ⟨wellFormed.readPointer_le, ?_⟩, ?_⟩
      · simp [commit, commitHigh, ordered, wend_eq, first_eq, short, notWrapped, next]
      · change buffer.writePointer + n ≤ N
        omega
      · have ordered' : next.readPointer ≤ next.writePointer := Nat.le_add_right_of_le ordered
        rw [length_content, if_pos ordered']
        change buffer.writePointer + n - buffer.readPointer = _
        omega

/-- In a ring that has wrapped, `commit` moves the write pointer by what fits in
front of the read pointer as measured from the start of the array. -/
theorem commit_of_wrapped (build : Build) {buffer : CircularBuffer α N}
    (wrapped : buffer.writePointer < buffer.readPointer) (n : Nat) :
    buffer.commit build n = (do
      let count := min (buffer.readPointer - 1) n
      skCheck build (buffer.writePointer + count < buffer.readPointer)
        "INTERNAL ERROR: sk::circular_buffer::commit() pointer confusion"
      pure (count, { buffer with writePointer := buffer.writePointer + count })) := by
  have notOrdered : ¬ buffer.readPointer ≤ buffer.writePointer := Nat.not_le.mpr wrapped
  simp [commit, commitHigh, notOrdered, wrapped]

/-- A clamped commit marks what fits. -/
theorem commit_spec (build : Build) {buffer : CircularBuffer α N} (wellFormed : buffer.WellFormed)
    {n : Nat} (clamped : buffer.Clamped n) :
    ∃ next, buffer.commit build n = .ok (min n buffer.free, next) ∧
      buffer.Marks next (min n buffer.free) := by
  by_cases ordered : buffer.readPointer ≤ buffer.writePointer
  · exact commit_of_ordered build wellFormed ordered n
  · have wrapped := Nat.not_le.mp ordered
    have readBound := wellFormed.readPointer_le
    have length_eq := length_content buffer
    rw [if_neg ordered] at length_eq
    have free_eq : buffer.free = buffer.readPointer - 1 - buffer.writePointer := by
      rw [free]
      omega
    have count_eq : min (buffer.readPointer - 1) n = min n buffer.free := by
      rcases clamped with ordered' | atStart | fits
      · exact absurd ordered' ordered
      · rw [free_eq, atStart, Nat.sub_zero, Nat.min_comm]
      · rw [Nat.min_eq_left fits]
        exact Nat.min_eq_right (by omega)
    have behind : buffer.writePointer + min n buffer.free < buffer.readPointer := by omega
    let next : CircularBuffer α N :=
      { buffer with writePointer := buffer.writePointer + min n buffer.free }
    refine ⟨next, ?_, rfl, rfl, ⟨readBound, behind.le.trans readBound⟩, ?_⟩
    · rw [commit_of_wrapped build wrapped, count_eq]
      simp only [skCheck_of behind, ok_bind, pure_eq_ok, next]
    · have wrapped' : ¬ next.readPointer ≤ next.writePointer := Nat.not_le.mpr behind
      rw [length_content, if_neg wrapped']
      change N + 1 - buffer.readPointer + (buffer.writePointer + min n buffer.free) = _
      omega

/-- `commit` returns what fits only when it is clamped: with the write pointer
past the start of a ring that has wrapped, the second bound is larger than the
free space. -/
theorem clamped_of_commit {build : Build} {buffer next : CircularBuffer α N}
    (wellFormed : buffer.WellFormed) {n : Nat}
    (committed : buffer.commit build n = .ok (min n buffer.free, next)) : buffer.Clamped n := by
  by_cases ordered : buffer.readPointer ≤ buffer.writePointer
  · exact .inl ordered
  · right
    have wrapped := Nat.not_le.mp ordered
    have readBound := wellFormed.readPointer_le
    have length_eq := length_content buffer
    rw [if_neg ordered] at length_eq
    have free_eq : buffer.free = buffer.readPointer - 1 - buffer.writePointer := by
      rw [free]
      omega
    rw [commit_of_wrapped build wrapped] at committed
    rcases bind_eq_ok_iff.mp committed with ⟨_, _, returned⟩
    have count_eq : min (buffer.readPointer - 1) n = min n buffer.free :=
      congrArg Prod.fst (Except.ok.inj returned)
    omega

/-- `commit` marks what fits exactly when its bounds are the free space. -/
theorem commitsWhatFits_iff (build : Build) {buffer : CircularBuffer α N}
    (wellFormed : buffer.WellFormed) (n : Nat) :
    buffer.CommitsWhatFits build n ↔ buffer.Clamped n := by
  constructor
  · rintro ⟨next, committed, _⟩
    exact clamped_of_commit wellFormed committed
  · intro clamped
    rcases commit_spec build wellFormed clamped with ⟨next, committed, marks⟩
    exact marks.commitsWhatFits wellFormed committed

/-! ## Where the writable spans are -/

/-- The offsets of the readable elements, oldest first. -/
def readableOffsets (buffer : CircularBuffer α N) : List Nat :=
  if buffer.readPointer ≤ buffer.writePointer then
    List.range' buffer.readPointer (buffer.writePointer - buffer.readPointer)
  else
    List.range' buffer.readPointer (N + 1 - buffer.readPointer) ++
      List.range' 0 buffer.writePointer

theorem content_eq_map (buffer : CircularBuffer α N) :
    buffer.content = buffer.readableOffsets.map buffer.data := by
  unfold content readableOffsets
  split
  · rfl
  · rw [List.map_append]
    rfl

/-- The spans do not overlap. -/
theorem writableSpans_pairwise {buffer : CircularBuffer α N} (wellFormed : buffer.WellFormed) :
    buffer.writableSpans.Pairwise fun first second => first.offsets.Disjoint second.offsets := by
  have readBound := wellFormed.readPointer_le
  unfold writableSpans
  split
  · split
    · exact List.pairwise_singleton ..
    · rw [List.pairwise_pair]
      intro offset inFirst inSecond
      rw [Span.offsets, List.mem_range'_1] at inFirst inSecond
      dsimp only at inFirst inSecond
      omega
  · exact List.pairwise_singleton ..

/-- The spans are inside the array and avoid the readable elements. -/
theorem writableSpans_outside {buffer : CircularBuffer α N} (wellFormed : buffer.WellFormed) :
    ∀ span ∈ buffer.writableSpans, ∀ offset ∈ span.offsets,
      offset < N + 1 ∧ offset ∉ buffer.readableOffsets := by
  have readBound := wellFormed.readPointer_le
  have writeBound := wellFormed.writePointer_le
  intro span member offset inside
  rw [Span.offsets, List.mem_range'_1] at inside
  unfold writableSpans at member
  unfold readableOffsets
  by_cases ordered : buffer.readPointer ≤ buffer.writePointer
  · rw [if_pos ordered, List.mem_range'_1]
    rw [if_pos ordered] at member
    split at member
    · rw [List.mem_singleton.mp member] at inside
      dsimp only at inside
      omega
    · rcases List.mem_pair.mp member with rfl | rfl
      · dsimp only at inside
        omega
      · dsimp only at inside
        omega
  · rw [if_neg ordered] at member
    rw [if_neg ordered, List.mem_append, List.mem_range'_1, List.mem_range'_1]
    rw [List.mem_singleton.mp member] at inside
    dsimp only at inside
    omega

/-- Storing through spans that avoid the readable elements changes neither the
pointers nor the content. -/
theorem content_fill (build : Build) (buffer : CircularBuffer α N) {spans : List Span}
    (outside : ∀ span ∈ spans, ∀ offset ∈ span.offsets, offset ∉ buffer.readableOffsets)
    (data : List α) :
    ((ranges build).fill buffer spans data).readPointer = buffer.readPointer ∧
      ((ranges build).fill buffer spans data).writePointer = buffer.writePointer ∧
      ((ranges build).fill buffer spans data).content = buffer.content := by
  induction spans generalizing buffer data with
  | nil => exact ⟨rfl, rfl, rfl⟩
  | cons span spans ih =>
      let stored := buffer.storeSpan span 0 (data.take span.size)
      rcases ih stored (fun other member => outside other (List.mem_cons_of_mem span member))
        (data.drop span.size) with ⟨read_eq, write_eq, content_eq⟩
      refine ⟨read_eq, write_eq, content_eq.trans ?_⟩
      rw [content_eq_map, content_eq_map]
      apply List.map_congr_left
      intro offset readable
      apply Memory.store_of_outside
      by_contra inside
      have covered : offset ∈ span.offsets := by
        rw [Span.offsets, List.mem_range'_1]
        rw [List.length_take] at inside
        omega
      exact outside span List.mem_cons_self offset covered readable

/-! ## Runs with zero-copy calls -/

/-- What the calls do to the queue of capacity `N`: taking the ranges shows how
much space there is, and a commit appends as many elements as fit. -/
inductive RangeAllows (capacity : Nat) :
    List α → RangeOp α → Option (Output α) → List α → Prop
  | copying {queue next : List α} {operation : ClearableOp α} {out : Option (Output α)}
      (allowed : ClearableAllows (some capacity) Eq queue operation out next) :
      RangeAllows capacity queue (.copying operation) out next
  | writableRanges (queue data : List α) :
      RangeAllows capacity queue (.writableRanges data)
        (some (.count (capacity - queue.length))) queue
  | commit (queue added : List α) (n : Nat)
      (size : added.length = min n (capacity - queue.length)) :
      RangeAllows capacity queue (.commit n) (some (.count added.length)) (queue ++ added)

/-- Every call whose commits are clamped is an operation on the queue of
capacity `N`. -/
theorem rangeStep_refines (build : Build) :
    Refines (rangeStep build (N := N)) (RangeAllows N (α := α)) Represents ClampedStep where
  step_refines := by
    rintro buffer queue op start clamped
    cases op with
    | copying operation =>
        rcases (clearableStep_refines build).step_refines start trivial with
          ⟨out, next, queue', stepped, allowed, finish⟩
        exact ⟨out, next, queue', stepped, .copying allowed, finish⟩
    | writableRanges data =>
        rcases start with ⟨wellFormed, rfl⟩
        rcases writableRanges_eq build wellFormed with ⟨spans, spans_eq, items_eq⟩
        have outside : ∀ span ∈ spans.items, ∀ offset ∈ span.offsets,
            offset ∉ buffer.readableOffsets := by
          intro span member offset inside
          rw [items_eq] at member
          exact (writableSpans_outside wellFormed span (List.mem_of_mem_filter member) offset
            inside).2
        rcases content_fill build buffer outside data with ⟨read_eq, write_eq, content_eq⟩
        refine ⟨_, (ranges build).fill buffer spans.items data, _, ?_,
          .writableRanges buffer.content data, ⟨?_, ?_⟩, content_eq⟩
        · rw [rangeStep, spans_eq, ok_bind, items_eq, space_filter,
            space_writableSpans build wellFormed]
          rfl
        · rw [read_eq]
          exact wellFormed.readPointer_le
        · rw [write_eq]
          exact wellFormed.writePointer_le
    | commit n =>
        rcases start with ⟨wellFormed, rfl⟩
        rcases commit_spec build wellFormed clamped with ⟨next, committed, marks⟩
        have grows : buffer.content.length ≤ next.content.length :=
          marks.length_eq ▸ Nat.le_add_right ..
        rcases content_prefix wellFormed marks.wellFormed marks.data_eq marks.readPointer_eq grows
          with ⟨added, content_eq⟩
        have size : added.length = min n buffer.free := by
          have length_eq := marks.length_eq
          rw [← content_eq, List.length_append] at length_eq
          exact Nat.add_left_cancel length_eq
        refine ⟨_, next, _, ?_, .commit buffer.content added n size, marks.wellFormed,
          content_eq.symm⟩
        rw [rangeStep, committed, ok_bind, size]
        rfl

/-- In every run whose commits are clamped, each call completes and answers as
the queue of capacity `N` does; and in the state reached, committing any number
of elements marks what fits exactly when that commit is clamped too. -/
theorem run_commitsWhatFits_iff (build : Build) (data : Memory α) (ops : List (RangeOp α))
    (clamped : Guarded (rangeStep build) ClampedStep (new data : CircularBuffer α N) ops) :
    ∃ outs final queue,
      run (rangeStep build) (new data : CircularBuffer α N) ops = .ok (outs, final) ∧
      Trace (RangeAllows N) [] ops outs queue ∧ final.content = queue ∧
      ∀ n, final.CommitsWhatFits build n ↔ final.Clamped n := by
  have start : (new data : CircularBuffer α N).Represents [] :=
    ⟨wellFormed_new data, content_new data⟩
  rcases (rangeStep_refines build).run start clamped with
    ⟨outs, final, queue, ran, trace, wellFormed, content_eq⟩
  exact ⟨outs, final, queue, ran, trace, content_eq, commitsWhatFits_iff build wellFormed⟩

theorem run_commitsWhatFits_iff_of_wrapped :
    ∃ outs final queue,
      run (rangeStep .debug) (new (fun _ => 0) : CircularBuffer Nat 4)
        [.copying (.op (.write [1, 2, 3])), .copying (.op (.read 2)), .writableRanges [4, 5],
          .commit 7] = .ok (outs, final) ∧
      Trace (RangeAllows 4) []
        [.copying (.op (.write [1, 2, 3])), .copying (.op (.read 2)), .writableRanges [4, 5],
          .commit 7] outs queue ∧
      final.content = queue ∧ ∀ n, final.CommitsWhatFits .debug n ↔ final.Clamped n :=
  run_commitsWhatFits_iff .debug (fun _ => 0) _ (by decide +kernel)

/-- A ring of four that was written full, half read and written full again. -/
def refill : List (RangeOp Nat) :=
  [.copying (.op (.write [1, 2, 3, 4])), .copying (.op (.read 2)), .copying (.op (.write [5, 6]))]

/-- The write pointer of the refilled ring is past the start of the array.
Committing one element more fails the check of a debug build; in a release build
it makes the pointers equal, and the four unread elements are gone. -/
theorem commit_overruns_refilled_ring :
    (run (rangeStep .debug) (new fun _ => 0 : CircularBuffer Nat 4)
        (refill ++ [.commit 1])).map Prod.fst =
      .error (.checkFailed "INTERNAL ERROR: sk::circular_buffer::commit() pointer confusion") ∧
    (run (rangeStep .release) (new fun _ => 0 : CircularBuffer Nat 4)
        (refill ++ [.commit 1, .copying (.op .readableRanges)])).map Prod.fst =
      .ok [some (.count 4), some (.data 2 [1, 2]), some (.count 2), some (.count 1),
        some (.ranges [])] ∧
    ∀ build, ∃ outs final,
      run (rangeStep build) (new fun _ => 0 : CircularBuffer Nat 4) refill = .ok (outs, final) ∧
        ¬ final.CommitsWhatFits build 1 := by
  refine ⟨by decide +kernel, by decide +kernel, ?_⟩
  intro build
  have unclamped : (run (rangeStep build) (new fun _ => 0 : CircularBuffer Nat 4) refill).map
      (fun result => decide (result.2.Clamped 1)) = .ok false := by
    cases build with
    | debug => decide +kernel
    | release => decide +kernel
  have start : (new fun _ => 0 : CircularBuffer Nat 4).Represents [] :=
    ⟨wellFormed_new _, content_new _⟩
  have copies : Guarded (rangeStep build) ClampedStep (new fun _ => 0 : CircularBuffer Nat 4)
      refill := by
    cases build with
    | debug => decide +kernel
    | release => decide +kernel
  rcases (rangeStep_refines build).run start copies with ⟨outs, final, _, ran, _, finish⟩
  refine ⟨outs, final, ran, ?_⟩
  rw [commitsWhatFits_iff build finish.wellFormed]
  rw [ran] at unclamped
  exact of_decide_eq_false (Except.ok.inj unclamped)

/-! ## Agreement with the copying calls -/

/-- The writable ranges are at most two, not empty, do not overlap, have the
length of the free space and avoid the readable elements; data stored into them
in order and committed is the data written. -/
def WritesInPlace (build : Build) (buffer : CircularBuffer α N) : Prop :=
  ∃ spans, buffer.writableRanges build = .ok spans ∧
    spans.items.length ≤ 2 ∧ (∀ span ∈ spans.items, 0 < span.size) ∧
    (spans.items.Pairwise fun first second => first.offsets.Disjoint second.offsets) ∧
    (spans.items.map Span.size).sum = buffer.free ∧
    (∀ span ∈ spans.items, ∀ offset ∈ span.offsets,
      offset < N + 1 ∧ offset ∉ buffer.readableOffsets) ∧
    ∀ data, data.length ≤ buffer.free → ∃ committed,
      ((ranges build).fill buffer spans.items data).commit build data.length =
          .ok (data.length, committed) ∧
        (buffer.write data).1 = data.length ∧
        committed.readPointer = (buffer.write data).2.readPointer ∧
        committed.writePointer = (buffer.write data).2.writePointer ∧
        committed.content = (buffer.write data).2.content

/-- Elements copied out of the readable ranges and discarded are the elements
read, and the same state is left. -/
def ReadsInPlace (build : Build) (buffer : CircularBuffer α N) : Prop :=
  ∃ spans, buffer.readableRanges build = .ok spans ∧
    ∀ n, n ≤ buffer.content.length → ∃ next,
      buffer.discard build n = .ok (n, next) ∧
        buffer.read build n =
          .ok ((n, (buffer.seenThrough spans.items).flatten.take n), next)

theorem writesInPlace (build : Build) {buffer : CircularBuffer α N}
    (wellFormed : buffer.WellFormed) : buffer.WritesInPlace build := by
  rcases writableRanges_eq build wellFormed with ⟨spans, spans_eq, items_eq⟩
  have space_eq := space_writableSpans build wellFormed
  have outside := writableSpans_outside wellFormed
  rw [← space_filter, ← items_eq] at space_eq
  refine ⟨spans, spans_eq, spans.size_le, ?_, ?_, space_eq, ?_, ?_⟩
  · intro span member
    rw [items_eq, List.mem_filter, decide_eq_true_eq] at member
    exact Nat.pos_of_ne_zero member.2
  · rw [items_eq]
    exact (writableSpans_pairwise wellFormed).filter _
  · intro span member
    rw [items_eq] at member
    exact outside span (List.mem_of_mem_filter member)
  · intro data fits
    refine ⟨(buffer.write data).2, ?_, ?_, rfl, rfl, rfl⟩
    · rw [items_eq, fill_filter]
      exact commit_fill_eq_write build wellFormed fits
    · rw [(write_spec wellFormed data).1]
      exact Nat.min_eq_left fits

/-- `discard` leaves the state that `read` leaves. -/
theorem exists_discard_read (build : Build) {buffer : CircularBuffer α N}
    (wellFormed : buffer.WellFormed) (n : Nat) :
    ∃ removed copied next, buffer.discard build n = .ok (removed, next) ∧
      buffer.read build n = .ok (copied, next) := by
  unfold discard read
  by_cases equal : buffer.readPointer = buffer.writePointer
  · have nothing : buffer.consumeHigh n = (0, buffer) := if_neg (Nat.not_lt.mpr equal.le)
    have nothing' : buffer.consumeLow n = (0, buffer) := if_neg (Nat.not_lt.mpr equal.ge)
    refine ⟨0, (0, []), buffer, if_pos equal, ?_⟩
    simp only [nothing, Nat.sub_zero, nothing',
      skCheck_of (Nat.lt_succ_of_le wellFormed.readPointer_le), ok_bind, pure_eq_ok]
    rfl
  · rcases firstBranch : buffer.consumeHigh n with ⟨first, high⟩
    rcases secondBranch : high.consumeLow (n - first) with ⟨second, low⟩
    have lowWellFormed := (consume_spec wellFormed n firstBranch secondBranch).2.1
    refine ⟨first + second, (first + second, buffer.data.slice buffer.readPointer first ++
      high.data.slice high.readPointer second), low, ?_, ?_⟩
    · simp only [if_neg equal, secondBranch,
        skCheck_of (Nat.lt_succ_of_le lowWellFormed.readPointer_le), ok_bind, pure_eq_ok]
    · simp only [secondBranch, skCheck_of (Nat.lt_succ_of_le lowWellFormed.readPointer_le),
        ok_bind, pure_eq_ok]

theorem readsInPlace (build : Build) {buffer : CircularBuffer α N}
    (wellFormed : buffer.WellFormed) : buffer.ReadsInPlace build := by
  rcases readableRanges_spec build wellFormed with ⟨spans, spans_eq, seen⟩
  refine ⟨spans, spans_eq, ?_⟩
  intro n within
  rcases exists_discard_read build wellFormed n with ⟨removed, copied, next, discarded, read_eq⟩
  rcases discard_spec build wellFormed n with ⟨next', discarded', _⟩
  rcases read_spec build wellFormed n with ⟨next'', read_eq', _⟩
  rw [Nat.min_eq_left within] at discarded' read_eq'
  have removed_eq : (removed, next) = (n, next') :=
    Except.ok.inj (discarded.symm.trans discarded')
  have copied_eq : (copied, next) = ((n, buffer.content.take n), next'') :=
    Except.ok.inj (read_eq.symm.trans read_eq')
  rw [(Prod.mk.inj removed_eq).1] at discarded
  rw [(Prod.mk.inj copied_eq).1] at read_eq
  exact ⟨next, discarded, by rw [seen]; exact read_eq⟩

/-- A commit of any number of elements completes, and leaves the write pointer inside the
array. -/
def CommitsInside (build : Build) (buffer : CircularBuffer α N) (n : Nat) : Prop :=
  ∃ count next, buffer.commit build n = .ok (count, next) ∧ next.writePointer < N + 1

instance (build : Build) (buffer : CircularBuffer α N) (n : Nat) :
    Decidable (buffer.CommitsInside build n) :=
  match committed : buffer.commit build n with
  | .error _ => isFalse (by simp [CommitsInside, committed])
  | .ok (_, next) =>
      decidable_of_iff (next.writePointer < N + 1) (by simp [CommitsInside, committed])

/-- No commit of a run leaves the array. -/
def InsideStep (build : Build) (buffer : CircularBuffer α N) : RangeOp α → Prop
  | .copying _ => True
  | .writableRanges _ => True
  | .commit n => buffer.CommitsInside build n

instance (build : Build) (buffer : CircularBuffer α N) :
    (op : RangeOp α) → Decidable (buffer.InsideStep build op)
  | .copying _ => isTrue trivial
  | .writableRanges _ => isTrue trivial
  | .commit _ => inferInstanceAs (Decidable (buffer.CommitsInside build _))

/-- A commit that is not clamped moves the write pointer too far, but nothing else. -/
theorem CommitsInside.exists_wellFormed {build : Build} {buffer : CircularBuffer α N} {n : Nat}
    (wellFormed : buffer.WellFormed) (inside : buffer.CommitsInside build n) :
    ∃ count next, buffer.commit build n = .ok (count, next) ∧ next.WellFormed := by
  rcases inside with ⟨count, next, committed, inArray⟩
  by_cases ordered : buffer.readPointer ≤ buffer.writePointer
  · rcases commit_of_ordered build wellFormed ordered n with ⟨next', committed', marks⟩
    exact ⟨_, next', committed', marks.wellFormed⟩
  · refine ⟨count, next, committed, ?_, Nat.le_of_lt_succ inArray⟩
    rw [commit_of_wrapped build (Nat.not_le.mp ordered)] at committed
    rcases bind_eq_ok_iff.mp committed with ⟨_, _, returned⟩
    cases returned
    exact wellFormed.readPointer_le

/-- The pointers stay inside the array. -/
theorem exists_rangeStep {build : Build} {buffer : CircularBuffer α N} {op : RangeOp α}
    (wellFormed : buffer.WellFormed) (inside : buffer.InsideStep build op) :
    ∃ out next, buffer.rangeStep build op = .ok (out, next) ∧ next.WellFormed := by
  have represents : buffer.Represents buffer.content := ⟨wellFormed, rfl⟩
  cases op with
  | copying operation =>
      have clamped : buffer.ClampedStep (.copying operation) := trivial
      rcases (rangeStep_refines build).step_refines represents clamped with
        ⟨out, next, _, stepped, _, finish⟩
      exact ⟨out, next, stepped, finish.wellFormed⟩
  | writableRanges data =>
      have clamped : buffer.ClampedStep (.writableRanges data) := trivial
      rcases (rangeStep_refines build).step_refines represents clamped with
        ⟨out, next, _, stepped, _, finish⟩
      exact ⟨out, next, stepped, finish.wellFormed⟩
  | commit n =>
      rcases inside.exists_wellFormed wellFormed with ⟨count, next, committed, wellFormed'⟩
      refine ⟨some (.count count), next, ?_, wellFormed'⟩
      rw [rangeStep, committed]
      rfl

/-- In every state that a run reaches, the zero-copy calls agree with the copying ones.
The run may commit more than fits, if it does not leave the array. -/
theorem run_agreesWithCopying (build : Build) (data : Memory α) (ops : List (RangeOp α))
    (inside : Guarded (rangeStep build) (InsideStep build) (new data : CircularBuffer α N) ops) :
    ∃ outs final,
      run (rangeStep build) (new data : CircularBuffer α N) ops = .ok (outs, final) ∧
      final.WritesInPlace build ∧ final.ReadsInPlace build := by
  rcases inside.exists_run exists_rangeStep (wellFormed_new data) with
    ⟨outs, final, ran, wellFormed⟩
  exact ⟨outs, final, ran, writesInPlace build wellFormed, readsInPlace build wellFormed⟩

theorem run_agreesWithCopying_of_wrapped :
    ∃ outs final,
      run (rangeStep .debug) (new (fun _ => 0) : CircularBuffer Nat 4)
        [.copying (.op (.write [1, 2, 3])), .copying (.op (.read 2)), .writableRanges [4, 5],
          .commit 2] = .ok (outs, final) ∧
      final.WritesInPlace .debug ∧ final.ReadsInPlace .debug :=
  run_agreesWithCopying .debug (fun _ => 0) _ (by decide +kernel)

end CircularBuffer

end SkAsync.Buffer

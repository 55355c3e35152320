import SkAsync.Buffer.Dynamic.Queries
import SkAsync.Channel.Pump

/-!
# `write_all` from a `dynamic_buffer`

`write_all` asks for the readable ranges once.  A `dynamic_buffer` returns one
range for each of its first `max_ranges` extents, so what lies in later extents
is not written, although no error is reported.  The call is complete exactly
when what it is asked to write lies in these first extents.
-/

namespace SkAsync.Buffer.DynamicBuffer

open SkAsync.Library

variable {α : Type} {X : Nat}

/-- The buffer as channel I/O sees it. -/
def ranges (build : Build) (maxRanges : Nat) : RangeBuffer (DynamicBuffer α X) (Nat × Span) α where
  writableRanges buffer := do
    let (spans, grown) ← buffer.writableRanges build maxRanges
    pure (spans.items, grown)
  size range := range.2.size
  store buffer range offset elements :=
    buffer.store (range.1, ⟨range.2.start + offset, range.2.size - offset⟩) elements
  commit := commit build
  readableRanges buffer := do
    let spans ← buffer.readableRanges build maxRanges
    pure (buffer.seenThrough spans.items)
  discard := discard build

/-- The unread elements of the first extents, as many as there are ranges. -/
def contentOfFirst (maxRanges : Nat) (buffer : DynamicBuffer α X) : List α :=
  buffer.contentOf ((follow buffer.link buffer.allocated buffer.head).take maxRanges)

/-- Along the list of extents, nothing can be read behind an extent without content. -/
theorem Layout.trailing {buffer : DynamicBuffer α X} {full spares : List Nat} {tail : Nat}
    (layout : buffer.Layout full tail spares) :
    (full ++ tail :: spares).Pairwise fun cell later =>
      (buffer.window cell).content = [] → (buffer.window later).content = [] := by
  have some_in_full : ∀ cell ∈ full, (buffer.window cell).content ≠ [] := by
    intro cell member
    apply List.ne_nil_of_length_pos
    rw [FixedBuffer.length_content]
    exact layout.readable_pos_of_mem_full member
  have none_in_spares : ∀ cell ∈ spares, (buffer.window cell).content = [] :=
    List.flatMap_eq_nil_iff.mp layout.contentOf_spares
  rw [List.pairwise_append]
  refine ⟨?_, ?_, ?_⟩
  · exact List.pairwise_of_forall_mem_list fun cell member _ _ isEmpty =>
      absurd isEmpty (some_in_full cell member)
  · rw [List.pairwise_cons]
    constructor
    · exact fun later member _ => none_in_spares later member
    · exact List.pairwise_of_forall_mem_list fun _ _ later member _ => none_in_spares later member
  · exact fun cell member _ _ isEmpty => absurd isEmpty (some_in_full cell member)

/-- What `readable_ranges` shows of a buffer with content. -/
theorem ranges_readableRanges (maxRanges : Nat) (build : Build) {buffer : DynamicBuffer α X}
    (holds : buffer.Holds buffer.content) (nonempty : buffer.content ≠ []) :
    ∃ shown, (ranges build maxRanges).readableRanges buffer = .ok shown ∧
      shown.flatten = buffer.contentOfFirst maxRanges ∧
      (buffer.contentOfFirst maxRanges <+: buffer.content) ∧
      shown.Pairwise fun range later => range = [] → later = [] := by
  rcases holds with ⟨full, tail, spares, layout, _⟩
  rcases readableRanges_eq maxRanges build layout (.inr (.inr nonempty)) with
    ⟨spans, taken, items_eq⟩
  have first_eq : buffer.contentOfFirst maxRanges =
      buffer.contentOf ((full ++ tail :: spares).take maxRanges) := by
    rw [contentOfFirst, layout.follow_eq]
  refine ⟨buffer.seenThrough spans.items, ?_, ?_, ?_, ?_⟩
  · simp [ranges, taken]
  · rw [items_eq, flatten_seenThrough_readableSpan, first_eq]
  · rw [first_eq, layout.content_eq_append maxRanges]
    exact List.prefix_append ..
  · rw [items_eq, seenThrough, List.map_map, List.pairwise_map]
    exact layout.trailing.sublist (List.take_sublist ..)

/-- Copying in and out of a buffer is moving elements. -/
theorem moves_of_copies {build : Build} {maxRanges : Nat} (buffer : DynamicBuffer α X)
    {ops : List (Op α)} (copies : ∀ op ∈ ops, Copies op) :
    Guarded (step build maxRanges) Moves buffer ops := by
  induction ops generalizing buffer with
  | nil => trivial
  | cons op ops ih =>
      refine ⟨?_, fun _ next _ => ih next fun op' member => copies op' (by simp [member])⟩
      have copy := copies op List.mem_cons_self
      cases op with
      | write data => trivial
      | read n => trivial
      | discard n => exact absurd copy id
      | readableRanges => exact absurd copy id

end SkAsync.Buffer.DynamicBuffer

namespace SkAsync.Channel

open SkAsync.Buffer
open SkAsync.Library

variable {α ε : Type} {X : Nat}

/-- The sink received the oldest `n` elements of the buffer, or all when there
are fewer, and the rest is left. -/
structure WritesAll {sink : Sink α ε} (buffer left : DynamicBuffer α X) (n nwritten : Nat)
    (before after : sink.logged.State) : Prop where
  nwritten_eq : nwritten = min n buffer.content.length
  delivered_eq : after.2 = before.2 ++ buffer.content.take (min n buffer.content.length)
  left_eq : left.content = buffer.content.drop (min n buffer.content.length)

/-- `write_all` writes what the first extents hold, up to the limit. -/
theorem writeAll_spec (maxRanges : Nat) (build : Build) (positive : 0 < X)
    {buffer : DynamicBuffer α X} (holds : buffer.Holds buffer.content)
    (nonempty : buffer.content ≠ []) (sink : Sink α ε) (channel : sink.logged.State) (n : Nat) :
    ∃ nwritten error channel' left,
      writeAll sink.logged (DynamicBuffer.ranges build maxRanges) n channel buffer =
        .ok ((nwritten, error), channel', left) ∧
      (∀ code, error = some code → sink.Fails code) ∧
      (error = none → nwritten = min n (buffer.contentOfFirst maxRanges).length) ∧
      (buffer.contentOfFirst maxRanges).length ≤ buffer.content.length ∧
      channel'.2 = channel.2 ++ buffer.content.take nwritten ∧
      left.content = buffer.content.drop nwritten := by
  rcases DynamicBuffer.ranges_readableRanges maxRanges build holds nonempty with
    ⟨shown, shown_eq, flatten_eq, prefix_content, trailing⟩
  rcases writeAllRanges_spec sink n shown 0 none channel with
    ⟨count, error, channel', looped, log_eq, _, within, fails, complete⟩
  rw [flatten_eq] at log_eq within complete
  rw [Nat.zero_add] at looped
  have available := within.trans prefix_content.length_le
  rcases DynamicBuffer.discard_spec build positive holds available with ⟨left, discarded, holds'⟩
  refine ⟨count, error, channel', left, ?_, ?_, ?_, prefix_content.length_le, ?_, holds'.content_eq⟩
  · rw [writeAll, shown_eq, ok_bind, looped, ok_bind]
    simp [DynamicBuffer.ranges, discarded]
  · intro code failed
    rcases fails code failed with nothing | fails
    · cases nothing
    · exact fails
  · exact complete trailing
  · rcases prefix_content with ⟨rest, content_eq⟩
    rw [log_eq, ← content_eq, List.take_append_of_le_length within]

/-- For every state that writing and reading reach and that has content, every
limit and every sink: `write_all` returns; it reports an error only when a call
of the sink failed; and when it reports none, it has written everything it was
asked to exactly when that lies in the first `max_ranges` extents. -/
theorem run_writeAll_iff (maxRanges : Nat) (build : Build) (storage : Nat → Memory α)
    (ops : List (Op α)) (copies : ∀ op ∈ ops, DynamicBuffer.Copies op) {outs : List (Output α)}
    {final : DynamicBuffer α X}
    (ran : run (DynamicBuffer.step build maxRanges) (.new storage) ops = .ok (outs, final))
    (nonempty : final.content ≠ []) (sink : Sink α ε) (channel : sink.logged.State) (n : Nat) :
    ∃ nwritten error channel' left,
      writeAll sink.logged (DynamicBuffer.ranges build maxRanges) n channel final =
        .ok ((nwritten, error), channel', left) ∧
      ((∀ code, ¬ sink.Fails code) → error = none) ∧
      (error = none →
        (WritesAll final left n nwritten channel channel' ↔
          min n final.content.length ≤ (final.contentOfFirst maxRanges).length)) := by
  rcases DynamicBuffer.reached (DynamicBuffer.moves_of_copies _ copies) ran with
    ⟨positive, holds⟩ | ⟨rfl, rfl⟩
  · rcases writeAll_spec maxRanges build positive holds nonempty sink channel n with
      ⟨nwritten, error, channel', left, returned, fails, complete, within, delivered, rest⟩
    refine ⟨nwritten, error, channel', left, returned, ?_, ?_⟩
    · intro accepts
      cases error with
      | none => rfl
      | some code => exact absurd (fails code rfl) (accepts code)
    · intro success
      have count_eq := complete success
      constructor
      · intro all
        have all_eq := all.nwritten_eq
        omega
      · intro enough
        have all_eq : nwritten = min n final.content.length := by omega
        rw [all_eq] at delivered rest
        exact ⟨all_eq, delivered, rest⟩
  · exact absurd rfl nonempty

/-- A sink that accepts every span whole. -/
def Sink.accepting : Sink α ε where
  State := Unit
  writeSome _ span := (.ok span.length, ())
  count_le := by
    intro state span count accepted
    exact (Except.ok.inj accepted).ge
  progress := by
    intro state span count positive accepted
    exact positive.trans_eq (Except.ok.inj accepted)

theorem run_writeAll_iff_of_read :
    ∃ outs final,
      run (DynamicBuffer.step .debug 2 (X := 2)) (.new fun _ _ => 0)
          [.write [1, 2, 3, 4, 5], .read 1] = .ok (outs, final) ∧
      ∃ nwritten error channel' left,
        writeAll (Sink.accepting (ε := Unit)).logged (DynamicBuffer.ranges .debug 2) 3 ((), [])
            final = .ok ((nwritten, error), channel', left) ∧
        ((∀ code, ¬ (Sink.accepting (α := Nat) (ε := Unit)).Fails code) → error = none) ∧
        (error = none →
          (WritesAll final left 3 nwritten ((), []) channel' ↔
            min 3 final.content.length ≤ (final.contentOfFirst 2).length)) := by
  have copies : ∀ op ∈ [Op.write [1, 2, 3, 4, 5], .read 1], DynamicBuffer.Copies op := by
    simp [DynamicBuffer.Copies]
  refine ⟨_, _, rfl, ?_⟩
  exact run_writeAll_iff 2 .debug (fun _ _ => 0) _ copies rfl (by decide)
    (Sink.accepting (ε := Unit)) ((), []) 3

/-- Three elements in extents of two and one range: the third element is not
written, although there is room for it in the limit and no call failed. -/
theorem writeAll_stops_at_first_extent :
    (do
      let (_, final) ← run (DynamicBuffer.step .debug 1 (X := 2)) (.new fun _ _ => 0)
        [.write [1, 2, 3]]
      let ((nwritten, error), channel, left) ← writeAll (Sink.accepting (ε := Unit)).logged
        (DynamicBuffer.ranges .debug 1) 5 ((), []) final
      pure (nwritten, error, channel.2, left.content)) = .ok (2, none, [1, 2], [3]) ∧
    ∃ outs final nwritten channel left,
      run (DynamicBuffer.step .debug 1 (X := 2)) (.new fun _ _ => 0) [.write [1, 2, 3]] =
          .ok (outs, final) ∧
        writeAll (Sink.accepting (ε := Unit)).logged (DynamicBuffer.ranges .debug 1) 5 ((), [])
          final = .ok ((nwritten, none), channel, left) ∧
        ¬ WritesAll final left 5 nwritten ((), []) channel := by
  refine ⟨by decide, _, _, _, _, _, rfl, rfl, ?_⟩
  intro all
  have three := all.nwritten_eq
  revert three
  decide

end SkAsync.Channel

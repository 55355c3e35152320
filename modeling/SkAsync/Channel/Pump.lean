import SkAsync.Channel.ReadWrite

/-!
# Pumping a source through a buffer to a sink

A pump is any sequence of `read_some`, `read_all`, `async_write_some` and
`write_all` calls between one source, one buffer and one sink.  Both channels
log what they transfer.  The abstract pump only moves a block of elements from
the source to the end of the queue, or from its front to the sink; that every
call of the code does exactly that is the refinement, and that no element is
lost or duplicated follows from it for whole runs.
-/

namespace SkAsync.Channel

open SkAsync.Buffer
open SkAsync.Library

variable {α β ρ ε : Type}

/-! ## Single calls -/

theorem readAllLoop_spec (source : Source α ε) {ops : RangeBuffer β ρ α} {valid : β → Prop}
    {content : β → List α} (lawful : ops.Lawful valid content) (range : ρ)
    (fuel nread left : Nat) (channel : source.logged.State) (buffer : β) (enough : left ≤ fuel) :
    ∃ moved error channel',
      readAllLoop source.logged ops range fuel nread left channel buffer =
        .ok ((nread + moved.length, error), channel', ops.store buffer range nread moved) ∧
      channel'.2 = channel.2 ++ moved ∧ moved.length ≤ left ∧
      (error = none → moved.length = left) := by
  induction fuel generalizing nread left channel buffer with
  | zero =>
      have left_eq : left = 0 := Nat.le_zero.mp enough
      refine ⟨[], none, channel, ?_, (List.append_nil _).symm, Nat.zero_le _, fun _ => left_eq.symm⟩
      simp [readAllLoop, left_eq, lawful.store_nil]
  | succ fuel ih =>
      by_cases left_eq : left = 0
      · refine ⟨[], none, channel, ?_, (List.append_nil _).symm, Nat.zero_le _,
          fun _ => left_eq.symm⟩
        simp [readAllLoop, left_eq, lawful.store_nil]
      · rw [readAllLoop, if_neg left_eq]
        cases result : source.logged.readSome channel left with
        | mk outcome channel' =>
            rcases source.logged_readSome channel left with
              ⟨elements, succeeded, log_eq⟩ | ⟨error, failed, log_eq⟩
            · have bound := source.logged.length_le succeeded
              have positive := source.logged.progress (Nat.pos_of_ne_zero left_eq) succeeded
              rw [result] at succeeded log_eq
              dsimp only at succeeded log_eq
              subst succeeded
              obtain ⟨moved, error, channel'', rest, log_eq', movedBound, complete⟩ :=
                ih (nread + elements.length) (left - elements.length) channel'
                  (ops.store buffer range nread elements) (by omega)
              refine ⟨elements ++ moved, error, channel'', ?_, ?_, ?_, ?_⟩
              · dsimp only
                rw [rest, lawful.store_store, List.length_append, Nat.add_assoc]
              · rw [log_eq', log_eq, List.append_assoc]
              · rw [List.length_append]
                omega
              · intro success
                have := complete success
                rw [List.length_append]
                omega
            · rw [result] at failed log_eq
              dsimp only at failed log_eq
              subst failed
              refine ⟨[], some error, channel', ?_, ?_, Nat.zero_le _, ?_⟩
              · simp [lawful.store_nil]
              · rw [log_eq, List.append_nil]
              · simp

/-- The loop over the writable ranges fills them in order with what it read,
whether it stops by the limit, by a short range or by an error. -/
theorem readAllRanges_spec (source : Source α ε) {ops : RangeBuffer β ρ α} {valid : β → Prop}
    {content : β → List α} (lawful : ops.Lawful valid content) (n : Nat) (ranges : List ρ)
    (nread : Nat) (last : Option ε) (channel : source.logged.State) (buffer : β) :
    ∃ moved error channel',
      readAllRanges source.logged ops n ranges nread last channel buffer =
        .ok ((nread + moved.length, error), channel', ops.fill buffer ranges moved) ∧
      channel'.2 = channel.2 ++ moved ∧ moved.length ≤ n - nread ∧
      moved.length ≤ ops.space ranges := by
  induction ranges generalizing nread last channel buffer with
  | nil =>
      exact ⟨[], last, channel, rfl, (List.append_nil _).symm, Nat.zero_le _, Nat.zero_le _⟩
  | cons range ranges ih =>
      have limitLeft := limited_le_left (n - nread) (ops.size range)
      have limitRight := limited_le_right (n - nread) (ops.size range)
      obtain ⟨first, error, channel', loop, log_eq, bound, complete⟩ :=
        readAllLoop_spec source lawful range (limited (n - nread) (ops.size range)) 0
          (limited (n - nread) (ops.size range)) channel buffer le_rfl
      rw [Nat.zero_add] at loop
      have fits : first.length ≤ ops.size range := bound.trans limitRight
      rw [readAllRanges, readAllRange, loop]
      by_cases stops : first.length = 0 ∨ error.isSome ∨ nread + first.length = n
      · refine ⟨first, error, channel', ?_, log_eq, bound.trans limitLeft, ?_⟩
        · simp only [ok_bind, if_pos stops, pure_eq_ok, lawful.fill_cons_of_le buffer ranges fits]
        · rw [RangeBuffer.space_cons]
          omega
      · -- No error and the limit not reached: the range was filled completely.
        have success : error = none := by
          cases error with
          | none => rfl
          | some code => simp at stops
        have all := complete success
        have full : first.length = ops.size range := by
          unfold limited at all
          split at all <;> omega
        obtain ⟨moved, error', channel'', rest, log_eq', limit, space⟩ :=
          ih (nread + first.length) error channel' (ops.store buffer range 0 first)
        refine ⟨first ++ moved, error', channel'', ?_, ?_, ?_, ?_⟩
        · rw [ops.fill_cons_append buffer ranges moved full, List.length_append, ← Nat.add_assoc]
          simp only [ok_bind, if_neg stops, rest]
        · rw [log_eq', log_eq, List.append_assoc]
        · rw [List.length_append]
          omega
        · rw [List.length_append, RangeBuffer.space_cons]
          omega

theorem writeAllLoop_spec (sink : Sink α ε) (fuel nwritten : Nat) (span : List α)
    (channel : sink.logged.State) (enough : span.length ≤ fuel) :
    ∃ count error channel',
      writeAllLoop sink.logged fuel nwritten span channel =
        .ok ((nwritten + count, error), channel') ∧
      channel'.2 = channel.2 ++ span.take count ∧ count ≤ span.length ∧
      (error = none → count = span.length) ∧ ∀ code, error = some code → sink.Fails code := by
  induction fuel generalizing nwritten span channel with
  | zero =>
      have empty : span.length = 0 := Nat.le_zero.mp enough
      refine ⟨0, none, channel, ?_, by simp, Nat.zero_le _, fun _ => empty.symm, by simp⟩
      simp [writeAllLoop, empty]
  | succ fuel ih =>
      by_cases empty : span.length = 0
      · refine ⟨0, none, channel, ?_, by simp, Nat.zero_le _, fun _ => empty.symm, by simp⟩
        simp [writeAllLoop, empty]
      · rw [writeAllLoop, if_neg empty]
        cases result : sink.logged.writeSome channel span with
        | mk outcome channel' =>
            rcases sink.logged_writeSome channel span with
              ⟨count, succeeded, log_eq⟩ | ⟨error, failed, log_eq⟩
            · have bound := sink.logged.count_le succeeded
              have positive := sink.logged.progress (Nat.pos_of_ne_zero empty) succeeded
              rw [result] at succeeded log_eq
              dsimp only at succeeded log_eq
              subst succeeded
              obtain ⟨more, error, channel'', rest, log_eq', moreBound, complete, fails⟩ :=
                ih (nwritten + count) (span.drop count) channel'
                  (by rw [List.length_drop]; omega)
              rw [List.length_drop] at moreBound complete
              refine ⟨count + more, error, channel'', ?_, ?_, by omega, ?_, fails⟩
              · dsimp only
                rw [rest, Nat.add_assoc]
              · rw [log_eq', log_eq, List.append_assoc, List.take_add]
              · intro success
                have := complete success
                omega
            · have fails : sink.Fails error :=
                Sink.fails_of_logged ⟨channel, span, Nat.pos_of_ne_zero empty, failed⟩
              rw [result] at failed log_eq
              dsimp only at failed log_eq
              subst failed
              refine ⟨0, some error, channel', ?_, by simp [log_eq], Nat.zero_le _, ?_, ?_⟩
              · simp
              · simp
              · rintro _ ⟨⟩
                exact fails

/-- The loop over the readable ranges delivers a prefix of their concatenation.
When only empty ranges follow an empty range and no call fails, it delivers as
much of it as the limit allows. -/
theorem writeAllRanges_spec (sink : Sink α ε) (n : Nat) (ranges : List (List α))
    (nwritten : Nat) (last : Option ε) (channel : sink.logged.State) :
    ∃ count error channel',
      writeAllRanges sink.logged n ranges nwritten last channel =
        .ok ((nwritten + count, error), channel') ∧
      channel'.2 = channel.2 ++ ranges.flatten.take count ∧ count ≤ n - nwritten ∧
      count ≤ ranges.flatten.length ∧
      (∀ code, error = some code → last = some code ∨ sink.Fails code) ∧
      (ranges.Pairwise (fun range later => range = [] → later = []) → error = none →
        count = min (n - nwritten) ranges.flatten.length) := by
  induction ranges generalizing nwritten last channel with
  | nil =>
      exact ⟨0, last, channel, rfl, by simp, Nat.zero_le _, Nat.zero_le _, fun _ => .inl, by simp⟩
  | cons range ranges ih =>
      have limitLeft := limited_le_left (n - nwritten) range.length
      have limitRight := limited_le_right (n - nwritten) range.length
      have span_length : (range.take (limited (n - nwritten) range.length)).length =
          limited (n - nwritten) range.length := by
        rw [List.length_take]
        omega
      obtain ⟨first, error, channel', loop, log_eq, bound, complete, fails⟩ :=
        writeAllLoop_spec sink _ 0 (range.take (limited (n - nwritten) range.length)) channel le_rfl
      rw [span_length] at bound complete
      rw [Nat.zero_add] at loop
      rw [List.take_take, Nat.min_eq_left bound] at log_eq
      have fits : first ≤ range.length := bound.trans limitRight
      have taken : (range :: ranges).flatten.take first = range.take first := by
        rw [List.flatten_cons, List.take_append_of_le_length fits]
      rw [writeAllRanges, writeAllRange]
      simp only [loop]
      by_cases stops : first = 0 ∨ error.isSome ∨ nwritten + first = n
      · refine ⟨first, error, channel', ?_, ?_, bound.trans limitLeft, ?_, ?_, ?_⟩
        · simp only [ok_bind, if_pos stops, pure_eq_ok]
        · rw [log_eq, taken]
        · rw [List.flatten_cons, List.length_append]
          omega
        · exact fun code failed => .inr (fails code failed)
        · intro trailing success
          have all := complete success
          rw [List.flatten_cons, List.length_append]
          rcases stops with nothing | failed | limit
          · -- Nothing was delivered: the limit is reached, or nothing but empty ranges is left.
            by_cases noLimit : n - nwritten = 0
            · omega
            · have isEmpty : range = [] := by
                unfold limited at all
                split at all
                · omega
                · exact List.length_eq_zero_iff.mp (all.symm.trans nothing)
              have rest_empty : ranges.flatten = [] := by
                rw [List.flatten_eq_nil_iff]
                intro later member
                exact (List.pairwise_cons.mp trailing).1 later member isEmpty
              rw [rest_empty, isEmpty, nothing]
              simp
          · rw [success] at failed
            cases failed
          · omega
      · -- No error and the limit not reached: the range was delivered completely.
        have success : error = none := by
          cases error with
          | none => rfl
          | some code => simp at stops
        have all := complete success
        have full : first = range.length := by
          unfold limited at all
          split at all <;> omega
        obtain ⟨more, error', channel'', rest, log_eq', limit, space, fails', complete'⟩ :=
          ih (nwritten + first) error channel'
        refine ⟨first + more, error', channel'', ?_, ?_, by omega, ?_, ?_, ?_⟩
        · simp only [ok_bind, if_neg stops, rest, Nat.add_assoc]
        · rw [log_eq', log_eq, List.append_assoc, List.flatten_cons, full, List.take_length,
            List.take_length_add_append]
        · rw [List.flatten_cons, List.length_append]
          omega
        · intro code failed
          rcases fails' code failed with previous | fails'
          · rw [success] at previous
            cases previous
          · exact .inr fails'
        · intro trailing success'
          have rest_count := complete' (List.pairwise_cons.mp trailing).2 success'
          rw [List.flatten_cons, List.length_append]
          omega

/-! ## The abstract pump -/

/-- The calls a pump is made of, each with its limit. -/
inductive PumpOp
  | readSome (n : Nat)
  | readAll (n : Nat)
  | asyncWriteSome (n : Nat)
  | writeAll (n : Nat)
  deriving DecidableEq, Repr

/-- What a call returns: the number of elements and the error, if any. -/
structure Transfer (ε : Type) where
  count : Nat
  error : Option ε
  deriving DecidableEq, Repr

/-- An `expected<>` counts nothing when it holds an error. -/
def Transfer.ofExpected : Except ε Nat → Transfer ε
  | .ok count => ⟨count, none⟩
  | .error error => ⟨0, some error⟩

/-- Where the elements of a pump are. -/
structure Flow (α : Type) where
  consumed : List α
  buffered : List α
  delivered : List α
  deriving DecidableEq, Repr

/-- Reading moves at most `n` elements from the source to the end of the
queue, writing moves at most `n` from its front to the sink; the returned
count is the number moved, also when there is an error. -/
inductive Flow.Allows : Flow α → PumpOp → Transfer ε → Flow α → Prop
  | read {op : PumpOp} {n : Nat} (reads : op = .readSome n ∨ op = .readAll n)
      (consumed buffered delivered moved : List α) (error : Option ε) (limit : moved.length ≤ n) :
      Allows ⟨consumed, buffered, delivered⟩ op ⟨moved.length, error⟩
        ⟨consumed ++ moved, buffered ++ moved, delivered⟩
  | write {op : PumpOp} {n : Nat} (writes : op = .asyncWriteSome n ∨ op = .writeAll n)
      (consumed buffered delivered moved : List α) (error : Option ε) (limit : moved.length ≤ n) :
      Allows ⟨consumed, moved ++ buffered, delivered⟩ op ⟨moved.length, error⟩
        ⟨consumed, buffered, delivered ++ moved⟩

/-- Every element taken from the source is in the sink or in the buffer. -/
def Flow.Conserved (flow : Flow α) : Prop :=
  flow.consumed = flow.delivered ++ flow.buffered

theorem Flow.Allows.conserved {flow next : Flow α} {op : PumpOp} {out : Transfer ε}
    (allowed : flow.Allows op out next) (conserved : flow.Conserved) : next.Conserved := by
  cases allowed with
  | read =>
      simp only [Conserved] at conserved ⊢
      rw [conserved, List.append_assoc]
  | write =>
      simp only [Conserved] at conserved ⊢
      rw [conserved, List.append_assoc]

/-- Conservation holds along every abstract run. -/
theorem Flow.conserved_of_trace {flow final : Flow α} {ops : List PumpOp}
    {outs : List (Transfer ε)} (trace : Trace Flow.Allows flow ops outs final)
    (conserved : flow.Conserved) : final.Conserved := by
  induction trace with
  | nil => exact conserved
  | cons allowed _ ih => exact ih (allowed.conserved conserved)

/-! ## Refinement -/

/-- A source, a buffer and a sink. -/
structure Pump (source : Source α ε) (sink : Sink α ε) (β : Type) where
  input : source.logged.State
  buffer : β
  output : sink.logged.State

namespace Pump

variable {source : Source α ε} {sink : Sink α ε}

/-- One call of the pump. -/
def step (ops : RangeBuffer β ρ α) (pump : Pump source sink β) :
    PumpOp → Except Fault (Transfer ε × Pump source sink β)
  | .readSome n => do
      let (result, input, buffer) ← readSome source.logged ops n pump.input pump.buffer
      pure (.ofExpected result, { pump with input, buffer })
  | .readAll n => do
      let ((count, error), input, buffer) ← readAll source.logged ops n pump.input pump.buffer
      pure (⟨count, error⟩, { pump with input, buffer })
  | .asyncWriteSome n => do
      let (result, output, buffer) ← asyncWriteSome sink.logged ops n pump.output pump.buffer
      pure (.ofExpected result, { pump with output, buffer })
  | .writeAll n => do
      let ((count, error), output, buffer) ← writeAll sink.logged ops n pump.output pump.buffer
      pure (⟨count, error⟩, { pump with output, buffer })

/-- The pump is at a flow when the logs and the content are its three parts. -/
structure At (valid : β → Prop) (content : β → List α) (pump : Pump source sink β)
    (flow : Flow α) : Prop where
  valid : valid pump.buffer
  consumed : pump.input.2 = flow.consumed
  buffered : content pump.buffer = flow.buffered
  delivered : pump.output.2 = flow.delivered

section

variable {ops : RangeBuffer β ρ α} {valid : β → Prop} {content : β → List α}

theorem readSome_refines (lawful : ops.Lawful valid content) {pump : Pump source sink β}
    {flow : Flow α} (start : pump.At valid content flow) (n : Nat) :
    ∃ out next flow', pump.step ops (.readSome n) = .ok (out, next) ∧
      flow.Allows (.readSome n) out flow' ∧ next.At valid content flow' := by
  obtain ⟨consumed, buffered, delivered⟩ := flow
  obtain ⟨bufferValid, rfl, rfl, rfl⟩ := start
  obtain ⟨ranges, buffer, ranges_eq, valid', content_eq, filled⟩ :=
    lawful.writable pump.buffer bufferValid
  cases ranges with
  | nil =>
      have allowed := Flow.Allows.read (.inl rfl) pump.input.2 (content pump.buffer)
        pump.output.2 [] (none : Option ε) (Nat.zero_le n)
      refine ⟨_, { pump with buffer }, _, ?_, allowed, valid', ?_, ?_, rfl⟩
      · simp [step, readSome, ranges_eq, Transfer.ofExpected]
      · exact (List.append_nil _).symm
      · simpa using content_eq
  | cons range ranges =>
      have limitLeft := limited_le_left n (ops.size range)
      have limitRight := limited_le_right n (ops.size range)
      cases result : source.logged.readSome pump.input (limited n (ops.size range)) with
      | mk outcome input =>
          rcases source.logged_readSome pump.input (limited n (ops.size range)) with
            ⟨elements, succeeded, log_eq⟩ | ⟨error, failed, log_eq⟩
          · have bound := source.logged.length_le succeeded
            rw [result] at succeeded log_eq
            dsimp only at succeeded log_eq
            subst succeeded
            obtain ⟨final, committed, finalValid, final_content⟩ :=
              filled elements (by rw [RangeBuffer.space_cons]; omega)
            rw [lawful.fill_cons_of_le buffer ranges (bound.trans limitRight)] at committed
            refine ⟨_, ⟨input, final, pump.output⟩, _, ?_,
              .read (.inl rfl) _ _ _ elements none (bound.trans limitLeft), finalValid, log_eq,
              final_content, rfl⟩
            simp [step, readSome, ranges_eq, result, committed, Transfer.ofExpected]
          · rw [result] at failed log_eq
            dsimp only at failed log_eq
            subst failed
            refine ⟨_, ⟨input, buffer, pump.output⟩, _, ?_,
              .read (.inl rfl) _ _ _ [] (some error) (Nat.zero_le n), valid', ?_, ?_, rfl⟩
            · simp [step, readSome, ranges_eq, result, Transfer.ofExpected]
            · exact log_eq.trans (List.append_nil _).symm
            · exact content_eq.trans (List.append_nil _).symm

theorem readAll_refines (lawful : ops.Lawful valid content) {pump : Pump source sink β}
    {flow : Flow α} (start : pump.At valid content flow) (n : Nat) :
    ∃ out next flow', pump.step ops (.readAll n) = .ok (out, next) ∧
      flow.Allows (.readAll n) out flow' ∧ next.At valid content flow' := by
  obtain ⟨consumed, buffered, delivered⟩ := flow
  obtain ⟨bufferValid, rfl, rfl, rfl⟩ := start
  obtain ⟨ranges, buffer, ranges_eq, _, _, filled⟩ := lawful.writable pump.buffer bufferValid
  obtain ⟨moved, error, input, loop, log_eq, limit, space⟩ :=
    readAllRanges_spec source lawful n ranges 0 none pump.input buffer
  obtain ⟨final, committed, finalValid, final_content⟩ := filled moved space
  rw [Nat.zero_add] at loop
  refine ⟨_, ⟨input, final, pump.output⟩, _, ?_, .read (.inr rfl) _ _ _ moved error limit,
    finalValid, log_eq, final_content, rfl⟩
  simp [step, readAll, ranges_eq, loop, committed]

/-- Delivering a prefix of the content and discarding it moves that prefix. -/
theorem write_refines (lawful : ops.Lawful valid content) {pump : Pump source sink β}
    {ranges : List (List α)} (bufferValid : valid pump.buffer)
    (view : ranges.flatten <+: content pump.buffer) {count : Nat}
    (within : count ≤ ranges.flatten.length) {output : sink.logged.State}
    (log_eq : output.2 = pump.output.2 ++ ranges.flatten.take count)
    {op : PumpOp} {n : Nat} (writes : op = .asyncWriteSome n ∨ op = .writeAll n)
    (limit : count ≤ n) (error : Option ε) :
    ∃ buffer flow', ops.discard pump.buffer count = .ok (count, buffer) ∧
      Flow.Allows ⟨pump.input.2, content pump.buffer, pump.output.2⟩ op ⟨count, error⟩ flow' ∧
      At valid content ⟨pump.input, buffer, output⟩ flow' := by
  obtain ⟨later, content_eq⟩ := view
  have whole : count ≤ (content pump.buffer).length := by
    rw [← content_eq, List.length_append]
    omega
  obtain ⟨final, discarded, finalValid, final_content⟩ :=
    lawful.discard pump.buffer count bufferValid whole
  have moved_length : ((content pump.buffer).take count).length = count := by
    rw [List.length_take]
    omega
  have allowed := Flow.Allows.write writes pump.input.2 ((content pump.buffer).drop count)
    pump.output.2 ((content pump.buffer).take count) error (moved_length.le.trans limit)
  rw [List.take_append_drop, moved_length] at allowed
  refine ⟨final, _, discarded, allowed, finalValid, rfl, final_content, ?_⟩
  dsimp only
  rw [log_eq, ← content_eq, List.take_append_of_le_length within]

theorem asyncWriteSome_refines (lawful : ops.Lawful valid content) {pump : Pump source sink β}
    {flow : Flow α} (start : pump.At valid content flow) (n : Nat) :
    ∃ out next flow', pump.step ops (.asyncWriteSome n) = .ok (out, next) ∧
      flow.Allows (.asyncWriteSome n) out flow' ∧ next.At valid content flow' := by
  obtain ⟨consumed, buffered, delivered⟩ := flow
  obtain ⟨bufferValid, rfl, rfl, rfl⟩ := start
  obtain ⟨ranges, ranges_eq, view⟩ := lawful.readable pump.buffer bufferValid
  cases ranges with
  | nil =>
      refine ⟨_, pump, _, ?_, .write (.inl rfl) _ _ _ [] none (Nat.zero_le n), bufferValid, rfl,
        rfl, (List.append_nil _).symm⟩
      simp [step, asyncWriteSome, ranges_eq, Transfer.ofExpected]
  | cons range ranges =>
      have limitLeft := limited_le_left n range.length
      have limitRight := limited_le_right n range.length
      have span_length : (range.take (limited n range.length)).length = limited n range.length := by
        rw [List.length_take]
        omega
      cases result : sink.logged.writeSome pump.output (range.take (limited n range.length)) with
      | mk outcome output =>
          rcases sink.logged_writeSome pump.output (range.take (limited n range.length)) with
            ⟨count, succeeded, log_eq⟩ | ⟨error, failed, log_eq⟩
          · have bound := sink.logged.count_le succeeded
            rw [span_length] at bound
            rw [result] at succeeded log_eq
            dsimp only at succeeded log_eq
            subst succeeded
            rw [List.take_take, Nat.min_eq_left bound] at log_eq
            have within : count ≤ (range :: ranges).flatten.length := by
              rw [List.flatten_cons, List.length_append]
              omega
            have delivered_eq : (range :: ranges).flatten.take count = range.take count := by
              rw [List.flatten_cons, List.take_append_of_le_length (bound.trans limitRight)]
            obtain ⟨buffer, flow', discarded, allowed, finish⟩ :=
              write_refines lawful bufferValid view within (by rw [log_eq, delivered_eq])
                (.inl rfl) (bound.trans limitLeft) none
            refine ⟨_, ⟨pump.input, buffer, output⟩, flow', ?_, allowed, finish⟩
            simp [step, asyncWriteSome, ranges_eq, result, discarded, Transfer.ofExpected]
          · rw [result] at failed log_eq
            dsimp only at failed log_eq
            subst failed
            refine ⟨_, ⟨pump.input, pump.buffer, output⟩, _, ?_,
              .write (.inl rfl) _ _ _ [] (some error) (Nat.zero_le n), bufferValid, rfl, rfl, ?_⟩
            · simp [step, asyncWriteSome, ranges_eq, result, Transfer.ofExpected]
            · exact log_eq.trans (List.append_nil _).symm

theorem writeAll_refines (lawful : ops.Lawful valid content) {pump : Pump source sink β}
    {flow : Flow α} (start : pump.At valid content flow) (n : Nat) :
    ∃ out next flow', pump.step ops (.writeAll n) = .ok (out, next) ∧
      flow.Allows (.writeAll n) out flow' ∧ next.At valid content flow' := by
  obtain ⟨consumed, buffered, delivered⟩ := flow
  obtain ⟨bufferValid, rfl, rfl, rfl⟩ := start
  obtain ⟨ranges, ranges_eq, view⟩ := lawful.readable pump.buffer bufferValid
  obtain ⟨count, error, output, loop, log_eq, limit, within, _⟩ :=
    writeAllRanges_spec sink n ranges 0 none pump.output
  rw [Nat.zero_add] at loop
  obtain ⟨buffer, flow', discarded, allowed, finish⟩ :=
    write_refines lawful bufferValid view within log_eq (.inr rfl) limit error
  refine ⟨_, ⟨pump.input, buffer, output⟩, flow', ?_, allowed, finish⟩
  simp [step, writeAll, ranges_eq, loop, discarded]

/-- Every call of the pump moves one block, for every lawful buffer. -/
theorem step_refines (lawful : ops.Lawful valid content) :
    Refines (step ops) (Flow.Allows (α := α) (ε := ε))
      (fun pump : Pump source sink β => pump.At valid content) (fun _ _ => True) where
  step_refines := by
    intro pump flow op start _
    cases op with
    | readSome n => exact readSome_refines lawful start n
    | readAll n => exact readAll_refines lawful start n
    | asyncWriteSome n => exact asyncWriteSome_refines lawful start n
    | writeAll n => exact writeAll_refines lawful start n

/-- Over every run from an empty buffer, no call faults, every count is what
its call moved, and what was consumed is what was delivered and what is
buffered. -/
theorem run_conserves (lawful : ops.Lawful valid content) (input : source.State) (buffer : β)
    (output : sink.State) (bufferValid : valid buffer) (empty : content buffer = [])
    (calls : List PumpOp) :
    ∃ outs final flow,
      run (step ops) (⟨(input, []), buffer, (output, [])⟩ : Pump source sink β) calls =
        .ok (outs, final) ∧
      Trace (Flow.Allows (ε := ε)) ⟨[], [], []⟩ calls outs flow ∧
      final.input.2 = flow.consumed ∧ content final.buffer = flow.buffered ∧
      final.output.2 = flow.delivered ∧
      final.input.2 = final.output.2 ++ content final.buffer := by
  have start : At valid content (⟨(input, []), buffer, (output, [])⟩ : Pump source sink β)
      ⟨[], [], []⟩ := ⟨bufferValid, rfl, empty, rfl⟩
  obtain ⟨outs, final, flow, ran, trace, finish⟩ :=
    (step_refines lawful).run start (guarded_true _ _ calls)
  refine ⟨outs, final, flow, ran, trace, finish.consumed, finish.buffered, finish.delivered, ?_⟩
  rw [finish.consumed, finish.delivered, finish.buffered]
  exact Flow.conserved_of_trace trace rfl

end

end Pump

end SkAsync.Channel

import SkAsync.Check

/-!
# Channels

A channel call on a non-empty span either transfers between one element and
the length of the span or fails without transferring anything; on an empty
span it transfers nothing.  The two structures carry that contract, so every
result about them holds for every channel that keeps it, whatever it decides
from call to call.

An error code compares unequal to `no_error`, so `Option ε` stands for a
`std::error_code` that may be `no_error`.
-/

namespace SkAsync.Channel

/-- A channel that can be read from sequentially. -/
structure Source (α ε : Type) where
  State : Type
  /-- `read_some` on a span of the given length: the elements stored at its start. -/
  readSome : State → Nat → Except ε (List α) × State
  length_le : ∀ {state length elements},
    (readSome state length).1 = .ok elements → elements.length ≤ length
  progress : ∀ {state length elements}, 0 < length →
    (readSome state length).1 = .ok elements → 0 < elements.length

/-- A channel that can be written to sequentially. -/
structure Sink (α ε : Type) where
  State : Type
  /-- `write_some` on a span of elements: how many of them it accepts. -/
  writeSome : State → List α → Except ε Nat × State
  count_le : ∀ {state span count},
    (writeSome state span).1 = .ok count → count ≤ span.length
  progress : ∀ {state span count}, 0 < span.length →
    (writeSome state span).1 = .ok count → 0 < count

variable {α ε : Type}

/-- The sink answers some non-empty span by this error. -/
def Sink.Fails (sink : Sink α ε) (code : ε) : Prop :=
  ∃ state span, 0 < span.length ∧ (sink.writeSome state span).1 = .error code

/-- The same source, recording every element it hands out. -/
def Source.logged (source : Source α ε) : Source α ε where
  State := source.State × List α
  readSome := fun (state, consumed) length =>
    match source.readSome state length with
    | (.ok elements, next) => (.ok elements, next, consumed ++ elements)
    | (.error error, next) => (.error error, next, consumed)
  length_le := by
    intro state length elements transferred
    cases result : source.readSome state.1 length with
    | mk outcome next =>
        cases outcome with
        | error error => simp [result] at transferred
        | ok elements' =>
            simp only [result, Except.ok.injEq] at transferred
            subst transferred
            exact source.length_le (congrArg Prod.fst result)
  progress := by
    intro state length elements positive transferred
    cases result : source.readSome state.1 length with
    | mk outcome next =>
        cases outcome with
        | error error => simp [result] at transferred
        | ok elements' =>
            simp only [result, Except.ok.injEq] at transferred
            subst transferred
            exact source.progress positive (congrArg Prod.fst result)

/-- The same sink, recording every element it accepted. -/
def Sink.logged (sink : Sink α ε) : Sink α ε where
  State := sink.State × List α
  writeSome := fun (state, delivered) span =>
    match sink.writeSome state span with
    | (.ok count, next) => (.ok count, next, delivered ++ span.take count)
    | (.error error, next) => (.error error, next, delivered)
  count_le := by
    intro state span count accepted
    cases result : sink.writeSome state.1 span with
    | mk outcome next =>
        cases outcome with
        | error error => simp [result] at accepted
        | ok count' =>
            simp only [result, Except.ok.injEq] at accepted
            subst accepted
            exact sink.count_le (congrArg Prod.fst result)
  progress := by
    intro state span count positive accepted
    cases result : sink.writeSome state.1 span with
    | mk outcome next =>
        cases outcome with
        | error error => simp [result] at accepted
        | ok count' =>
            simp only [result, Except.ok.injEq] at accepted
            subst accepted
            exact sink.progress positive (congrArg Prod.fst result)

/-- What one call on a logged source did to its log. -/
theorem Source.logged_readSome (source : Source α ε) (state : source.logged.State) (length : Nat) :
    (∃ elements, (source.logged.readSome state length).1 = .ok elements ∧
      (source.logged.readSome state length).2.2 = state.2 ++ elements) ∨
    (∃ error, (source.logged.readSome state length).1 = .error error ∧
      (source.logged.readSome state length).2.2 = state.2) := by
  obtain ⟨state, consumed⟩ := state
  simp only [logged]
  rcases source.readSome state length with ⟨_ | _, _⟩
  · exact .inr ⟨_, rfl, rfl⟩
  · exact .inl ⟨_, rfl, rfl⟩

/-- What one call on a logged sink did to its log. -/
theorem Sink.logged_writeSome (sink : Sink α ε) (state : sink.logged.State) (span : List α) :
    (∃ count, (sink.logged.writeSome state span).1 = .ok count ∧
      (sink.logged.writeSome state span).2.2 = state.2 ++ span.take count) ∨
    (∃ error, (sink.logged.writeSome state span).1 = .error error ∧
      (sink.logged.writeSome state span).2.2 = state.2) := by
  obtain ⟨state, delivered⟩ := state
  simp only [logged]
  rcases sink.writeSome state span with ⟨_ | _, _⟩
  · exact .inr ⟨_, rfl, rfl⟩
  · exact .inl ⟨_, rfl, rfl⟩

/-- Recording adds no errors. -/
theorem Sink.fails_of_logged {sink : Sink α ε} {code : ε} (fails : sink.logged.Fails code) :
    sink.Fails code := by
  rcases fails with ⟨⟨state, delivered⟩, span, positive, failed⟩
  refine ⟨state, span, positive, ?_⟩
  simp only [logged] at failed
  rcases result : sink.writeSome state span with ⟨_ | _, _⟩
  · rw [result] at failed
    exact failed
  · rw [result] at failed
    cases failed

end SkAsync.Channel

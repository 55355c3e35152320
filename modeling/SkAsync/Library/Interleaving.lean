import Mathlib.Data.List.Basic
import Mathlib.Order.Basic
import Mathlib.Tactic.Common
import Mathlib.Algebra.Order.Ring.Int

/-!
# Interleavings

Several parties act on one state, one atomic step at a time.  An event names the
party and what it does; an event that is not enabled in a state has no next state.
A run is a list of events in the order in which they happen, so a statement about
every list of events is one about every interleaving.

`Along` says that every event of a run is taken in a state that allows it.  The
rules derive from what one step preserves what a whole run preserves.
-/

namespace SkAsync.Library

universe u v

variable {σ : Type u} {ε : Type v} {step : σ → ε → Option σ}

/-- The state after the events, if each of them is enabled in its turn. -/
def execute (step : σ → ε → Option σ) : σ → List ε → Option σ
  | state, [] => some state
  | state, event :: events => (step state event).bind fun next => execute step next events

@[simp]
theorem execute_nil (step : σ → ε → Option σ) (state : σ) : execute step state [] = some state :=
  rfl

theorem execute_cons_eq_some_iff {state final : σ} {event : ε} {events : List ε} :
    execute step state (event :: events) = some final ↔
      ∃ next, step state event = some next ∧ execute step next events = some final :=
  Option.bind_eq_some_iff

/-- A run goes through the state between two parts of it. -/
theorem execute_append_eq_some_iff {state final : σ} {first second : List ε} :
    execute step state (first ++ second) = some final ↔
      ∃ middle, execute step state first = some middle ∧
        execute step middle second = some final := by
  induction first generalizing state with
  | nil => simp
  | cons event first ih =>
      rw [List.cons_append, execute_cons_eq_some_iff]
      constructor
      · rintro ⟨next, stepped, ran⟩
        rcases ih.mp ran with ⟨middle, ran', ran''⟩
        exact ⟨middle, execute_cons_eq_some_iff.mpr ⟨next, stepped, ran'⟩, ran''⟩
      · rintro ⟨middle, ran, ran'⟩
        rcases execute_cons_eq_some_iff.mp ran with ⟨next, stepped, ran''⟩
        exact ⟨next, stepped, ih.mpr ⟨middle, ran'', ran'⟩⟩

/-- Every event is taken in a state that allows it. -/
def Along (step : σ → ε → Option σ) (allowed : σ → ε → Prop) : σ → List ε → Prop
  | _, [] => True
  | state, event :: events =>
      allowed state event ∧ ∀ next, step state event = some next → Along step allowed next events

/-- What is always allowed is allowed along every run. -/
theorem along_of_forall {allowed : σ → ε → Prop} (always : ∀ state event, allowed state event)
    (state : σ) (events : List ε) : Along step allowed state events := by
  induction events generalizing state with
  | nil => trivial
  | cons event events ih => exact ⟨always state event, fun next _ => ih next⟩

/-- When the first event is enabled, only its result matters for the rest. -/
theorem along_cons_iff {allowed : σ → ε → Prop} {state next : σ} {event : ε} {events : List ε}
    (stepped : step state event = some next) :
    Along step allowed state (event :: events) ↔
      allowed state event ∧ Along step allowed next events := by
  constructor
  · rintro ⟨first, rest⟩
    exact ⟨first, rest next stepped⟩
  · rintro ⟨first, rest⟩
    refine ⟨first, fun next' stepped' => ?_⟩
    rw [stepped] at stepped'
    cases stepped'
    exact rest

/-- Whether a run keeps a decidable condition is found out by executing it. -/
instance decidableAlong (step : σ → ε → Option σ) (allowed : σ → ε → Prop)
    [∀ state event, Decidable (allowed state event)] :
    ∀ state events, Decidable (Along step allowed state events)
  | _, [] => isTrue trivial
  | state, event :: events =>
      match stepped : step state event with
      | none => decidable_of_iff (allowed state event) (by simp [Along, stepped])
      | some next =>
          have := decidableAlong step allowed next events
          decidable_of_iff (allowed state event ∧ Along step allowed next events)
            (along_cons_iff stepped).symm

/-- What every step preserves holds at the end of every run. -/
theorem execute_invariant_of_step {invariant : σ → Prop}
    (preserves : ∀ {state event next}, invariant state → step state event = some next →
      invariant next)
    {state final : σ} {events : List ε} (start : invariant state)
    (ran : execute step state events = some final) : invariant final := by
  induction events generalizing state with
  | nil =>
      cases ran
      exact start
  | cons event events ih =>
      rcases execute_cons_eq_some_iff.mp ran with ⟨next, stepped, ran'⟩
      exact ih (preserves start stepped) ran'

/-- The last event of a run is taken in the state that the others lead to. -/
theorem Along.last {allowed : σ → ε → Prop} {state before : σ} {events : List ε} {event : ε}
    (along : Along step allowed state (events ++ [event]))
    (ran : execute step state events = some before) : allowed before event := by
  induction events generalizing state with
  | nil =>
      cases ran
      exact along.1
  | cons first events ih =>
      rcases execute_cons_eq_some_iff.mp ran with ⟨next, stepped, ran'⟩
      exact ih (along.2 next stepped) ran'

/-- What the allowed steps preserve holds at the end of a run that keeps to them. -/
theorem Along.invariant {invariant : σ → Prop} {allowed : σ → ε → Prop}
    (preserves : ∀ {state event next}, invariant state → allowed state event →
      step state event = some next → invariant next)
    {state final : σ} {events : List ε} (along : Along step allowed state events)
    (start : invariant state) (ran : execute step state events = some final) :
    invariant final := by
  induction events generalizing state with
  | nil =>
      cases ran
      exact start
  | cons event events ih =>
      rcases execute_cons_eq_some_iff.mp ran with ⟨next, stepped, ran'⟩
      exact ih (along.2 next stepped) (preserves start along.1 stepped) ran'

/-- A run that keeps a condition keeps every weaker one. -/
theorem Along.imp {allowed property : σ → ε → Prop}
    (implies : ∀ {state event}, allowed state event → property state event)
    {state : σ} {events : List ε} (along : Along step allowed state events) :
    Along step property state events := by
  induction events generalizing state with
  | nil => trivial
  | cons event events ih =>
      exact ⟨implies along.1, fun next stepped => ih (along.2 next stepped)⟩

/-- A run that keeps a condition has every property that the condition gives in the
states it preserves. -/
theorem Along.imp_of_invariant {invariant : σ → Prop} {allowed property : σ → ε → Prop}
    (preserves : ∀ {state event next}, invariant state → allowed state event →
      step state event = some next → invariant next)
    (implies : ∀ {state event}, invariant state → allowed state event → property state event)
    {state : σ} {events : List ε} (start : invariant state)
    (along : Along step allowed state events) : Along step property state events := by
  induction events generalizing state with
  | nil => trivial
  | cons event events ih =>
      refine ⟨implies start along.1, fun next stepped => ?_⟩
      exact ih (preserves start along.1 stepped) (along.2 next stepped)

end SkAsync.Library

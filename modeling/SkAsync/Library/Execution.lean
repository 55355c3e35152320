import Mathlib.Data.Nat.Basic
import Mathlib.Order.Basic
import Mathlib.Tactic.Common
import Mathlib.Algebra.Order.Ring.Int

/-!
# Runs of a fallible step function

A component is given by a step function that either faults or returns an
output and a next state.  A run feeds a list of operations to it and collects
the outputs.  A specification is a relation saying which outputs and next
abstract states one operation allows; `Trace` is its run.

The main rule is `Refines.run`: a one-step refinement that holds under a guard
extends to every guarded run, which then also cannot fault.
-/

namespace SkAsync.Library

universe u v w x y

variable {σ : Type u} {ω : Type v} {ο : Type w} {ε : Type x} {τ : Type y}

@[simp]
theorem ok_bind {α β : Type u} (value : α) (next : α → Except ε β) :
    (Except.ok value >>= next) = next value :=
  rfl

@[simp]
theorem error_bind {α β : Type u} (fault : ε) (next : α → Except ε β) :
    ((Except.error fault : Except ε α) >>= next) = Except.error fault :=
  rfl

@[simp]
theorem pure_eq_ok {α : Type u} (value : α) :
    (pure value : Except ε α) = Except.ok value :=
  rfl

/-- A bind returns a value exactly when both of its parts do. -/
theorem bind_eq_ok_iff {α β : Type u} {first : Except ε α} {next : α → Except ε β}
    {result : β} :
    (first >>= next) = Except.ok result ↔
      ∃ value, first = Except.ok value ∧ next value = Except.ok result := by
  cases first with
  | error fault => simp
  | ok value => simp

/-- Execute the operations in order and collect their outputs.  A fault stops
the whole run. -/
def run (step : σ → ω → Except ε (ο × σ)) : σ → List ω → Except ε (List ο × σ)
  | state, [] => .ok ([], state)
  | state, op :: ops => do
      let (out, next) ← step state op
      let (outs, final) ← run step next ops
      pure (out :: outs, final)

@[simp]
theorem run_nil (step : σ → ω → Except ε (ο × σ)) (state : σ) :
    run step state [] = .ok ([], state) :=
  rfl

theorem run_cons (step : σ → ω → Except ε (ο × σ)) (state : σ) (op : ω) (ops : List ω) :
    run step state (op :: ops) = (step state op >>= fun result =>
      run step result.2 ops >>= fun rest => pure (result.1 :: rest.1, rest.2)) :=
  rfl

theorem run_cons_eq_ok_iff {step : σ → ω → Except ε (ο × σ)} {state : σ} {op : ω}
    {ops : List ω} {outs : List ο} {final : σ} :
    run step state (op :: ops) = .ok (outs, final) ↔
      ∃ out next rest, step state op = .ok (out, next) ∧
        run step next ops = .ok (rest, final) ∧ outs = out :: rest := by
  rw [run_cons]
  constructor
  · intro completed
    obtain ⟨⟨out, next⟩, stepped, tail⟩ := bind_eq_ok_iff.mp completed
    obtain ⟨⟨rest, final'⟩, ran, result⟩ := bind_eq_ok_iff.mp tail
    simp only [pure_eq_ok, Except.ok.injEq, Prod.mk.injEq] at result
    obtain ⟨rfl, rfl⟩ := result
    exact ⟨out, next, rest, stepped, ran, rfl⟩
  · rintro ⟨out, next, rest, stepped, ran, rfl⟩
    simp [stepped, ran]

/-- A run that completes has one outcome. -/
theorem exists_run_iff {step : σ → ω → Except ε (ο × σ)} {state final : σ} {ops : List ω}
    {outs : List ο} (ran : run step state ops = .ok (outs, final)) (property : σ → Prop) :
    (∃ outs' final', run step state ops = .ok (outs', final') ∧ property final') ↔
      property final := by
  constructor
  · rintro ⟨outs', final', ran', holds⟩
    rw [ran] at ran'
    cases ran'
    exact holds
  · exact fun holds => ⟨outs, final, ran, holds⟩

/-- Every operation of the run is taken in a state that satisfies the guard. -/
def Guarded (step : σ → ω → Except ε (ο × σ)) (guard : σ → ω → Prop) : σ → List ω → Prop
  | _, [] => True
  | state, op :: ops =>
      guard state op ∧ ∀ out next, step state op = .ok (out, next) → Guarded step guard next ops

/-- A run without conditions is guarded by the trivial condition. -/
theorem guarded_true (step : σ → ω → Except ε (ο × σ)) (state : σ) (ops : List ω) :
    Guarded step (fun _ _ => True) state ops := by
  induction ops generalizing state with
  | nil => trivial
  | cons op ops ih => exact ⟨trivial, fun _ next _ => ih next⟩

/-- When the first step completes, only its result matters for the rest. -/
theorem guarded_cons_iff {step : σ → ω → Except ε (ο × σ)} {guard : σ → ω → Prop} {state next : σ}
    {op : ω} {out : ο} {ops : List ω} (stepped : step state op = .ok (out, next)) :
    Guarded step guard state (op :: ops) ↔ guard state op ∧ Guarded step guard next ops := by
  constructor
  · rintro ⟨first, rest⟩
    exact ⟨first, rest out next stepped⟩
  · rintro ⟨first, rest⟩
    refine ⟨first, fun out' next' stepped' => ?_⟩
    rw [stepped] at stepped'
    cases stepped'
    exact rest

/-- A run can be checked against a decidable guard by executing it. -/
instance decidableGuarded (step : σ → ω → Except ε (ο × σ)) (guard : σ → ω → Prop)
    [∀ state op, Decidable (guard state op)] :
    ∀ state ops, Decidable (Guarded step guard state ops)
  | _, [] => isTrue trivial
  | state, op :: ops =>
      match stepped : step state op with
      | .error _ => decidable_of_iff (guard state op) (by simp [Guarded, stepped])
      | .ok (_, next) =>
          have := decidableGuarded step guard next ops
          decidable_of_iff (guard state op ∧ Guarded step guard next ops)
            (guarded_cons_iff stepped).symm

/-- What every guarded step keeps holds at the end of every guarded run, which then
also cannot fault. -/
theorem Guarded.exists_run {step : σ → ω → Except ε (ο × σ)} {guard : σ → ω → Prop}
    {invariant : σ → Prop}
    (kept : ∀ {state op}, invariant state → guard state op →
      ∃ out next, step state op = .ok (out, next) ∧ invariant next)
    {state : σ} {ops : List ω} (guarded : Guarded step guard state ops)
    (start : invariant state) :
    ∃ outs final, run step state ops = .ok (outs, final) ∧ invariant final := by
  induction ops generalizing state with
  | nil => exact ⟨[], state, rfl, start⟩
  | cons op ops ih =>
      rcases kept start guarded.1 with ⟨out, next, stepped, invariant'⟩
      rcases ih (guarded.2 out next stepped) invariant' with ⟨outs, final, ran, finish⟩
      exact ⟨out :: outs, final, run_cons_eq_ok_iff.mpr ⟨out, next, outs, stepped, ran, rfl⟩,
        finish⟩

/-- Runs of a specification relation. -/
inductive Trace (allows : τ → ω → ο → τ → Prop) : τ → List ω → List ο → τ → Prop
  | nil (spec : τ) : Trace allows spec [] [] spec
  | cons {spec middle final : τ} {op : ω} {out : ο} {ops : List ω} {outs : List ο} :
      allows spec op out middle → Trace allows middle ops outs final →
      Trace allows spec (op :: ops) (out :: outs) final

/-- One-step refinement under a guard: from related states every guarded
operation completes with an output the specification allows, and the next
states are related again. -/
structure Refines (step : σ → ω → Except ε (ο × σ)) (allows : τ → ω → ο → τ → Prop)
    (related : σ → τ → Prop) (guard : σ → ω → Prop) : Prop where
  step_refines : ∀ {state spec op}, related state spec → guard state op →
    ∃ out next spec', step state op = .ok (out, next) ∧ allows spec op out spec' ∧
      related next spec'

/-- Refinement of one step extends to every guarded run. -/
theorem Refines.run {step : σ → ω → Except ε (ο × σ)} {allows : τ → ω → ο → τ → Prop}
    {related : σ → τ → Prop} {guard : σ → ω → Prop}
    (refines : Refines step allows related guard) {state : σ} {spec : τ} {ops : List ω}
    (start : related state spec) (guarded : Guarded step guard state ops) :
    ∃ outs final spec', Library.run step state ops = .ok (outs, final) ∧
      Trace allows spec ops outs spec' ∧ related final spec' := by
  induction ops generalizing state spec with
  | nil => exact ⟨[], state, spec, rfl, .nil spec, start⟩
  | cons op ops ih =>
      obtain ⟨out, next, middle, stepped, allowed, related'⟩ :=
        refines.step_refines start guarded.1
      obtain ⟨outs, final, spec', ran, trace, finish⟩ :=
        ih related' (guarded.2 out next stepped)
      exact ⟨out :: outs, final, spec', run_cons_eq_ok_iff.mpr
        ⟨out, next, outs, stepped, ran, rfl⟩, .cons allowed trace, finish⟩

/-! ## Runs beside a reference -/

/-- A step that carries along a reference state, which does not influence it. -/
def withReference (step : σ → ω → Except ε (ο × σ)) (next : τ → ω → τ) (both : σ × τ) (op : ω) :
    Except ε (ο × σ × τ) :=
  match step both.1 op with
  | .error fault => .error fault
  | .ok (out, state) => .ok (out, state, next both.2 op)

theorem withReference_of_ok {step : σ → ω → Except ε (ο × σ)} (next : τ → ω → τ) {state state' : σ}
    (spec : τ) {op : ω} {out : ο} (stepped : step state op = .ok (out, state')) :
    withReference step next (state, spec) op = .ok (out, state', next spec op) := by
  rw [withReference, stepped]

end SkAsync.Library

import Mathlib.Data.List.Basic
import Mathlib.Tactic.Common

/-!
# Procedures that call each other

A procedure is given by its positions and by what it does at each: it returns a
result, calls another procedure and goes on with the result, or makes a request and
goes on with the answer, which comes from outside.  A log lists the requests with
their answers.

`Evaluates` is the plain meaning of a position: a call is the evaluation of the callee.
`Runs` goes step by step and keeps what the callers go on with on a stack.  The two
agree for every log, so that a machine which keeps the stack in another way only has
to follow `Advances`.
-/

namespace SkAsync.Library

universe u v w x

/-- What a procedure does next. -/
inductive Command (π : Type u) (κ : Type v) (answer : κ → Type w) (ρ : Type x)
  | finish (result : ρ)
  | call (callee : π) (next : ρ → π)
  | request (question : κ) (next : answer question → π)

variable {π : Type u} {κ : Type v} {answer : κ → Type w} {ρ : Type x}
  {program : π → Command π κ answer ρ}

/-- From this position, with this log, the procedure returns this result. -/
inductive Evaluates (program : π → Command π κ answer ρ) : π → List (Sigma answer) → ρ → Prop
  | finish {position : π} {result : ρ} :
      program position = .finish result → Evaluates program position [] result
  | call {position callee : π} {next : ρ → π} {log log' : List (Sigma answer)}
      {result final : ρ} :
      program position = .call callee next → Evaluates program callee log result →
        Evaluates program (next result) log' final → Evaluates program position (log ++ log') final
  | request {position : π} {question : κ} {next : answer question → π}
      {given : answer question} {log : List (Sigma answer)} {final : ρ} :
      program position = .request question next → Evaluates program (next given) log final →
        Evaluates program position (⟨question, given⟩ :: log) final

/-- Whether the procedure on top of the stack goes on or has returned. -/
inductive Control (π : Type u) (ρ : Type x)
  | run (position : π)
  | ret (result : ρ)

/-- A procedure and what its callers, the latest first, go on with. -/
structure Activation (π : Type u) (ρ : Type x) where
  control : Control π ρ
  callers : List (ρ → π)

/-- One step, and what it adds to the log. -/
inductive Advances (program : π → Command π κ answer ρ) :
    Activation π ρ → List (Sigma answer) → Activation π ρ → Prop
  | finish {position : π} {result : ρ} {callers : List (ρ → π)} :
      program position = .finish result →
        Advances program ⟨.run position, callers⟩ [] ⟨.ret result, callers⟩
  | call {position callee : π} {next : ρ → π} {callers : List (ρ → π)} :
      program position = .call callee next →
        Advances program ⟨.run position, callers⟩ [] ⟨.run callee, next :: callers⟩
  | resume {result : ρ} {next : ρ → π} {callers : List (ρ → π)} :
      Advances program ⟨.ret result, next :: callers⟩ [] ⟨.run (next result), callers⟩
  | request {position : π} {question : κ} {next : answer question → π}
      {given : answer question} {callers : List (ρ → π)} :
      program position = .request question next →
        Advances program ⟨.run position, callers⟩ [⟨question, given⟩] ⟨.run (next given), callers⟩

/-- Any number of steps. -/
inductive Runs (program : π → Command π κ answer ρ) :
    Activation π ρ → List (Sigma answer) → Activation π ρ → Prop
  | refl (activation : Activation π ρ) : Runs program activation [] activation
  | tail {first second third : Activation π ρ} {log entry : List (Sigma answer)} :
      Runs program first log second → Advances program second entry third →
        Runs program first (log ++ entry) third

namespace Runs

theorem single {first second : Activation π ρ} {entry : List (Sigma answer)}
    (step : Advances program first entry second) : Runs program first entry second :=
  tail (refl first) step

theorem trans {first second third : Activation π ρ} {log log' : List (Sigma answer)}
    (before : Runs program first log second) (after : Runs program second log' third) :
    Runs program first (log ++ log') third := by
  induction after with
  | refl => rwa [List.append_nil]
  | tail _ step ih =>
      rw [← List.append_assoc]
      exact tail ih step

/-- A step that makes no request. -/
theorem silent {first second third : Activation π ρ} {log : List (Sigma answer)}
    (before : Runs program first log second) (step : Advances program second [] third) :
    Runs program first log third := by
  have both := tail before step
  rwa [List.append_nil] at both

end Runs

/-- What is evaluated is also reached step by step, whoever the callers are. -/
theorem Evaluates.runs {position : π} {log : List (Sigma answer)} {result : ρ}
    (evaluates : Evaluates program position log result) (callers : List (ρ → π)) :
    Runs program ⟨.run position, callers⟩ log ⟨.ret result, callers⟩ := by
  induction evaluates generalizing callers with
  | finish command => exact Runs.single (.finish command)
  | @call _ _ next _ _ _ _ command _ _ ihCallee ihNext =>
      have returned := (Runs.single (.call command)).trans (ihCallee (next :: callers))
      exact (returned.silent .resume).trans (ihNext callers)
  | request command _ ih => exact (Runs.single (.request command)).trans (ih callers)

/-- What is left of one procedure. -/
def Gives (program : π → Command π κ answer ρ) :
    Control π ρ → List (Sigma answer) → ρ → Prop
  | .run position, log, result => Evaluates program position log result
  | .ret returned, log, result => log = [] ∧ returned = result

/-- What is left of a procedure and of its callers. -/
def Finishes (program : π → Command π κ answer ρ) :
    List (ρ → π) → Control π ρ → List (Sigma answer) → ρ → Prop
  | [], control, log, final => Gives program control log final
  | next :: callers, control, log, final => ∃ first second result, log = first ++ second ∧
      Gives program control first result ∧
        Finishes program callers (.run (next result)) second final

/-- Only the procedure on top of the stack matters to a step that keeps the callers. -/
theorem Finishes.of_gives {callers : List (ρ → π)} {control control' : Control π ρ}
    {entry log : List (Sigma answer)} {final : ρ}
    (gives : ∀ {log result}, Gives program control log result →
      Gives program control' (entry ++ log) result)
    (finishes : Finishes program callers control log final) :
    Finishes program callers control' (entry ++ log) final := by
  cases callers with
  | nil => exact gives finishes
  | cons next callers =>
      rcases finishes with ⟨first, second, result, rfl, given, rest⟩
      exact ⟨entry ++ first, second, result, (List.append_assoc ..).symm, gives given, rest⟩

/-- What is left after a step is left before it, behind what the step adds. -/
theorem Advances.finishes {first second : Activation π ρ} {entry log : List (Sigma answer)}
    {final : ρ} (step : Advances program first entry second)
    (finishes : Finishes program second.callers second.control log final) :
    Finishes program first.callers first.control (entry ++ log) final := by
  cases step with
  | finish command =>
      apply finishes.of_gives
      rintro log result ⟨rfl, rfl⟩
      exact .finish command
  | call command =>
      rcases finishes with ⟨own, rest, result, rfl, given, after⟩
      apply Finishes.of_gives _ after
      intro log result evaluated
      exact .call command given evaluated
  | resume => exact ⟨[], log, _, rfl, ⟨rfl, rfl⟩, finishes⟩
  | request command =>
      apply finishes.of_gives
      intro log result evaluated
      exact .request command evaluated

theorem Runs.finishes {first second : Activation π ρ} {log log' : List (Sigma answer)} {final : ρ}
    (runs : Runs program first log second)
    (finishes : Finishes program second.callers second.control log' final) :
    Finishes program first.callers first.control (log ++ log') final := by
  induction runs generalizing log' with
  | refl => exact finishes
  | tail _ step ih =>
      rw [List.append_assoc]
      exact ih (step.finishes finishes)

/-- Step by step, a procedure without callers returns what it evaluates to. -/
theorem runs_ret_iff {position : π} {log : List (Sigma answer)} {result : ρ} :
    Runs program ⟨.run position, []⟩ log ⟨.ret result, []⟩ ↔
      Evaluates program position log result := by
  constructor
  · intro runs
    have finished : Finishes program [] (.ret result) [] result := ⟨rfl, rfl⟩
    have finishes := runs.finishes finished
    rw [List.append_nil] at finishes
    exact finishes
  · exact fun evaluates => evaluates.runs []

/-! ## What holds of every position -/

/-- A property of positions that a procedure passes on, with the answers that are allowed. -/
structure Closed (program : π → Command π κ answer ρ) (allowed : Sigma answer → Prop)
    (holds : π → Prop) : Prop where
  call : ∀ {position callee next}, holds position → program position = .call callee next →
    holds callee ∧ ∀ result, holds (next result)
  request : ∀ {position question next given}, holds position →
    program position = .request question next → allowed ⟨question, given⟩ → holds (next given)

/-- The property holds where the procedure is, where its callers go on, and where it has
made its requests. -/
theorem Closed.of_runs {allowed : Sigma answer → Prop} {holds : π → Prop}
    (closed : Closed program allowed holds) {first second : Activation π ρ}
    {log : List (Sigma answer)} (runs : Runs program first log second)
    (start : ∀ position, first.control = .run position → holds position)
    (callers : ∀ next ∈ first.callers, ∀ result, holds (next result))
    (answers : ∀ exchange ∈ log, allowed exchange) :
    (∀ position, second.control = .run position → holds position) ∧
      (∀ next ∈ second.callers, ∀ result, holds (next result)) ∧
        ∀ exchange ∈ log, ∃ position next,
          holds position ∧ program position = .request exchange.1 next := by
  induction runs with
  | refl => exact ⟨start, callers, by rintro exchange ⟨⟩⟩
  | @tail second third log entry _ step ih =>
      rcases ih fun exchange member => answers exchange (List.mem_append_left _ member) with
        ⟨here, below, asked⟩
      cases step with
      | finish command =>
          rw [List.append_nil]
          exact ⟨by rintro position ⟨⟩, below, asked⟩
      | call command =>
          rw [List.append_nil]
          rcases closed.call (here _ rfl) command with ⟨callee, after⟩
          refine ⟨?_, ?_, asked⟩
          · rintro position ⟨⟩
            exact callee
          · intro next member
            rcases List.mem_cons.mp member with rfl | member
            · exact after
            · exact below next member
      | resume =>
          rw [List.append_nil]
          refine ⟨?_, fun next member => below next (List.mem_cons_of_mem _ member), asked⟩
          rintro position ⟨⟩
          exact below _ List.mem_cons_self _
      | request command =>
          refine ⟨?_, below, ?_⟩
          · rintro position ⟨⟩
            exact closed.request (here _ rfl) command
              (answers _ (List.mem_append_right _ (List.mem_singleton_self _)))
          · intro exchange member
            rcases List.mem_append.mp member with before | isNew
            · exact asked exchange before
            · rw [List.mem_singleton.mp isNew]
              exact ⟨_, _, here _ rfl, command⟩

/-- If the answers are those of an oracle, a procedure has one log and one result. -/
theorem Evaluates.unique {oracle : (question : κ) → answer question} {position : π}
    {log log' : List (Sigma answer)} {result result' : ρ}
    (evaluates : Evaluates program position log result)
    (answers : ∀ exchange ∈ log, exchange.2 = oracle exchange.1)
    (evaluates' : Evaluates program position log' result')
    (answers' : ∀ exchange ∈ log', exchange.2 = oracle exchange.1) :
    log = log' ∧ result = result' := by
  induction evaluates generalizing log' result' with
  | finish command =>
      cases evaluates' with
      | finish command' =>
          rw [command] at command'
          cases command'
          exact ⟨rfl, rfl⟩
      | call command' =>
          rw [command] at command'
          cases command'
      | request command' =>
          rw [command] at command'
          cases command'
  | call command _ _ ihCallee ihNext =>
      cases evaluates' with
      | finish command' =>
          rw [command] at command'
          cases command'
      | call command' callee' after' =>
          rw [command] at command'
          cases command'
          rcases ihCallee (fun exchange member => answers exchange (List.mem_append_left _ member))
            callee' (fun exchange member => answers' exchange (List.mem_append_left _ member)) with
            ⟨rfl, rfl⟩
          rcases ihNext (fun exchange member => answers exchange (List.mem_append_right _ member))
            after' (fun exchange member => answers' exchange (List.mem_append_right _ member)) with
            ⟨rfl, rfl⟩
          exact ⟨rfl, rfl⟩
      | request command' =>
          rw [command] at command'
          cases command'
  | request command _ ih =>
      cases evaluates' with
      | finish command' =>
          rw [command] at command'
          cases command'
      | call command' =>
          rw [command] at command'
          cases command'
      | request command' after' =>
          rw [command] at command'
          cases command'
          have given := answers _ List.mem_cons_self
          have given' := answers' _ List.mem_cons_self
          dsimp only at given given'
          subst given given'
          rcases ih (fun exchange member => answers exchange (List.mem_cons_of_mem _ member)) after'
            (fun exchange member => answers' exchange (List.mem_cons_of_mem _ member)) with
            ⟨rfl, rfl⟩
          exact ⟨rfl, rfl⟩

end SkAsync.Library

import SkAsync.Task.Invariant

/-!
# The executor of a detached task

`co_detach` takes an executor or asks for that of the task it is called in.  A task that
is told of executors only has one in any case, and where every call of `co_detach` names
its executor, no other is used.
-/

namespace SkAsync.Coroutine

open SkAsync.Library

variable {β α ε γ : Type} [Inhabited α] {user : β → Statement β α ε γ}
  {respond : γ → Except ε α → Prop} {allowed : Executor → Prop}

/-! ## What a position asks for -/

/-- The calls of a program. -/
inductive Calls (user : β → Statement β α ε γ) :
    Position β α ε γ → Position β α ε γ → (Except ε α → Position β α ε γ) → Prop
  | coAwait {start : β} {task : Task β γ} {next : Except ε α → β} :
      user start = .coAwait task next →
        Calls user (.user start) task.entry fun result => .user (next result)

/-- The requests of a program. -/
inductive Asks (user : β → Statement β α ε γ) :
    Position β α ε γ → (question : Request β γ) → (Answer α ε question → Position β α ε γ) → Prop
  | coGetExecutor {start : β} {next : Option Executor → β} :
      user start = .coGetExecutor next →
        Asks user (.user start) .getExecutor fun xer => .user (next xer)
  | asyncInvoke {callable : γ} :
      Asks user (.asyncInvoke callable) (.invoke callable) Position.behind
  | choose {task : Task β γ} :
      Asks user (.coDetach task none) .getExecutor fun xer => .detaching task xer
  | coDetach {task : Task β γ} {xer : Executor} :
      Asks user (.coDetach task (some xer)) (.start task (some xer)) Position.started
  | detaching {task : Task β γ} {xer : Option Executor} :
      Asks user (.detaching task xer) (.start task xer) Position.started

theorem calls_of_program {position callee : Position β α ε γ}
    {next : Except ε α → Position β α ε γ}
    (command : program user position = .call callee next) : Calls user position callee next := by
  cases position with
  | user start =>
      unfold program at command
      cases statement : user start with
      | coAwait task next' =>
          simp only [statement] at command
          cases command
          exact .coAwait statement
      | coReturn value =>
          simp only [statement] at command
          cases command
      | throw exception =>
          simp only [statement] at command
          cases command
      | coGetExecutor next' =>
          simp only [statement] at command
          cases command
  | asyncInvoke callable => cases command
  | coDetach task xer => cases xer <;> cases command
  | detaching task xer => cases command
  | returning value => cases command
  | raising exception => cases command

theorem asks_of_program {position : Position β α ε γ} {question : Request β γ}
    {next : Answer α ε question → Position β α ε γ}
    (command : program user position = .request question next) :
    Asks user position question next := by
  cases position with
  | user start =>
      unfold program at command
      cases statement : user start with
      | coGetExecutor next' =>
          simp only [statement] at command
          cases command
          exact .coGetExecutor statement
      | coReturn value =>
          simp only [statement] at command
          cases command
      | throw exception =>
          simp only [statement] at command
          cases command
      | coAwait task next' =>
          simp only [statement] at command
          cases command
  | asyncInvoke callable =>
      cases command
      exact .asyncInvoke
  | coDetach task chosen =>
      cases chosen with
      | none =>
          cases command
          exact .choose
      | some chosen =>
          cases command
          exact .coDetach
  | detaching task chosen =>
      cases command
      exact .detaching
  | returning value => cases command
  | raising exception => cases command

/-! ## `co_detach` has an executor -/

/-- A position behind the choice of an executor. -/
def Position.HasExecutor : Position β α ε γ → Prop
  | .detaching _ xer => xer ≠ none
  | _ => True

omit [Inhabited α] in
theorem Task.entry_hasExecutor (task : Task β γ) :
    (task.entry : Position β α ε γ).HasExecutor := by
  cases task <;> trivial

/-- Only the answer to `co_get_executor` could be null. -/
theorem closed_hasExecutor {xer : Executor} :
    Closed (program user) (Fits respond xer) (Position.HasExecutor : Position β α ε γ → Prop) := by
  constructor
  · intro position callee next _ command
    cases calls_of_program command with
    | coAwait => exact ⟨Task.entry_hasExecutor _, fun _ => trivial⟩
  · intro position question next given _ command fits
    cases asks_of_program command with
    | coGetExecutor => trivial
    | asyncInvoke => cases given <;> trivial
    | choose =>
        change given = some xer at fits
        rw [fits]
        rintro ⟨⟩
    | coDetach => cases given <;> trivial
    | detaching => cases given <;> trivial

/-- A task that is told of executors only always has one to start another with. -/
theorem started_executor {task detached : Task β γ} {log : List (Exchange β α ε γ)}
    {position : Position β α ε γ} {callers : List (Except ε α → Position β α ε γ)}
    {xer : Executor} {chosen : Option Executor} {next : Except ε Unit → Position β α ε γ}
    (runs : Runs (program user) ⟨.run task.entry, []⟩ log ⟨.run position, callers⟩)
    (fits : ∀ exchange ∈ log, Fits respond xer exchange)
    (command : program user position = .request (.start detached chosen) next) :
    chosen ≠ none := by
  have holds := closed_hasExecutor.of_runs runs (by rintro position ⟨⟩; exact task.entry_hasExecutor)
    (by rintro next ⟨⟩) fits
  have here := holds.1 position rfl
  cases asks_of_program command with
  | coDetach => rintro ⟨⟩
  | detaching => exact here

/-! ## Named executors -/

/-- Every `co_detach` in a task names an executor that is allowed. -/
def Task.Explicit (allowed : Executor → Prop) : Task β γ → Prop
  | .body _ => True
  | .asyncInvoke _ => True
  | .coDetach task xer => (∃ chosen, xer = some chosen ∧ allowed chosen) ∧ task.Explicit allowed

/-- The same of a position. -/
def Position.Explicit (allowed : Executor → Prop) : Position β α ε γ → Prop
  | .coDetach task xer => (∃ chosen, xer = some chosen ∧ allowed chosen) ∧ task.Explicit allowed
  | .detaching _ _ => False
  | _ => True

omit [Inhabited α] in
theorem Task.entry_explicit {task : Task β γ} (explicit : task.Explicit allowed) :
    (task.entry : Position β α ε γ).Explicit allowed := by
  cases task with
  | body start => trivial
  | asyncInvoke callable => trivial
  | coDetach task xer => exact explicit

theorem closed_explicit
    (explicit : ∀ {position task next}, user position = .coAwait task next → task.Explicit allowed) :
    Closed (program user) (fun _ : Exchange β α ε γ => True) (Position.Explicit allowed) := by
  constructor
  · intro position callee next _ command
    cases calls_of_program command with
    | coAwait statement => exact ⟨Task.entry_explicit (explicit statement), fun _ => trivial⟩
  · intro position question next given holds command _
    cases asks_of_program command with
    | coGetExecutor => trivial
    | asyncInvoke => cases given <;> trivial
    | choose =>
        have none_eq := holds.1.choose_spec.1
        cases none_eq
    | coDetach => cases given <;> trivial
    | detaching => cases holds

/-- What is asked for at such a position. -/
theorem Asks.explicit {position : Position β α ε γ} {detached : Task β γ} {chosen : Option Executor}
    {next : Except ε Unit → Position β α ε γ}
    (asks : Asks user position (.start detached chosen) next)
    (explicit : position.Explicit allowed) :
    detached.Explicit allowed ∧ ∃ xer, chosen = some xer ∧ allowed xer := by
  cases asks with
  | coDetach => exact ⟨explicit.2, explicit.1⟩
  | detaching => cases explicit

end SkAsync.Coroutine

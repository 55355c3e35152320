import SkAsync.Task.Run

/-!
# What `wait` returns

In every interleaving, each flow that ends does so once and with a result of its
program, evaluated as if every call were made in place.  The only ways in which a process
stops otherwise are those of `Process.Halts`, which tasks that are not detached never take.
-/

namespace SkAsync.Coroutine

open SkAsync.Library

variable {β α ε γ : Type} [Inhabited α] {user : β → Statement β α ε γ}
  {respond : γ → Except ε α → Prop} {task : Task β γ} {nthreads : Nat}
  {events : List (Event α ε)} {final : Process β α ε γ}

/-- A task that awaits the callable 3 on another thread and returns what this returns. -/
def invokes : Nat → Statement Nat Nat Nat Nat
  | 0 => .coAwait (.asyncInvoke 3) fun
      | .ok value => value + 1
      | .error exception => exception + 1
  | value + 1 => .coReturn value

/-- The callable returns before `await_suspend` does, and its thread ends after the coroutine
has been resumed. -/
def invoking : List (Event Nat Nat) :=
  [.advance 0, .advance 0, .invoked 0 (.ok 9), .unlock 0, .post 0, .dequeue 0, .resume 0,
    .finish 0, .advance 0, .advance 0, .advance 0, .advance 0, .dequeue 0]

/-- In every interleaving, `wait` returns what its task evaluates to with answers that the
callables have given. -/
theorem wait_evaluates {result : Except ε α}
    (answers : Along (Process.step user) (fun process event => event.Answers respond process)
      (Process.initial task nthreads) events)
    (ran : execute (Process.step user) (Process.initial task nthreads) events = some final)
    (returned : final.runners 0 = .returned result) :
    ∃ log, Evaluates (program user) task.entry log result ∧
      ∀ exchange ∈ log, Fits respond .wait exchange := by
  have sound : Answered user respond final ∧ Root task final := by
    rcases run_invariant answers ran with invariant | stopped
    · exact ⟨invariant.answered, invariant.root⟩
    · exact ⟨stopped.answered, stopped.root⟩
  rcases sound.2.main with ⟨flow, found, task_eq, xer_eq, _⟩
  rcases sound.2.returned returned with ⟨flow', found', outcome⟩
  rw [found] at found'
  cases found'
  refine ⟨flow.log, ?_, fun exchange member => ?_⟩
  · rw [← task_eq]
    exact sound.1.evaluates found outcome
  · rw [← xer_eq]
    exact sound.1.fits found member

theorem wait_evaluates_invokes :
    ∃ log, Evaluates (program invokes) (.user 0) log (.ok 9) ∧
      ∀ exchange ∈ log, Fits (fun callable outcome => outcome = .ok (callable * 3)) .wait exchange :=
  wait_evaluates (by decide)
    (rfl : execute (Process.step invokes) (Process.initial (.body 0) 0) invoking = some _) rfl

/-- The flows use the executors that `co_detach` has named. -/
def Declared (allowed : Executor → Prop) (process : Process β α ε γ) : Prop :=
  ∀ identity flow, process.flows identity = some flow →
    flow.task.Explicit allowed ∧ (identity ≠ 0 → allowed flow.xer)

variable {allowed : Executor → Prop}

theorem Steps.declared {process process' : Process β α ε γ}
    (steps : Steps user respond task nthreads process process')
    (explicit : ∀ {position task next}, user position = .coAwait task next →
      task.Explicit allowed)
    (declared : Declared allowed process) : Declared allowed process' := by
  intro identity flow' found
  rcases steps.flow_from found with ⟨flow, before, continues⟩ |
    ⟨starter, flow, position, callers, next, starter_found, runs, command⟩
  · rw [continues.task_eq, continues.xer_eq]
    exact declared identity flow before
  · have starts : (flow.task.entry : Position β α ε γ).Explicit allowed :=
      Task.entry_explicit (declared starter flow starter_found).1
    have holds := (closed_explicit explicit).of_runs runs (by rintro position ⟨⟩; exact starts)
      (by rintro next ⟨⟩) fun _ _ => trivial
    rcases (asks_of_program command).explicit (holds.1 position rfl) with ⟨isExplicit, xer, same, ok⟩
    cases same
    exact ⟨isExplicit, fun _ => ok⟩

theorem run_declared
    (explicit : ∀ {position task next}, user position = .coAwait task next →
      task.Explicit allowed) (main : task.Explicit allowed)
    (ran : execute (Process.step user) (Process.initial task nthreads) events = some final) :
    Declared allowed final := by
  let holds (process : Process β α ε γ) : Prop :=
    (Invariant user (fun _ _ => True) task nthreads process ∨
      Stopped user (fun _ _ => True) task process) ∧ Declared allowed process
  have start : holds (Process.initial task nthreads) := by
    refine ⟨.inl initial_invariant, ?_⟩
    intro identity flow found
    rcases initial_flow found with ⟨rfl, rfl⟩
    exact ⟨main, absurd rfl⟩
  have preserves : ∀ {process event next}, holds process → process.step user event = some next →
      holds next := by
    rintro process event next ⟨invariant | stopped, declared⟩ stepped
    · have steps := invariant.step (event.answers_all process) stepped
      exact ⟨steps.sound.imp_right And.left, steps.declared explicit declared⟩
    · rw [stopped.halts.step_eq_none] at stepped
      cases stepped
  exact (execute_invariant_of_step preserves start ran).2

/-- Where every call of `co_detach` names the system executor, no work is posted to the
executor of a call of `wait` that has returned. -/
theorem run_not_executorGone
    (explicit : ∀ {position task next}, user position = .coAwait task next →
      task.Explicit (· = .system)) (main : task.Explicit (· = .system))
    (ran : execute (Process.step user) (Process.initial task nthreads) events = some final) :
    final.misuse = none := by
  rcases run_sound ran with invariant | stopped
  · exact invariant.misuse_eq
  · rcases stopped.halts with ⟨_, misuse_eq, _⟩ | ⟨_, _, _, found, notMain, isWait, _⟩
    · exact misuse_eq
    · have named := (run_declared explicit main ran _ _ found).2 notMain
      rw [isWait] at named
      cases named

/-- A task that detaches one and returns. -/
def detaches (xer : Option Executor) : Nat → Statement Nat Nat Nat Nat
  | 0 => .coAwait (.coDetach (.asyncInvoke 3) xer) fun _ => 1
  | value + 1 => .coReturn value

/-- `wait` returns while the detached task waits for its callable. -/
def detaching : List (Event Nat Nat) :=
  [.advance 0, .advance 0, .advance 0, .unlock 0, .advance 0, .advance 0, .advance 0, .advance 0,
    .dequeue 0, .invoked 0 (.ok 9), .post 0]

theorem run_not_executorGone_detaches :
    ∃ final, execute (Process.step (detaches (some .system))) (Process.initial (.body 0) 1)
      detaching = some final ∧ final.misuse = none := by
  have ran : execute (Process.step (detaches (some .system))) (Process.initial (.body 0) 1)
      detaching = some _ := rfl
  have main : (Task.body 0 : Task Nat Nat).Explicit (· = .system) := trivial
  refine ⟨_, ran, run_not_executorGone ?_ main ran⟩
  intro position task next statement
  cases position with
  | zero =>
      cases statement
      exact ⟨⟨.system, rfl, rfl⟩, trivial⟩
  | succ value => cases statement

/-- Without the name of an executor, the work of the task is posted to the executor of
`wait`. -/
example : ((execute (Process.step (detaches none)) (Process.initial (.body 0) 1)
    [.advance 0, .advance 0, .advance 0, .advance 0, .unlock 0, .advance 0, .advance 0, .advance 0,
      .advance 0, .dequeue 0, .invoked 0 (.ok 9), .post 0]).map Process.misuse) =
        some (some .executorGone) := by
  decide

/-- The answers that a task gets which detaches none. -/
def answer (run : γ → Except ε α) : (question : Request β γ) → Answer α ε question
  | .invoke callable => run callable
  | .getExecutor => some .wait
  | .start _ _ => .ok ()

theorem answered_by_callables {log : List (Exchange β α ε γ)} {result : Except ε α}
    (explicit : ∀ {position task next}, user position = .coAwait task next →
      task.Explicit fun _ => False) (main : task.Explicit fun _ => False)
    {run : γ → Except ε α} (evaluates : Evaluates (program user) task.entry log result)
    (fits : ∀ exchange ∈ log, Fits (fun callable outcome => outcome = run callable) .wait exchange) :
    ∀ exchange ∈ log, exchange.2 = answer run exchange.1 := by
  have starts : (task.entry : Position β α ε γ).Explicit fun _ => False := Task.entry_explicit main
  have holds := (closed_explicit explicit).of_runs (evaluates.runs [])
    (by rintro position ⟨⟩; exact starts) (by rintro next ⟨⟩) fun _ _ => trivial
  rintro ⟨question, given⟩ member
  have fitted := fits _ member
  cases question with
  | invoke callable => exact fitted
  | getExecutor => exact fitted
  | start detached xer =>
      rcases holds.2.2 _ member with ⟨position, next, isExplicit, command⟩
      rcases (asks_of_program command).explicit isExplicit with ⟨_, _, _, impossible⟩
      exact impossible.elim

/-- Two calls of `wait` on a task that detaches none, with any number of threads and in any
interleaving, return the same if the callables do. -/
theorem wait_unique {nthreads' : Nat} {events' : List (Event α ε)} {final' : Process β α ε γ}
    {result result' : Except ε α}
    (explicit : ∀ {position task next}, user position = .coAwait task next →
      task.Explicit fun _ => False) (main : task.Explicit fun _ => False)
    {run : γ → Except ε α}
    (answers : Along (Process.step user) (fun process event =>
      event.Answers (fun callable outcome => outcome = run callable) process)
        (Process.initial task nthreads) events)
    (ran : execute (Process.step user) (Process.initial task nthreads) events = some final)
    (returned : final.runners 0 = .returned result)
    (answers' : Along (Process.step user) (fun process event =>
      event.Answers (fun callable outcome => outcome = run callable) process)
        (Process.initial task nthreads') events')
    (ran' : execute (Process.step user) (Process.initial task nthreads') events' = some final')
    (returned' : final'.runners 0 = .returned result') : result = result' := by
  rcases wait_evaluates answers ran returned with ⟨log, evaluates, fits⟩
  rcases wait_evaluates answers' ran' returned' with ⟨log', evaluates', fits'⟩
  exact (evaluates.unique (answered_by_callables explicit main evaluates fits) evaluates'
    (answered_by_callables explicit main evaluates' fits')).2

/-- The same task on two threads, where the coroutine is resumed before the thread of the
call has ended. -/
def invoking' : List (Event Nat Nat) :=
  [.advance 0, .advance 0, .unlock 0, .invoked 0 (.ok 9), .post 0, .finish 0, .dequeue 0, .resume 0,
    .advance 0, .advance 0, .advance 0, .advance 0, .dequeue 0]

theorem invokes_explicit {position : Nat} {task : Task Nat Nat} {next : Except Nat Nat → Nat}
    (statement : invokes position = .coAwait task next) : task.Explicit fun _ => False := by
  cases position with
  | zero =>
      cases statement
      trivial
  | succ value => cases statement

theorem wait_unique_invokes :
    ∃ final final' result result',
      execute (Process.step invokes) (Process.initial (.body 0) 0) invoking = some final ∧
        final.runners 0 = .returned result ∧
          execute (Process.step invokes) (Process.initial (.body 0) 2) invoking' = some final' ∧
            final'.runners 0 = .returned result' ∧ result = result' := by
  have ran : execute (Process.step invokes) (Process.initial (.body 0) 0) invoking = some _ := rfl
  have ran' : execute (Process.step invokes) (Process.initial (.body 0) 2) invoking' = some _ := rfl
  have answers : Along (Process.step invokes) (fun process event => event.Answers
      (fun callable outcome => outcome = .ok (callable * 3)) process)
        (Process.initial (.body 0) 0) invoking := by
    decide
  have answers' : Along (Process.step invokes) (fun process event => event.Answers
      (fun callable outcome => outcome = .ok (callable * 3)) process)
        (Process.initial (.body 0) 2) invoking' := by
    decide
  have explicit : ∀ {position task next}, invokes position = .coAwait task next →
      task.Explicit fun _ => False := invokes_explicit
  have main : (Task.body 0 : Task Nat Nat).Explicit fun _ => False := trivial
  exact ⟨_, _, _, _, ran, rfl, ran', rfl,
    wait_unique explicit main answers ran rfl answers' ran' rfl⟩

end SkAsync.Coroutine

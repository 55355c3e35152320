import SkAsync.Task.Wait

/-!
# Progress

As long as `wait` has not returned, some thread can make a step, unless the callable that
the task of `wait` waits for has thrown: the exception stays in the future of the call, no
work is posted, and the coroutine is never resumed.
-/

namespace SkAsync.Coroutine

open SkAsync.Library

variable {β α ε γ : Type} [Inhabited α] {user : β → Statement β α ε γ}
  {respond : γ → Except ε α → Prop} {task : Task β γ} {nthreads : Nat}
  {process : Process β α ε γ}

/-- A flow waits for a call whose callable has thrown. -/
def Stranded (process : Process β α ε γ) (identity : Nat) : Prop :=
  ∃ call state exception, process.calls call = some state ∧ state.flow = identity ∧
    state.resumed = false ∧ state.phase = .raised exception

/-- No thread can make a step. -/
def Stuck (user : β → Statement β α ε γ) (process : Process β α ε γ) : Prop :=
  ∀ event, process.step user event = none

/-! ## What a process that is stuck does not do -/

theorem Stuck.not_suspending (stuck : Stuck user process)
    (invariant : Invariant user respond task nthreads process) {runner : Nat} {top : Activity}
    {below : List Activity} : process.runners runner ≠ .suspending top below := by
  intro suspending
  have blocked := stuck (.unlock runner)
  rw [invariant.step_eq, Process.act] at blocked
  rw [suspending] at blocked
  cases blocked

/-- A coroutine only stops before its next suspension for a thread that has posted its work
and not ended. -/
theorem Invariant.advance_blocked (invariant : Invariant user respond task nthreads process)
    {runner : Nat} {top : Activity} {below : List Activity}
    (running : process.runners runner = .running top below)
    (blocked : process.advance user runner top below = none) :
    ∃ call state value, process.calls call = some state ∧ state.phase = .posted value := by
  rcases invariant.placed.stands (Process.standing_running running) with
    ⟨flow, frame, activation, located⟩
  have found : process.frames top.handle = some frame := located.frame_found
  have shows := located.shows
  unfold Process.advance at blocked
  rw [found] at blocked
  dsimp only at blocked
  cases shows with
  | «at» point =>
      rw [point] at blocked
      dsimp only at blocked
      split at blocked <;> cases blocked
  | awaiting point ended_found =>
      rw [point] at blocked
      dsimp only at blocked
      rw [ended_found] at blocked
      cases blocked
  | starting point =>
      rw [point] at blocked
      cases blocked
  | detached point =>
      rw [point] at blocked
      cases blocked
  | @invoking call locked next position state callers point command called =>
      rcases located.allows.2 call locked next point with ⟨state', called', _, _, posted⟩
      rw [called] at called'
      cases called'
      rw [point] at blocked
      dsimp only at blocked
      rw [called] at blocked
      dsimp only at blocked
      cases phase : state.phase with
      | posted value => exact ⟨call, state, value, called, phase⟩
      | ready value =>
          rw [phase] at blocked
          cases blocked
      | calling =>
          rw [phase] at posted
          cases posted
      | returned value =>
          rw [phase] at posted
          cases posted
      | raised exception =>
          rw [phase] at posted
          cases posted

theorem Stuck.not_running (stuck : Stuck user process)
    (invariant : Invariant user respond task nthreads process) {runner : Nat} {top : Activity}
    {below : List Activity} : process.runners runner ≠ .running top below := by
  intro running
  have blocked := stuck (.advance runner)
  rw [invariant.step_eq, Process.act] at blocked
  rw [running] at blocked
  rcases invariant.advance_blocked running blocked with ⟨call, state, value, found, posted⟩
  have finished := stuck (.finish call)
  rw [invariant.step_eq, Process.act] at finished
  rw [found] at finished
  dsimp only at finished
  rw [posted] at finished
  cases finished

theorem Stuck.not_took (stuck : Stuck user process)
    (invariant : Invariant user respond task nthreads process) {runner call : Nat} :
    process.runners runner ≠ .took call := by
  intro took
  rcases invariant.work.taken took with ⟨state, found, awaits⟩
  rcases invariant.placed.stands (Process.standing_call found awaits.resumed_eq) with
    ⟨_, frame, _, located⟩
  have frame_found : process.frames state.frame = some frame := located.frame_found
  rcases located.allows with ⟨_, locked, next, point⟩
  cases locked with
  | true =>
      rcases invariant.locks.holder found awaits.resumed_eq frame_found point with
        ⟨holder, top, below, suspending, _⟩
      exact stuck.not_suspending invariant suspending
  | false =>
      have blocked := stuck (.resume runner)
      rw [invariant.step_eq, Process.act] at blocked
      rw [took] at blocked
      dsimp only at blocked
      unfold Process.runWork at blocked
      rw [found] at blocked
      dsimp only at blocked
      rw [frame_found] at blocked
      dsimp only at blocked
      rw [point] at blocked
      cases blocked

/-- Nothing is on the stack of any thread. -/
theorem Stuck.stack_eq (stuck : Stuck user process)
    (invariant : Invariant user respond task nthreads process) (runner depth : Nat) :
    process.standing (.slot runner depth) = none := by
  rw [Process.standing]
  cases found : process.runners runner with
  | running top below => exact absurd found (stuck.not_running invariant)
  | suspending top below => exact absurd found (stuck.not_suspending invariant)
  | _ => rfl

/-- A thread of an executor is blocked in its loop, unless it is the main thread and `wait`
has returned. -/
theorem Stuck.idle (stuck : Stuck user process)
    (invariant : Invariant user respond task nthreads process) {runner : Nat}
    (inside : runner ≤ nthreads) : process.runners runner = .idle ∨
      runner = 0 ∧ ∃ result, process.runners 0 = .returned result := by
  cases found : process.runners runner with
  | idle => exact .inl rfl
  | absent => exact absurd found (invariant.crew.present inside)
  | took call => exact absurd found (stuck.not_took invariant)
  | running top below => exact absurd found (stuck.not_running invariant)
  | suspending top below => exact absurd found (stuck.not_suspending invariant)
  | returned result =>
      have main := invariant.crew.main_only found
      subst main
      exact .inr ⟨rfl, result, found⟩

/-- The queue of a thread that is blocked in its loop is empty, and for the main thread the
task of `wait` has not ended. -/
theorem Stuck.queue_eq (stuck : Stuck user process)
    (invariant : Invariant user respond task nthreads process) {runner : Nat}
    (idle : process.runners runner = .idle) : process.queue (executorOf runner) = [] ∧
      (runner = 0 → ∃ flow, process.flows 0 = some flow ∧ flow.outcome = none) := by
  have blocked := stuck (.dequeue runner)
  rw [invariant.step_eq, Process.act] at blocked
  rw [idle] at blocked
  dsimp only at blocked
  unfold Process.dequeue at blocked
  by_cases main : runner = 0
  · subst main
    rw [if_pos rfl] at blocked
    rcases invariant.main_frame with ⟨flow, frame, flow_found, frame_found, state⟩
    rw [frame_found] at blocked
    dsimp only at blocked
    split at blocked
    next => cases blocked
    next goesOn =>
      refine ⟨Process.take_eq_none_iff.mp blocked, fun _ => ⟨flow, flow_found, ?_⟩⟩
      rcases state with ⟨outcome, _⟩ | ⟨_, final⟩
      · exact outcome
      · exact absurd final goesOn
  · rw [if_neg main] at blocked
    exact ⟨Process.take_eq_none_iff.mp blocked, fun isMain => absurd isMain main⟩

/-- A flow that waits in a process that is stuck does so for ever. -/
theorem Stuck.waiting (stuck : Stuck user process)
    (invariant : Invariant user respond task nthreads process) (positive : 0 < nthreads)
    {call : Nat} {state : Call α ε γ} (found : process.calls call = some state)
    (waits : state.resumed = false) : Stranded process state.flow ∨
      (∃ result, process.runners 0 = .returned result) ∧
        ∃ flow, process.flows state.flow = some flow ∧ flow.xer = .wait := by
  have queued : state.phase.HasPosted → (∃ result, process.runners 0 = .returned result) ∧
      ∃ flow, process.flows state.flow = some flow ∧ flow.xer = .wait := by
    intro posted
    rcases invariant.work.found found waits posted with ⟨xer, member⟩ | ⟨runner, took⟩
    · cases xer with
      | wait =>
          rcases stuck.idle invariant (Nat.zero_le _) with idle | ⟨_, returned⟩
          · have empty : process.queue .wait = [] := (stuck.queue_eq invariant idle).1
            rw [empty] at member
            cases member
          · rcases invariant.work.executor found with ⟨flow, flow_found, taskExecutor⟩
            rcases invariant.work.queued member with ⟨state', found', awaits⟩
            rw [found] at found'
            cases found'
            have executor_eq := awaits.taskExecutor_eq
            rw [taskExecutor] at executor_eq
            exact ⟨returned, flow, flow_found, Option.some.inj executor_eq⟩
      | system =>
          rcases stuck.idle invariant (Nat.succ_le_of_lt positive) with idle | ⟨impossible, _⟩
          · have empty : process.queue .system = [] := (stuck.queue_eq invariant idle).1
            rw [empty] at member
            cases member
          · cases impossible
    · exact absurd took (stuck.not_took invariant)
  cases phase : state.phase with
  | calling =>
      have blocked := stuck (.invoked call (.ok default))
      rw [invariant.step_eq, Process.act] at blocked
      rw [found] at blocked
      dsimp only at blocked
      rw [phase] at blocked
      cases blocked
  | returned value =>
      have blocked := stuck (.post call)
      rw [invariant.step_eq, Process.act] at blocked
      rw [found] at blocked
      dsimp only at blocked
      rw [phase] at blocked
      cases blocked
  | posted value => exact .inr (queued (by rw [phase]; trivial))
  | ready value => exact .inr (queued (by rw [phase]; trivial))
  | raised exception => exact .inl ⟨call, state, exception, found, rfl, waits, phase⟩

/-- A flow that has not ended in a process that is stuck. -/
theorem Stuck.flow (stuck : Stuck user process)
    (invariant : Invariant user respond task nthreads process) (positive : 0 < nthreads)
    {identity : Nat} (started : identity < process.nextFlow) (goesOn : identity ∉ process.ended) :
    Stranded process identity ∨ (∃ result, process.runners 0 = .returned result) ∧
      ∃ flow, process.flows identity = some flow ∧ flow.xer = .wait := by
  rcases invariant.placed.custody.accounted identity (List.mem_range.mpr started) with
    ended | ⟨place, held⟩
  · exact absurd ended goesOn
  · rcases Option.map_eq_some_iff.mp held with ⟨standing, found, rfl⟩
    cases place with
    | slot runner depth =>
        rw [stuck.stack_eq invariant] at found
        cases found
    | call call =>
        rw [Process.standing] at found
        rcases Option.bind_eq_some_iff.mp found with ⟨state, called, isStanding⟩
        unfold Call.standing at isStanding
        split at isStanding
        next => cases isStanding
        next waits =>
          cases isStanding
          exact stuck.waiting invariant positive called (Bool.eq_false_iff.mpr waits)

/-! ## Progress -/

/-- A flow that waits for a callable that has thrown is never resumed. -/
theorem Steps.stranded {process' : Process β α ε γ} {identity : Nat}
    (steps : Steps user respond task nthreads process process')
    (stranded : Stranded process identity) : Stranded process' identity := by
  rcases stranded with ⟨call, state, exception, found, own, waits, raised⟩
  exact ⟨call, state, exception, steps.raised_kept found waits raised, own, waits, raised⟩

/-- A callable throws, and the flow that waits for it is stranded. -/
theorem Invariant.raised (invariant : Invariant user respond task nthreads process) {call : Nat}
    {state : Call α ε γ} {exception : ε} {process' : Process β α ε γ}
    (found : process.calls call = some state) (responds : respond state.callable (.error exception))
    (stepped : process.step user (.invoked call (.error exception)) = some process') :
    Invariant user respond task nthreads process' ∧ Stranded process' state.flow := by
  rw [invariant.step_eq, Process.act] at stepped
  rw [found] at stepped
  dsimp only at stepped
  split at stepped
  next calling =>
    cases stepped
    have waits : state.resumed = false := by
      cases resumed : state.resumed with
      | false => rfl
      | true =>
          have posted := invariant.work.resumed_posted found resumed
          rw [calling] at posted
          cases posted
    exact ⟨invariant.invoked found calling responds, call, _, exception, Function.update_self ..,
      rfl, waits, rfl⟩
  next => cases stepped

end SkAsync.Coroutine

import SkAsync.Task.Flow

/-!
# What holds of every process

`Placed` says that the flows which have not ended are each in one place and have got
there by following their programs, `Answered` that the others have evaluated to what
they ended with.  `Work` is about the queues of the executors and `Locks` about the
mutex of an awaiter.

Most steps are made by flows on the stack of one thread.  `Leaves` says what such a
step leaves alone, and every part of the invariant has a rule for it.
-/

namespace SkAsync.Coroutine

open SkAsync.Library

variable {β α ε γ : Type}

/-! ## The parts of the invariant -/

/-- What is allocated has been counted. -/
structure Counted (process : Process β α ε γ) : Prop where
  frames_lt : ∀ {handle frame}, process.frames handle = some frame → handle < process.nextFrame
  calls_lt : ∀ {call state}, process.calls call = some state → call < process.nextCall
  flows_lt : ∀ {identity flow}, process.flows identity = some flow → identity < process.nextFlow

/-- Every flow has ended or is in one place. -/
structure Placed [Inhabited α] (user : β → Statement β α ε γ) (process : Process β α ε γ) :
    Prop where
  custody : Custody process.held (List.range process.nextFlow) process.ended
  stands : ∀ {place standing}, process.standing place = some standing →
    Stands user process standing

/-- What the callable has returned or thrown. -/
def Phase.outcome : Phase α ε → Option (Except ε α)
  | .calling => none
  | .returned value => some (.ok value)
  | .posted value => some (.ok value)
  | .ready value => some (.ok value)
  | .raised exception => some (.error exception)

/-- An answer that a flow with this executor may get. -/
def Fits (respond : γ → Except ε α → Prop) (xer : Executor) : Exchange β α ε γ → Prop
  | ⟨.invoke callable, outcome⟩ => respond callable outcome
  | ⟨.getExecutor, answer⟩ => answer = some xer
  | ⟨.start _ _, _⟩ => True

/-- What has ended has the result of its program, and what it was told is what the callables
have returned or thrown. -/
structure Answered [Inhabited α] (user : β → Statement β α ε γ) (respond : γ → Except ε α → Prop)
    (process : Process β α ε γ) : Prop where
  ended_iff : ∀ {identity flow}, process.flows identity = some flow →
    (identity ∈ process.ended ↔ flow.outcome.isSome)
  evaluates : ∀ {identity flow result}, process.flows identity = some flow →
    flow.outcome = some result → Evaluates (program user) flow.task.entry flow.log result
  fits : ∀ {identity flow exchange}, process.flows identity = some flow → exchange ∈ flow.log →
    Fits respond flow.xer exchange
  called : ∀ {call state outcome}, process.calls call = some state →
    state.phase.outcome = some outcome → respond state.callable outcome

/-- A coroutine waits for the work of the call, which is posted to an executor. -/
structure Call.Awaits (state : Call α ε γ) (xer : Executor) : Prop where
  resumed_eq : state.resumed = false
  posted : state.phase.HasPosted
  taskExecutor_eq : state.taskExecutor = some xer

/-- The work that is posted is in one queue or in the hands of one thread. -/
structure Work (process : Process β α ε γ) : Prop where
  executor : ∀ {call state}, process.calls call = some state → ∃ flow,
    process.flows state.flow = some flow ∧ state.taskExecutor = some flow.xer
  resumed_posted : ∀ {call state}, process.calls call = some state → state.resumed = true →
    state.phase.HasPosted
  queued : ∀ {xer call}, call ∈ process.queue xer →
    ∃ state, process.calls call = some state ∧ state.Awaits xer
  taken : ∀ {runner call}, process.runners runner = .took call →
    ∃ state, process.calls call = some state ∧ state.Awaits (executorOf runner)
  nodup : ∀ xer, (process.queue xer).Nodup
  taken_not_queued : ∀ {runner call}, process.runners runner = .took call →
    ∀ xer, call ∉ process.queue xer
  taken_once : ∀ {runner other call}, process.runners runner = .took call →
    process.runners other = .took call → runner = other
  found : ∀ {call state}, process.calls call = some state → state.resumed = false →
    state.phase.HasPosted →
      (∃ xer, call ∈ process.queue xer) ∨ ∃ runner, process.runners runner = .took call

/-- The thread that locks the mutex of an awaiter is the one in its `await_suspend`. -/
structure Locks (process : Process β α ε γ) : Prop where
  suspending : ∀ {runner top below}, process.runners runner = .suspending top below →
    ∃ call state frame next, process.calls call = some state ∧ state.resumed = false ∧
      state.frame = top.handle ∧ state.flow = top.flow ∧
        process.frames top.handle = some frame ∧ frame.flow = top.flow ∧
          frame.point = .invoking call true next
  unique : ∀ {runner other top top' below below'},
    process.runners runner = .suspending top below →
      process.runners other = .suspending top' below' → top.flow = top'.flow → runner = other
  holder : ∀ {call other state frame next}, process.calls call = some state →
    state.resumed = false → process.frames state.frame = some frame →
      frame.point = .invoking other true next →
        ∃ runner top below, process.runners runner = .suspending top below ∧
          top.handle = state.frame

/-- The task that `wait` was called with. -/
structure Root (task : Task β γ) (process : Process β α ε γ) : Prop where
  main : ∃ flow, process.flows 0 = some flow ∧ flow.task = task ∧ flow.xer = .wait ∧
    flow.bottom = 0
  final : ∀ {flow result}, process.flows 0 = some flow → flow.outcome = some result →
    ∃ frame, process.frames 0 = some frame ∧ frame.flow = 0 ∧ frame.point = .final ∧
      frame.promise.awaitResume = result
  returned : ∀ {result}, process.runners 0 = .returned result →
    ∃ flow, process.flows 0 = some flow ∧ flow.outcome = some result

/-- The threads of the executors. -/
structure Crew (nthreads : Nat) (process : Process β α ε γ) : Prop where
  present : ∀ {runner}, runner ≤ nthreads → process.runners runner ≠ .absent
  main_only : ∀ {runner result}, process.runners runner = .returned result → runner = 0

/-- What holds of every process that goes on. -/
structure Invariant [Inhabited α] (user : β → Statement β α ε γ) (respond : γ → Except ε α → Prop)
    (task : Task β γ) (nthreads : Nat) (process : Process β α ε γ) : Prop where
  misuse_eq : process.misuse = none
  terminated_eq : process.terminated = none
  counted : Counted process
  placed : Placed user process
  answered : Answered user respond process
  work : Work process
  locks : Locks process
  root : Root task process
  crew : Crew nthreads process

/-- Why a process has stopped: a detached task has ended with an exception and nothing is left
to which this could go, or the work of one was posted to the executor of the call of `wait`
behind its end. -/
inductive Process.Halts (process : Process β α ε γ) : Prop
  | terminated {identity : Nat} {flow : Flow β α ε γ} {exception : ε} :
      process.terminated = some exception → process.misuse = none →
        process.flows identity = some flow → identity ≠ 0 →
          flow.outcome = some (.error exception) → process.Halts
  | executorGone {identity : Nat} {flow : Flow β α ε γ} {result : Except ε α} :
      process.terminated = none → process.misuse = some .executorGone →
        process.runners 0 = .returned result → process.flows identity = some flow →
          identity ≠ 0 → flow.xer = .wait → flow.outcome = none → process.Halts

/-- What holds of a process that has stopped. -/
structure Stopped [Inhabited α] (user : β → Statement β α ε γ) (respond : γ → Except ε α → Prop)
    (task : Task β γ) (process : Process β α ε γ) : Prop where
  halts : process.Halts
  answered : Answered user respond process
  root : Root task process

/-- A flow is the same but for its log and its outcome. -/
structure Flow.Continues (flow flow' : Flow β α ε γ) : Prop where
  task_eq : flow'.task = flow.task
  xer_eq : flow'.xer = flow.xer
  bottom_eq : flow'.bottom = flow.bottom

theorem Flow.Continues.refl (flow : Flow β α ε γ) : flow.Continues flow :=
  ⟨rfl, rfl, rfl⟩

theorem Flow.Continues.trans {first second third : Flow β α ε γ}
    (continues : first.Continues second) (continues' : second.Continues third) :
    first.Continues third :=
  ⟨continues'.task_eq.trans continues.task_eq, continues'.xer_eq.trans continues.xer_eq,
    continues'.bottom_eq.trans continues.bottom_eq⟩

/-- A flow has asked for the start of this one. -/
def Requested [Inhabited α] (user : β → Statement β α ε γ) (process : Process β α ε γ)
    (flow : Flow β α ε γ) : Prop :=
  ∃ identity starter position callers next, process.flows identity = some starter ∧
    Runs (program user) ⟨.run starter.task.entry, []⟩ starter.log ⟨.run position, callers⟩ ∧
      program user position = .request (.start flow.task (some flow.xer)) next

/-- What every step does.  A flow is new only if it was asked for, and a call whose callable
has thrown is left alone. -/
structure Steps [Inhabited α] (user : β → Statement β α ε γ) (respond : γ → Except ε α → Prop)
    (task : Task β γ) (nthreads : Nat) (process process' : Process β α ε γ) : Prop where
  sound : Invariant user respond task nthreads process' ∨
    Stopped user respond task process' ∧ process'.runners = process.runners
  flow_from : ∀ {identity flow'}, process'.flows identity = some flow' →
    (∃ flow, process.flows identity = some flow ∧ flow.Continues flow') ∨
      Requested user process flow'
  raised_kept : ∀ {call state exception}, process.calls call = some state →
    state.resumed = false → state.phase = .raised exception → process'.calls call = some state

/-! ## What follows at once -/

section Facts

variable {process : Process β α ε γ}

theorem Process.held_eq_some {place : Place} {standing : Standing}
    (found : process.standing place = some standing) :
    process.held place = some standing.activity.flow := by
  rw [Process.held, found]
  rfl

theorem Process.standing_running {runner : Nat} {top : Activity} {below : List Activity}
    (running : process.runners runner = .running top below) :
    process.standing (.slot runner below.length) = some ⟨top, .goesOn⟩ := by
  simp [Process.standing, Runner.stack, running]

theorem Process.standing_call {call : Nat} {state : Call α ε γ}
    (found : process.calls call = some state) (waits : state.resumed = false) :
    process.standing (.call call) = some ⟨⟨state.frame, state.flow⟩, .waiting call⟩ := by
  simp [Process.standing, Call.standing, found, waits]

variable [Inhabited α] {user : β → Statement β α ε γ} {respond : γ → Except ε α → Prop}

/-- A process that goes on has not stopped. -/
theorem Invariant.not_halts {task : Task β γ} {nthreads : Nat}
    (invariant : Invariant user respond task nthreads process) : ¬process.Halts := by
  intro halts
  cases halts with
  | terminated terminated =>
      rw [invariant.terminated_eq] at terminated
      cases terminated
  | executorGone _ misuse =>
      rw [invariant.misuse_eq] at misuse
      cases misuse

/-- A step that starts no flow. -/
theorem Steps.of_flows_eq {process' : Process β α ε γ} {task : Task β γ} {nthreads : Nat}
    (sound : Invariant user respond task nthreads process' ∨
      Stopped user respond task process' ∧ process'.runners = process.runners)
    (flows_eq : process'.flows = process.flows)
    (raised_kept : ∀ {call state exception}, process.calls call = some state →
      state.resumed = false → state.phase = .raised exception →
        process'.calls call = some state) :
    Steps user respond task nthreads process process' := by
  refine ⟨sound, ?_, raised_kept⟩
  intro identity flow found
  rw [flows_eq] at found
  exact .inl ⟨flow, found, .refl flow⟩

/-- A flow is not at the same time somewhere else. -/
theorem Placed.flow_ne (placed : Placed user process) {place other : Place} {identity : Nat}
    {standing : Standing} (held : process.held place = some identity)
    (found : process.standing other = some standing) (elsewhere : other ≠ place) :
    standing.activity.flow ≠ identity := by
  rintro rfl
  exact elsewhere (placed.custody.held_unique (Process.held_eq_some found) held)

/-- The calls of `start()` below the top of a stack. -/
theorem Placed.standing_below (placed : Placed user process) {runner depth : Nat} {top : Activity}
    {below : List Activity} (running : process.runners runner = .running top below)
    {standing : Standing} (found : starts below depth = some standing) :
    process.standing (.slot runner depth) = some standing ∧
      standing.activity.flow ≠ top.flow := by
  have inside : depth ≠ below.length := by
    rintro rfl
    rw [starts_eq_none (Nat.le_refl _)] at found
    cases found
  have found' : process.standing (.slot runner depth) = some standing := by
    rw [Process.standing, running]
    exact (Function.update_of_ne inside ..).trans found
  have held := Process.held_eq_some (Process.standing_running running)
  refine ⟨found', placed.flow_ne held found' ?_⟩
  rintro ⟨⟩
  exact inside rfl

theorem Placed.flow_lt (placed : Placed user process) {place : Place} {standing : Standing}
    (found : process.standing place = some standing) :
    standing.activity.flow < process.nextFlow :=
  List.mem_range.mp (placed.custody.held_arrived (Process.held_eq_some found))

/-- A flow that is in a place has not ended. -/
theorem Answered.outcome_eq_none (answered : Answered user respond process)
    (placed : Placed user process) {place : Place} {identity : Nat} {flow : Flow β α ε γ}
    (held : process.held place = some identity) (found : process.flows identity = some flow) :
    flow.outcome = none := by
  cases outcome : flow.outcome with
  | none => rfl
  | some result =>
      have settled := (answered.ended_iff found).mpr (by rw [outcome]; rfl)
      exact absurd settled (placed.custody.held_not_settled held)

/-- A flow goes on until the task at its bottom has ended, for that of `wait`. -/
theorem Stands.main_goesOn {standing : Standing} {flow : Flow β α ε γ}
    (stands : Stands user process standing) (isMain : standing.activity.flow = 0)
    (found : process.flows 0 = some flow) :
    ∃ root, process.frames flow.bottom = some root ∧ root.point ≠ .final := by
  rcases stands with ⟨flow', frame, activation, located⟩
  have flow_found := located.flow_found
  rw [isMain, found] at flow_found
  cases flow_found
  have shows := located.shows
  have differs : ∀ {point}, frame.point = point → point ≠ .final → frame.point ≠ .final := by
    rintro point rfl
    exact id
  cases shows with
  | «at» point chain => exact chain.exists_bottom located.frame_found (differs point (by rintro ⟨⟩))
  | awaiting point _ _ _ _ _ chain =>
      exact chain.exists_bottom located.frame_found (differs point (by rintro ⟨⟩))
  | invoking point _ _ _ chain =>
      exact chain.exists_bottom located.frame_found (differs point (by rintro ⟨⟩))
  | starting point _ chain =>
      exact chain.exists_bottom located.frame_found (differs point (by rintro ⟨⟩))
  | detached _ found' _ _ _ previous =>
      rcases located.rooted with ⟨root, root_found, _, ⟨_, isNone⟩ | ⟨notMain, _⟩⟩
      · rw [found'] at root_found
        cases root_found
        rw [previous] at isNone
        cases isNone
      · exact absurd isMain notMain

/-- The frame of the task that `wait` was called with is there in all states, and tells the
outcome of the task. -/
theorem Invariant.main_frame {task : Task β γ} {nthreads : Nat}
    (invariant : Invariant user respond task nthreads process) :
    ∃ flow frame, process.flows 0 = some flow ∧ process.frames 0 = some frame ∧
      (flow.outcome = none ∧ frame.point ≠ .final ∨
        flow.outcome = some frame.promise.awaitResume ∧ frame.point = .final) := by
  rcases invariant.root.main with ⟨flow, found, _, _, bottom_eq⟩
  cases outcome : flow.outcome with
  | some result =>
      rcases invariant.root.final found outcome with ⟨frame, frame_found, _, final, rfl⟩
      exact ⟨flow, frame, found, frame_found, .inr ⟨outcome, final⟩⟩
  | none =>
      have arrived := List.mem_range.mpr (invariant.counted.flows_lt found)
      rcases invariant.placed.custody.accounted 0 arrived with ended | ⟨place, held⟩
      · have isSome := (invariant.answered.ended_iff found).mp ended
        rw [outcome] at isSome
        cases isSome
      · rcases Option.map_eq_some_iff.mp held with ⟨standing, standing_found, isMain⟩
        rcases (invariant.placed.stands standing_found).main_goesOn isMain found with
          ⟨frame, frame_found, goesOn⟩
        rw [bottom_eq] at frame_found
        exact ⟨flow, frame, found, frame_found, .inl ⟨outcome, goesOn⟩⟩

end Facts

/-! ## Steps of one thread -/

section Threads

variable {process process' : Process β α ε γ}

/-- No work is posted, taken or run. -/
theorem Work.congr (work : Work process) (calls_eq : process'.calls = process.calls)
    (flows_eq : process'.flows = process.flows) (queue_eq : process'.queue = process.queue)
    (took_iff : ∀ {runner call}, process'.runners runner = .took call ↔
      process.runners runner = .took call) : Work process' := by
  constructor
  · rw [calls_eq, flows_eq]
    exact work.executor
  · rw [calls_eq]
    exact work.resumed_posted
  · rw [calls_eq, queue_eq]
    exact work.queued
  · rw [calls_eq]
    exact fun took => work.taken (took_iff.mp took)
  · rw [queue_eq]
    exact work.nodup
  · rw [queue_eq]
    exact fun took => work.taken_not_queued (took_iff.mp took)
  · exact fun took took' => work.taken_once (took_iff.mp took) (took_iff.mp took')
  · rw [calls_eq, queue_eq]
    intro call state found waits posted
    rcases work.found found waits posted with queued | ⟨runner, took⟩
    · exact .inl queued
    · exact .inr ⟨runner, took_iff.mpr took⟩

variable {runner : Nat} {now : Runner α ε}

/-- What a thread is that one step has changed. -/
theorem runner_eq_iff (changed : process'.runners = Function.update process.runners runner now)
    {other : Nat} {state : Runner α ε} :
    process'.runners other = state ↔
      other = runner ∧ now = state ∨ other ≠ runner ∧ process.runners other = state := by
  rw [changed]
  by_cases same : other = runner
  · subst same
    simp
  · simp [same]

theorem Crew.setRunner {nthreads : Nat} (crew : Crew nthreads process)
    (changed : process'.runners = Function.update process.runners runner now)
    (present : now ≠ .absent) (main_only : ∀ {result}, now = .returned result → runner = 0) :
    Crew nthreads process' := by
  constructor
  · intro other inside absent
    rcases (runner_eq_iff changed).mp absent with ⟨_, absent'⟩ | ⟨_, before⟩
    · exact present absent'
    · exact crew.present inside before
  · intro other result returned
    rcases (runner_eq_iff changed).mp returned with ⟨rfl, returned'⟩ | ⟨_, before⟩
    · exact main_only returned'
    · exact crew.main_only before

end Threads

/-! ## Steps of flows on the stack of one thread -/

/-- The thread runs coroutines or looks for work. -/
def Runner.Goes : Runner α ε → Prop
  | .idle => True
  | .running _ _ => True
  | _ => False

theorem Process.pop_goes (below : List Activity) : (Process.pop below : Runner α ε).Goes := by
  cases below <;> trivial

/-- What a step leaves alone that is made by the flow on top of the stack of a thread, or
by new ones. -/
structure Leaves (process process' : Process β α ε γ) (runner : Nat) (top : Activity)
    (below : List Activity) (now : Runner α ε) : Prop where
  running : process.runners runner = .running top below
  spares : ∀ {identity}, identity ≠ top.flow → identity < process.nextFlow →
    Spares process process' identity
  continues : ∀ {identity flow}, process.flows identity = some flow →
    ∃ flow', process'.flows identity = some flow' ∧ flow.Continues flow'
  calls_from : ∀ {call state}, process'.calls call = some state → process.calls call = some state
  calls_kept : ∀ {call state}, process.calls call = some state → state.resumed = false →
    process'.calls call = some state
  queue_eq : process'.queue = process.queue
  runners_eq : process'.runners = Function.update process.runners runner now
  goes : now.Goes

namespace Leaves

variable {process process' : Process β α ε γ} {runner : Nat} {top : Activity}
  {below : List Activity} {now : Runner α ε} {task : Task β γ} {nthreads : Nat}

/-- A thread that does not run coroutines has not made the step. -/
theorem runner_eq_iff (leaves : Leaves process process' runner top below now) {other : Nat}
    {state : Runner α ε} (stays : ¬state.Goes) :
    process'.runners other = state ↔ process.runners other = state := by
  rw [leaves.runners_eq]
  by_cases same : other = runner
  · subst same
    rw [Function.update_self, leaves.running]
    constructor
    · rintro rfl
      exact absurd leaves.goes stays
    · rintro rfl
      exact absurd trivial stays
  · rw [Function.update_of_ne same]

theorem work (leaves : Leaves process process' runner top below now) (work : Work process) :
    Work process' := by
  have took_iff : ∀ {other call}, process'.runners other = .took call ↔
      process.runners other = .took call := leaves.runner_eq_iff id
  constructor
  · intro call state found
    rcases work.executor (leaves.calls_from found) with ⟨flow, flow_found, taskExecutor⟩
    rcases leaves.continues flow_found with ⟨flow', flow_found', continues⟩
    exact ⟨flow', flow_found', by rw [taskExecutor, continues.xer_eq]⟩
  · exact fun found => work.resumed_posted (leaves.calls_from found)
  · intro xer call member
    rw [leaves.queue_eq] at member
    rcases work.queued member with ⟨state, found, awaits⟩
    exact ⟨state, leaves.calls_kept found awaits.resumed_eq, awaits⟩
  · intro other call took
    rcases work.taken (took_iff.mp took) with ⟨state, found, awaits⟩
    exact ⟨state, leaves.calls_kept found awaits.resumed_eq, awaits⟩
  · rw [leaves.queue_eq]
    exact work.nodup
  · rw [leaves.queue_eq]
    exact fun took => work.taken_not_queued (took_iff.mp took)
  · exact fun took took' => work.taken_once (took_iff.mp took) (took_iff.mp took')
  · intro call state found waits posted
    rw [leaves.queue_eq]
    rcases work.found (leaves.calls_from found) waits posted with queued | ⟨other, took⟩
    · exact .inl queued
    · exact .inr ⟨other, took_iff.mpr took⟩

theorem crew (leaves : Leaves process process' runner top below now)
    (crew : Crew nthreads process) : Crew nthreads process' := by
  constructor
  · exact fun inside absent => crew.present inside ((leaves.runner_eq_iff id).mp absent)
  · exact fun returned => crew.main_only ((leaves.runner_eq_iff id).mp returned)

theorem standing_call (leaves : Leaves process process' runner top below now) (call : Nat) :
    process'.standing (.call call) = process.standing (.call call) := by
  rw [Process.standing, Process.standing]
  cases found : process.calls call with
  | none =>
      cases found' : process'.calls call with
      | none => rfl
      | some state =>
          rw [leaves.calls_from found'] at found
          cases found
  | some state =>
      cases resumed : state.resumed with
      | false => rw [leaves.calls_kept found resumed]
      | true =>
          cases found' : process'.calls call with
          | none => simp [Call.standing, resumed]
          | some state' =>
              rw [leaves.calls_from found'] at found
              cases found
              rfl

theorem standing_slot (leaves : Leaves process process' runner top below now) {other depth : Nat}
    (differs : other ≠ runner) :
    process'.standing (.slot other depth) = process.standing (.slot other depth) :=
  Process.standing_slot_of_ne leaves.runners_eq differs

variable [Inhabited α] {user : β → Statement β α ε γ} {respond : γ → Except ε α → Prop}

/-- What is elsewhere is left alone. -/
theorem spares_of_standing (leaves : Leaves process process' runner top below now)
    (placed : Placed user process) {place : Place} {standing : Standing}
    (found : process.standing place = some standing)
    (elsewhere : place ≠ .slot runner below.length) :
    Spares process process' standing.activity.flow := by
  have held := Process.held_eq_some (Process.standing_running leaves.running)
  exact leaves.spares (placed.flow_ne held found elsewhere) (placed.flow_lt found)

/-- What has ended is left alone. -/
theorem spares_of_ended (leaves : Leaves process process' runner top below now)
    (placed : Placed user process) {identity : Nat} (ended : identity ∈ process.ended) :
    Spares process process' identity := by
  apply leaves.spares
  · rintro rfl
    have held := Process.held_eq_some (Process.standing_running leaves.running)
    exact placed.custody.held_not_settled held ended
  · exact List.mem_range.mp (placed.custody.settled_arrived _ ended)

/-- The calls of `start()` below are left alone. -/
theorem starts_stands (leaves : Leaves process process' runner top below now)
    (placed : Placed user process) {depth : Nat} {standing : Standing}
    (found : starts below depth = some standing) : Stands user process' standing := by
  rcases placed.standing_below leaves.running found with ⟨found', differs⟩
  exact (placed.stands found').of_spares (leaves.spares differs (placed.flow_lt found'))

/-- Only the stack of the thread that made the step has to be looked at. -/
theorem stands (leaves : Leaves process process' runner top below now)
    (placed : Placed user process)
    (own : ∀ {depth standing}, now.stack depth = some standing → Stands user process' standing)
    {place : Place} {standing : Standing} (found : process'.standing place = some standing) :
    Stands user process' standing := by
  cases place with
  | slot other depth =>
      by_cases same : other = runner
      · subst same
        rw [Process.standing_slot_self leaves.runners_eq] at found
        exact own found
      · rw [leaves.standing_slot same] at found
        apply (placed.stands found).of_spares
        apply leaves.spares_of_standing placed found
        rintro ⟨⟩
        exact same rfl
  | call call =>
      rw [leaves.standing_call call] at found
      apply (placed.stands found).of_spares
      apply leaves.spares_of_standing placed found
      rintro ⟨⟩

theorem locks (leaves : Leaves process process' runner top below now)
    (placed : Placed user process) (locks : Locks process) : Locks process' := by
  have suspending_iff : ∀ {other top below}, process'.runners other = .suspending top below ↔
      process.runners other = .suspending top below := leaves.runner_eq_iff id
  have spares : ∀ {call state}, process.calls call = some state → state.resumed = false →
      Spares process process' state.flow := by
    intro call state found waits
    have standing := Process.standing_call found waits
    apply leaves.spares_of_standing placed standing
    rintro ⟨⟩
  constructor
  · intro other top' below' suspending
    rcases locks.suspending (suspending_iff.mp suspending) with
      ⟨call, state, frame, next, found, waits, frame_eq, flow_eq, frame_found, own, point⟩
    have frame_found' := (spares found waits).frames_eq frame_found (own.trans flow_eq.symm)
    exact ⟨call, state, frame, next, leaves.calls_kept found waits, waits, frame_eq, flow_eq,
      frame_found', own, point⟩
  · exact fun suspending suspending' =>
      locks.unique (suspending_iff.mp suspending) (suspending_iff.mp suspending')
  · intro call other state frame next found waits frame_found point
    have found' := leaves.calls_from found
    rcases placed.stands (Process.standing_call found' waits) with ⟨_, frame', _, located⟩
    have kept := (spares found' waits).frames_eq located.frame_found located.own
    rw [frame_found] at kept
    cases kept
    rcases locks.holder found' waits located.frame_found point with
      ⟨other, top', below', suspending, handle_eq⟩
    exact ⟨other, top', below', suspending_iff.mpr suspending, handle_eq⟩

/-- If the main flow has made the step, it matters only whether this has ended it. -/
theorem root (leaves : Leaves process process' runner top below now)
    (placed : Placed user process) (answered : Answered user respond process)
    (root : Root task process)
    (ends : ∀ {flow result}, top.flow = 0 → process'.flows 0 = some flow →
      flow.outcome = some result → ∃ frame, process'.frames 0 = some frame ∧ frame.flow = 0 ∧
        frame.point = .final ∧ frame.promise.awaitResume = result) : Root task process' := by
  rcases root.main with ⟨main, main_found, task_eq, xer_eq, bottom_eq⟩
  constructor
  · rcases leaves.continues main_found with ⟨main', main_found', continues⟩
    exact ⟨main', main_found', continues.task_eq.trans task_eq, continues.xer_eq.trans xer_eq,
      continues.bottom_eq.trans bottom_eq⟩
  · intro flow result found outcome
    by_cases same : top.flow = 0
    · exact ends same found outcome
    · have inside := placed.flow_lt (Process.standing_running leaves.running)
      have spared := leaves.spares (Ne.symm same) ((Nat.zero_le _).trans_lt inside)
      rw [spared.flows_eq] at found
      rcases root.final found outcome with ⟨frame, frame_found, own, final⟩
      exact ⟨frame, spared.frames_eq frame_found own, own, final⟩
  · intro result returned
    rcases root.returned ((leaves.runner_eq_iff id).mp returned) with ⟨flow, found, outcome⟩
    have ended := (answered.ended_iff found).mpr (by rw [outcome]; rfl)
    exact ⟨flow, (leaves.spares_of_ended placed ended).flows_eq.trans found, outcome⟩

end Leaves

end SkAsync.Coroutine

import SkAsync.Task.Coroutine

/-!
# Running tasks on executors

The main thread calls `wait` on a task and runs the work that is posted to its
`wait_executor` until the task is done; a number of threads run the work of the system
executor.  A coroutine that awaits a `co_async_invoke_awaiter` has a thread of its own
call the callable and post the work that resumes the coroutine.  `co_detach` starts a
task that nothing awaits, which from then on runs beside the others.

Each event is one step of one thread, so the lists of events are the interleavings.  A
thread that runs coroutines is at the top of a stack: `start()` resumes a coroutine
from within another, whereas `co_await` and the end of a task transfer control.
-/

namespace SkAsync.Coroutine

open SkAsync.Library

variable {β α ε γ : Type}

/-- What a call of a coroutine, an executor or a check may not find. -/
inductive Misuse
  /-- `resume` was called on a coroutine that is not suspended, or that has ended. -/
  | notSuspended
  /-- The frame or the awaiter was destroyed. -/
  | destroyed
  /-- `post` was called on a null pointer. -/
  | nullExecutor
  /-- `post` was called on the executor of a call of `wait` that has returned. -/
  | executorGone
  /-- An `SK_CHECK` failed. -/
  | checkFailed (message : String)
  deriving DecidableEq, Repr

/-- How far the thread of a `co_async_invoke_awaiter` is. -/
inductive Phase (α ε : Type)
  /-- In the callable. -/
  | calling
  /-- The callable has returned, and the work is not posted. -/
  | returned (value : α)
  /-- The work is posted, and the future is not ready. -/
  | posted (value : α)
  /-- The thread has ended, and the future holds the value. -/
  | ready (value : α)
  /-- The callable has thrown, so that nothing is posted; the future holds the exception. -/
  | raised (exception : ε)

/-- What the thread is when the callable has returned or thrown. -/
def Phase.behind : Except ε α → Phase α ε
  | .ok value => .returned value
  | .error exception => .raised exception

/-- The thread that `await_suspend` has started, and what it knows of the awaiter.  The flow
that waits for it, and whether that goes on already, are kept for the statements only. -/
structure Call (α ε γ : Type) where
  frame : Nat
  callable : γ
  taskExecutor : Option Executor
  phase : Phase α ε
  flow : Nat
  resumed : Bool

/-- A call of `resume()` that has not returned, with the coroutine it runs now. -/
structure Activity where
  handle : Nat
  flow : Nat
  deriving DecidableEq, Repr

/-- What a thread does that takes work off a queue. -/
inductive Runner (α ε : Type)
  | absent
  /-- It is at the start of the loop, or blocked in `wait`. -/
  | idle
  /-- It has taken the work that a thread has posted, and not got the mutex yet. -/
  | took (call : Nat)
  /-- It runs a coroutine, from within the calls of `start()` below. -/
  | running (top : Activity) (below : List Activity)
  /-- It is in `await_suspend` of an awaiter in the frame on top, behind the start of the
  thread. -/
  | suspending (top : Activity) (below : List Activity)
  /-- The call of `wait` has ended. -/
  | returned (outcome : Except ε α)

/-- A chain of coroutines that await each other: how it was started, and what it has asked
and was answered. -/
structure Flow (β α ε γ : Type) where
  task : Task β γ
  xer : Executor
  bottom : Nat
  log : List (Exchange β α ε γ)
  outcome : Option (Except ε α)

/-- All threads, the frames and the queues of the executors.  The flows are kept for the
statements only. -/
structure Process (β α ε γ : Type) where
  frames : Frames β α ε γ
  nextFrame : Nat
  calls : Nat → Option (Call α ε γ)
  nextCall : Nat
  runners : Nat → Runner α ε
  queue : Executor → List Nat
  flows : Nat → Option (Flow β α ε γ)
  nextFlow : Nat
  ended : List Nat
  /-- An exception has ended the process. -/
  terminated : Option ε
  misuse : Option Misuse

/-- The atomic steps of the threads. -/
inductive Event (α ε : Type)
  /-- The callable returns or throws. -/
  | invoked (call : Nat) (outcome : Except ε α)
  /-- Its thread posts the work that resumes the coroutine. -/
  | post (call : Nat)
  /-- Its thread ends. -/
  | finish (call : Nat)
  /-- The locked part of an iteration of `run`. -/
  | dequeue (runner : Nat)
  /-- The work resumes the coroutine. -/
  | resume (runner : Nat)
  /-- The coroutine goes on to its next suspension. -/
  | advance (runner : Nat)
  /-- `await_suspend` returns. -/
  | unlock (runner : Nat)

/-- The executor whose work a thread runs; the first is the main thread. -/
def executorOf (runner : Nat) : Executor :=
  if runner = 0 then .wait else .system

namespace Process

/-- `wait` has started a task, and the threads of the system executor are waiting. -/
def initial [Inhabited α] (task : Task β γ) (nthreads : Nat) : Process β α ε γ where
  frames := Function.update (fun _ => none) 0 (some
    ⟨false, .at task.entry, { Promise.initial with taskExecutor := some .wait }, 0⟩)
  nextFrame := 1
  calls := fun _ => none
  nextCall := 0
  runners := fun runner =>
    if runner = 0 then .running ⟨0, 0⟩ [] else if runner ≤ nthreads then .idle else .absent
  queue := fun _ => []
  flows := Function.update (fun _ => none) 0 (some ⟨task, .wait, 0, [], none⟩)
  nextFlow := 1
  ended := []
  terminated := none
  misuse := none

/-! ## The parts of a step -/

def fail (process : Process β α ε γ) (misuse : Misuse) : Process β α ε γ :=
  { process with misuse := some misuse }

def setFrame (process : Process β α ε γ) (handle : Nat) (frame : Option (Frame β α ε γ)) :
    Process β α ε γ :=
  { process with frames := Function.update process.frames handle frame }

def setCall (process : Process β α ε γ) (call : Nat) (state : Option (Call α ε γ)) :
    Process β α ε γ :=
  { process with calls := Function.update process.calls call state }

def setRunner (process : Process β α ε γ) (runner : Nat) (place : Runner α ε) :
    Process β α ε γ :=
  { process with runners := Function.update process.runners runner place }

def setQueue (process : Process β α ε γ) (xer : Executor) (work : List Nat) :
    Process β α ε γ :=
  { process with queue := Function.update process.queue xer work }

/-- A flow was answered. -/
def log (process : Process β α ε γ) (flow : Nat) (exchange : Exchange β α ε γ) :
    Process β α ε γ :=
  { process with
    flows := Function.update process.flows flow
      ((process.flows flow).map fun found => { found with log := found.log ++ [exchange] }) }

/-- A flow has ended. -/
def settle (process : Process β α ε γ) (flow : Nat) (outcome : Except ε α) :
    Process β α ε γ :=
  { process with
    flows := Function.update process.flows flow
      ((process.flows flow).map fun found => { found with outcome := some outcome })
    ended := process.ended ++ [flow] }

/-- A call of `resume()` has returned. -/
def pop : List Activity → Runner α ε
  | [] => .idle
  | top :: below => .running top below

/-- `resume()` of a coroutine, or a transfer to it. -/
def transfer (process : Process β α ε γ) (runner : Nat) (top : Activity)
    (below : List Activity) : Process β α ε γ :=
  match process.frames top.handle with
  | none => process.fail .destroyed
  | some frame =>
      match frame.suspended, frame.point with
      | true, .final => process.fail .notSuspended
      | true, _ =>
          (process.setFrame top.handle (some { frame with suspended := false })).setRunner runner
            (.running top below)
      | false, _ => process.fail .notSuspended

theorem transfer_eq {process : Process β α ε γ} {runner : Nat} {top : Activity}
    {below : List Activity} {frame : Frame β α ε γ} (found : process.frames top.handle = some frame)
    (suspended : frame.suspended = true) (goesOn : frame.point ≠ .final) :
    process.transfer runner top below =
      (process.setFrame top.handle (some { frame with suspended := false })).setRunner runner
        (.running top below) := by
  unfold transfer
  rw [found]
  dsimp only
  split
  next final => exact absurd final goesOn
  next => rfl
  next running =>
    rw [suspended] at running
    cases running

/-- The end of a task: `return_value` or `unhandled_exception`, and `final_suspend`, which
goes on with the coroutine that awaits the task. -/
def finalSuspend (process : Process β α ε γ) (runner : Nat) (top : Activity)
    (below : List Activity) (frame : Frame β α ε γ) (result : Except ε α) : Process β α ε γ :=
  let ended := process.setFrame top.handle
    (some { frame with suspended := true, point := .final, promise := frame.promise.store result })
  match frame.promise.previous with
  | some previous => ended.transfer runner ⟨previous, top.flow⟩ below
  | none => (ended.settle top.flow result).setRunner runner (pop below)

/-- `await_suspend` of a new task, which goes on with the task. -/
def coAwait [Inhabited α] (process : Process β α ε γ) (runner : Nat) (top : Activity)
    (below : List Activity) (frame : Frame β α ε γ) (callee : Position β α ε γ)
    (next : Except ε α → Position β α ε γ) : Process β α ε γ :=
  let task := process.nextFrame
  let promise : Promise α ε := { Promise.initial with
    previous := some top.handle
    taskExecutor := frame.promise.taskExecutor }
  { (process.setFrame top.handle
      (some { frame with suspended := true, point := .awaiting task next })).setFrame task
        (some ⟨false, .at callee, promise, top.flow⟩) with
    nextFrame := task + 1
    runners := Function.update process.runners runner (.running ⟨task, top.flow⟩ below) }

/-- `await_suspend` of a `co_async_invoke_awaiter` up to the start of the thread. -/
def asyncInvoke (process : Process β α ε γ) (runner : Nat) (top : Activity)
    (below : List Activity) (frame : Frame β α ε γ) (callable : γ)
    (next : Except ε α → Position β α ε γ) : Process β α ε γ :=
  let call := process.nextCall
  { (process.setFrame top.handle
      (some { frame with suspended := true, point := .invoking call true next })).setCall call
        (some ⟨top.handle, callable, frame.promise.taskExecutor, .calling, top.flow, false⟩) with
    nextCall := call + 1
    runners := Function.update process.runners runner (.suspending top below) }

/-- A coroutine goes on at a position with the answer to a request. -/
def goOn (process : Process β α ε γ) (top : Activity) (frame : Frame β α ε γ)
    (exchange : Exchange β α ε γ) (position : Position β α ε γ) : Process β α ε γ :=
  (process.setFrame top.handle (some { frame with point := .at position })).log top.flow exchange

/-- `_internal_detach` and `start()`: the coroutine that owns the task is resumed and awaits
it, which goes on with the task. -/
def start [Inhabited α] (process : Process β α ε γ) (runner : Nat) (top : Activity)
    (below : List Activity) (frame : Frame β α ε γ) (task : Task β γ) :
    (xer : Option Executor) → (next : Except ε Unit → Position β α ε γ) → Process β α ε γ
  | none, _ => process.fail (.checkFailed "_internal_detach: no executor?")
  | some xer, next =>
      let started := process.nextFrame
      let detach := started + 1
      let flow := process.nextFlow
      let promise : Promise α ε := { Promise.initial with
        previous := some detach
        taskExecutor := some xer }
      { ((process.setFrame top.handle
          (some { frame with point := .starting task (some xer) next })).setFrame started
            (some ⟨false, .at task.entry, promise, flow⟩)).setFrame detach
              (some ⟨true, .detached started, Promise.initial, flow⟩) with
        nextFrame := detach + 1
        flows := Function.update process.flows flow (some ⟨task, xer, started, [], none⟩)
        nextFlow := flow + 1
        runners := Function.update process.runners runner
          (.running ⟨started, flow⟩ (top :: below)) }

/-- An exception leaves a call of `resume()`: that of `start()` in the coroutine below, or
that of a piece of work, which ends the process. -/
def escape (process : Process β α ε γ) (runner : Nat) (exception : ε) :
    List Activity → Process β α ε γ
  | [] => { process with terminated := some exception }
  | top :: below =>
      match process.frames top.handle with
      | none => process.fail .destroyed
      | some frame =>
          match frame.point with
          | .starting task xer next =>
              (process.goOn top frame ⟨.start task xer, .error exception⟩
                (next (.error exception))).setRunner runner (.running top below)
          | _ => process.fail .notSuspended

/-- The end of `_internal_detach`, whose frame is not kept: the task is destroyed, and its
exception is rethrown. -/
def endDetached (process : Process β α ε γ) (runner : Nat) (top : Activity)
    (below : List Activity) (frame : Frame β α ε γ) (task : Nat) : Process β α ε γ :=
  match process.frames task with
  | none => process.fail .destroyed
  | some ended =>
      match ended.promise.awaitResume with
      | .ok value =>
          (((process.setFrame task none).setFrame top.handle none).settle top.flow
            (.ok value)).setRunner runner (pop below)
      | .error exception =>
          (((process.setFrame task none).setFrame top.handle
            (some { frame with suspended := true, point := .final })).settle top.flow
              (.error exception)).escape runner exception below

/-- What a coroutine does from its suspension point on. -/
def advance [Inhabited α] (user : β → Statement β α ε γ) (process : Process β α ε γ)
    (runner : Nat) (top : Activity) (below : List Activity) : Option (Process β α ε γ) :=
  match process.frames top.handle with
  | none => some (process.fail .destroyed)
  | some frame =>
      match frame.point with
      | .at position =>
          match program user position with
          | .finish result => some (process.finalSuspend runner top below frame result)
          | .call callee next => some (process.coAwait runner top below frame callee next)
          | .request (.invoke callable) next =>
              some (process.asyncInvoke runner top below frame callable next)
          | .request .getExecutor next =>
              some (process.goOn top frame ⟨.getExecutor, frame.promise.taskExecutor⟩
                (next frame.promise.taskExecutor))
          | .request (.start task xer) next =>
              some (process.start runner top below frame task xer next)
      -- `await_resume` of the task, which is destroyed at the end of the expression.
      | .awaiting task next =>
          match process.frames task with
          | none => some (process.fail .destroyed)
          | some ended =>
              some ((process.setFrame task none).setFrame top.handle
                (some { frame with point := .at (next ended.promise.awaitResume) }))
      -- `future.get()`, which blocks until the thread has ended.
      | .invoking call _ next =>
          match process.calls call with
          | none => some (process.fail .destroyed)
          | some state =>
              match state.phase with
              | .ready value =>
                  some ((process.setCall call none).goOn top frame
                    ⟨.invoke state.callable, .ok value⟩ (next (.ok value)))
              | .raised exception =>
                  some ((process.setCall call none).goOn top frame
                    ⟨.invoke state.callable, .error exception⟩ (next (.error exception)))
              | _ => none
      -- `start()` has returned.
      | .starting task xer next =>
          some (process.goOn top frame ⟨.start task xer, .ok ()⟩ (next (.ok ())))
      | .detached task => some (process.endDetached runner top below frame task)
      | .final => some (process.fail .notSuspended)

/-- The work that a thread has posted is run: its mutex is locked and unlocked, and the
coroutine is resumed. -/
def runWork (process : Process β α ε γ) (runner call : Nat) : Option (Process β α ε γ) :=
  match process.calls call with
  | none => some (process.fail .destroyed)
  | some state =>
      match process.frames state.frame with
      | none => some (process.fail .destroyed)
      | some frame =>
          match frame.point with
          | .invoking _ true _ => none
          | .invoking _ false _ =>
              some ((process.setCall call (some { state with resumed := true })).transfer runner
                ⟨state.frame, state.flow⟩ [])
          | _ => some (process.fail .destroyed)

/-- `post` of the work that resumes the coroutine. -/
def post (process : Process β α ε γ) (call : Nat) (state : Call α ε γ) (value : α) :
    Process β α ε γ :=
  match state.taskExecutor with
  | none => process.fail .nullExecutor
  | some xer =>
      match xer, process.runners 0 with
      | .wait, .returned _ => process.fail .executorGone
      | _, _ =>
          (process.setCall call (some { state with phase := .posted value })).setQueue xer
            (process.queue xer ++ [call])

/-- The first work is taken off the queue, when there is any. -/
def take (process : Process β α ε γ) (runner : Nat) : Option (Process β α ε γ) :=
  match process.queue (executorOf runner) with
  | [] => none
  | call :: rest =>
      some ((process.setQueue (executorOf runner) rest).setRunner runner (.took call))

theorem take_of_nil {process : Process β α ε γ} {runner : Nat}
    (empty : process.queue (executorOf runner) = []) : process.take runner = none := by
  simp [take, empty]

theorem take_of_cons {process : Process β α ε γ} {runner call : Nat} {rest : List Nat}
    (queued : process.queue (executorOf runner) = call :: rest) :
    process.take runner =
      some ((process.setQueue (executorOf runner) rest).setRunner runner (.took call)) := by
  simp [take, queued]

theorem take_eq_none_iff {process : Process β α ε γ} {runner : Nat} :
    process.take runner = none ↔ process.queue (executorOf runner) = [] := by
  cases queued : process.queue (executorOf runner) with
  | nil => simp [take_of_nil queued]
  | cons call rest => simp [take_of_cons queued]

/-- One iteration of `run` with the lock held: `wait_executor` looks at the task first. -/
def dequeue (process : Process β α ε γ) (runner : Nat) : Option (Process β α ε γ) :=
  if runner = 0 then
    match process.frames 0 with
    | none => some (process.fail .destroyed)
    | some frame =>
        match frame.point with
        | .final => some (process.setRunner 0 (.returned frame.promise.awaitResume))
        | _ => process.take runner
  else process.take runner

/-- `await_suspend` of an awaiter unlocks the mutex and returns. -/
def unlock (process : Process β α ε γ) (runner : Nat) (top : Activity) (below : List Activity) :
    Process β α ε γ :=
  match process.frames top.handle with
  | none => process.fail .destroyed
  | some frame =>
      match frame.point with
      | .invoking call _ next =>
          (process.setFrame top.handle
            (some { frame with point := .invoking call false next })).setRunner runner (pop below)
      | _ => process.fail .destroyed

/-- One atomic step of a process that goes on.  A thread that is blocked has none. -/
def act [Inhabited α] (user : β → Statement β α ε γ) (process : Process β α ε γ) :
    Event α ε → Option (Process β α ε γ)
  | .invoked call outcome =>
      match process.calls call with
      | some state =>
          match state.phase with
          | .calling =>
              some (process.setCall call (some { state with phase := .behind outcome }))
          | _ => none
      | none => none
  | .post call =>
      match process.calls call with
      | some state =>
          match state.phase with
          | .returned value => some (process.post call state value)
          | _ => none
      | none => none
  | .finish call =>
      match process.calls call with
      | some state =>
          match state.phase with
          | .posted value =>
              some (process.setCall call (some { state with phase := .ready value }))
          | _ => none
      | none => none
  | .dequeue runner =>
      match process.runners runner with
      | .idle => process.dequeue runner
      | _ => none
  | .resume runner =>
      match process.runners runner with
      | .took call => process.runWork runner call
      | _ => none
  | .advance runner =>
      match process.runners runner with
      | .running top below => process.advance user runner top below
      | _ => none
  | .unlock runner =>
      match process.runners runner with
      | .suspending top below => some (process.unlock runner top below)
      | _ => none

/-- One atomic step. -/
def step [Inhabited α] (user : β → Statement β α ε γ) (process : Process β α ε γ)
    (event : Event α ε) : Option (Process β α ε γ) :=
  if process.misuse.isSome || process.terminated.isSome then none else process.act user event

end Process

end SkAsync.Coroutine

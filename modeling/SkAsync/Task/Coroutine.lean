import Mathlib.Logic.Function.Basic
import Mathlib.Order.Basic
import Mathlib.Algebra.Order.Ring.Int
import SkAsync.Library.Procedure

/-!
# Coroutines

`task<T>` is a coroutine that is started when it is awaited, with a link to the one
that awaits it.  The code of a coroutine is given by its positions, so that a frame
holds one of them, and the coroutines of the library are positions like those of the
user.  What a coroutine asks of the world outside of its callees is a request.

A flow is a chain of coroutines that await each other.  `Chain` says how the frames
are linked and what each of them goes on with.
-/

namespace SkAsync.Coroutine

open SkAsync.Library

/-- The executors: that of the call of `wait`, and the threads of the system. -/
inductive Executor
  | wait
  | system
  deriving DecidableEq, Repr

/-- A call of a coroutine function. -/
inductive Task (β γ : Type)
  | body (start : β)
  | asyncInvoke (callable : γ)
  | coDetach (task : Task β γ) (xer : Option Executor)

/-- What the code of the user does next, with `co_await` on the result or the exception
of a task. -/
inductive Statement (β α ε γ : Type)
  | coReturn (value : α)
  | throw (exception : ε)
  | coAwait (task : Task β γ) (next : Except ε α → β)
  | coGetExecutor (next : Option Executor → β)

/-- Where a coroutine is in its code. -/
inductive Position (β α ε γ : Type)
  | user (position : β)
  | asyncInvoke (callable : γ)
  | coDetach (task : Task β γ) (xer : Option Executor)
  /-- In `co_detach`, with the executor of the task chosen. -/
  | detaching (task : Task β γ) (xer : Option Executor)
  /-- At `co_return`. -/
  | returning (value : α)
  /-- At an exception that is not caught. -/
  | raising (exception : ε)

/-- What a coroutine asks for. -/
inductive Request (β γ : Type)
  /-- `co_await co_async_invoke_awaiter(callable)`. -/
  | invoke (callable : γ)
  /-- `co_await co_get_executor()`. -/
  | getExecutor
  /-- `_internal_detach(std::move(task)).start()`, with the executor of the task set. -/
  | start (task : Task β γ) (xer : Option Executor)

/-- What it is answered. -/
abbrev Answer (α ε : Type) {β γ : Type} : Request β γ → Type
  | .invoke _ => Except ε α
  | .getExecutor => Option Executor
  | .start _ _ => Except ε Unit

variable {β α ε γ : Type}

/-- A request and its answer. -/
abbrev Exchange (β α ε γ : Type) :=
  Sigma (Answer α ε : Request β γ → Type)

/-- Where a coroutine starts. -/
def Task.entry : Task β γ → Position β α ε γ
  | body start => .user start
  | asyncInvoke callable => .asyncInvoke callable
  | coDetach task xer => .coDetach task xer

/-- How a coroutine goes on behind the end of a callable. -/
def Position.behind : Except ε α → Position β α ε γ
  | .ok value => .returning value
  | .error exception => .raising exception

/-- How `co_detach` goes on behind `start()`. -/
def Position.started [Inhabited α] : Except ε Unit → Position β α ε γ
  | .ok _ => .returning default
  | .error exception => .raising exception

/-- What a coroutine does at a position. -/
def program [Inhabited α] (user : β → Statement β α ε γ) :
    Position β α ε γ → Command (Position β α ε γ) (Request β γ) (Answer α ε) (Except ε α)
  | .user position =>
      match user position with
      | .coReturn value => .finish (.ok value)
      | .throw exception => .finish (.error exception)
      | .coAwait task next => .call task.entry fun result => .user (next result)
      | .coGetExecutor next => .request .getExecutor fun xer => .user (next xer)
  | .asyncInvoke callable => .request (.invoke callable) Position.behind
  | .coDetach task none => .request .getExecutor fun xer => .detaching task xer
  | .coDetach task (some xer) => .request (.start task (some xer)) Position.started
  | .detaching task xer => .request (.start task xer) Position.started
  | .returning value => .finish (.ok value)
  | .raising exception => .finish (.error exception)

/-! ## Frames -/

/-- `task<T>::promise_type`, with the address of the frame of `previous`. -/
structure Promise (α ε : Type) where
  result : α
  exception : Option ε
  previous : Option Nat
  taskExecutor : Option Executor

namespace Promise

/-- A new promise. -/
def initial [Inhabited α] : Promise α ε :=
  ⟨default, none, none, none⟩

/-- `return_value` and `unhandled_exception`. -/
def store (promise : Promise α ε) : Except ε α → Promise α ε
  | .ok value => { promise with result := value }
  | .error exception => { promise with exception := some exception }

/-- `await_resume`. -/
def awaitResume (promise : Promise α ε) : Except ε α :=
  match promise.exception with
  | some exception => .error exception
  | none => .ok promise.result

/-- What the awaiting coroutine gets is what the task ended with. -/
theorem awaitResume_store {promise : Promise α ε} (running : promise.exception = none)
    (result : Except ε α) : (promise.store result).awaitResume = result := by
  cases result with
  | ok value => simp [store, awaitResume, running]
  | error exception => rfl

@[simp]
theorem previous_store (promise : Promise α ε) (result : Except ε α) :
    (promise.store result).previous = promise.previous := by
  cases result <;> rfl

@[simp]
theorem taskExecutor_store (promise : Promise α ε) (result : Except ε α) :
    (promise.store result).taskExecutor = promise.taskExecutor := by
  cases result <;> rfl

end Promise

/-- Where a coroutine goes on, and the awaiter objects in its frame. -/
inductive Point (β α ε γ : Type)
  | at (position : Position β α ε γ)
  /-- In `co_await` of the task with this frame. -/
  | awaiting (task : Nat) (next : Except ε α → Position β α ε γ)
  /-- In `co_await` of a `co_async_invoke_awaiter`, with the thread it has started and
  whether its mutex is locked. -/
  | invoking (call : Nat) (locked : Bool) (next : Except ε α → Position β α ε γ)
  /-- In the call of `start()` of a detached task. -/
  | starting (task : Task β γ) (xer : Option Executor)
      (next : Except ε Unit → Position β α ε γ)
  /-- In `_internal_detach`, in `co_await` of the task with this frame. -/
  | detached (task : Nat)
  /-- At the final suspension point. -/
  | final

/-- The frame of a coroutine.  The flow it belongs to is kept for the statements only. -/
structure Frame (β α ε γ : Type) where
  suspended : Bool
  point : Point β α ε γ
  promise : Promise α ε
  flow : Nat

/-- The frames that are allocated, by address. -/
abbrev Frames (β α ε γ : Type) :=
  Nat → Option (Frame β α ε γ)

/-- A task of a flow that has not ended. -/
structure Frame.Belongs (frame : Frame β α ε γ) (flow : Nat) (xer : Executor) : Prop where
  flow_eq : frame.flow = flow
  taskExecutor_eq : frame.promise.taskExecutor = some xer
  exception_eq : frame.promise.exception = none

/-- The tasks of a flow from one of them down to the one at the bottom, and what those
that await it go on with.  A task has a greater address than the one that awaits it. -/
inductive Chain (frames : Frames β α ε γ) (flow : Nat) (xer : Executor) (bottom : Nat) :
    Nat → List (Except ε α → Position β α ε γ) → Prop
  | bottom {frame : Frame β α ε γ} :
      frames bottom = some frame → frame.Belongs flow xer → Chain frames flow xer bottom bottom []
  | caller {handle caller : Nat} {frame above : Frame β α ε γ}
      {next : Except ε α → Position β α ε γ} {callers : List (Except ε α → Position β α ε γ)} :
      frames handle = some frame → frame.Belongs flow xer →
        frame.promise.previous = some caller → caller < handle → frames caller = some above →
          above.suspended = true → above.point = .awaiting handle next →
            Chain frames flow xer bottom caller callers →
              Chain frames flow xer bottom handle (next :: callers)

namespace Chain

variable {frames frames' : Frames β α ε γ} {flow : Nat} {xer : Executor} {bottom handle : Nat}
  {callers : List (Except ε α → Position β α ε γ)}

theorem exists_frame (chain : Chain frames flow xer bottom handle callers) :
    ∃ frame, frames handle = some frame ∧ frame.Belongs flow xer := by
  cases chain with
  | bottom found belongs => exact ⟨_, found, belongs⟩
  | caller found belongs => exact ⟨_, found, belongs⟩

theorem eq_bottom (chain : Chain frames flow xer bottom handle []) : handle = bottom := by
  cases chain
  rfl

/-- The task that awaits the one on top. -/
theorem exists_caller {next : Except ε α → Position β α ε γ} {frame : Frame β α ε γ}
    (chain : Chain frames flow xer bottom handle (next :: callers))
    (found : frames handle = some frame) :
    ∃ caller above, frame.promise.previous = some caller ∧ caller < handle ∧
      frames caller = some above ∧ above.suspended = true ∧ above.point = .awaiting handle next ∧
        Chain frames flow xer bottom caller callers := by
  cases chain with
  | caller found' _ previous below foundAbove suspended point rest =>
      rw [found] at found'
      cases found'
      exact ⟨_, _, previous, below, foundAbove, suspended, point, rest⟩

/-- As long as the task on top has not ended, neither has the one at the bottom. -/
theorem exists_bottom {frame : Frame β α ε γ}
    (chain : Chain frames flow xer bottom handle callers) (found : frames handle = some frame)
    (goesOn : frame.point ≠ .final) : ∃ root, frames bottom = some root ∧ root.point ≠ .final := by
  induction chain generalizing frame with
  | bottom => exact ⟨frame, found, goesOn⟩
  | caller _ _ _ _ foundAbove _ point _ ih =>
      apply ih foundAbove
      rw [point]
      rintro ⟨⟩

/-- Only the frames of the flow matter, from the top of the chain downwards. -/
theorem congr (chain : Chain frames flow xer bottom handle callers)
    (same : ∀ other frame, other ≤ handle → frames other = some frame → frame.flow = flow →
      frames' other = some frame) : Chain frames' flow xer bottom handle callers := by
  induction chain with
  | bottom found belongs => exact .bottom (same _ _ (Nat.le_refl _) found belongs.flow_eq) belongs
  | caller found belongs previous below foundAbove suspended point rest ih =>
      rcases rest.exists_frame with ⟨frame, found', belongs'⟩
      rw [foundAbove] at found'
      cases found'
      refine .caller (same _ _ (Nat.le_refl _) found belongs.flow_eq) belongs previous below
        (same _ _ below.le foundAbove belongs'.flow_eq) suspended point (ih ?_)
      intro other frame inside
      exact same other frame (inside.trans below.le)

/-- What is newer than the task on top does not matter. -/
theorem setNewer (chain : Chain frames flow xer bottom handle callers) {newer : Nat}
    (above : handle < newer) (frame : Option (Frame β α ε γ)) :
    Chain (Function.update frames newer frame) flow xer bottom handle callers := by
  apply chain.congr
  intro other frame' inside found _
  exact (Function.update_of_ne (inside.trans_lt above).ne ..).trans found

theorem bottom_le (chain : Chain frames flow xer bottom handle callers) : bottom ≤ handle := by
  induction chain with
  | bottom => exact Nat.le_refl _
  | caller _ _ _ below _ _ _ _ ih => exact ih.trans below.le

/-- The task on top goes on without changing its links. -/
theorem setTop (chain : Chain frames flow xer bottom handle callers)
    {frame frame' : Frame β α ε γ} (found : frames handle = some frame)
    (belongs : frame'.Belongs flow xer)
    (previous : frame'.promise.previous = frame.promise.previous) :
    Chain (Function.update frames handle (some frame')) flow xer bottom handle callers := by
  cases chain with
  | bottom => exact .bottom (Function.update_self ..) belongs
  | caller found' _ previous' below foundAbove suspended point rest =>
      rw [found] at found'
      cases found'
      exact .caller (Function.update_self ..) belongs (previous.trans previous') below
        ((Function.update_of_ne below.ne ..).trans foundAbove) suspended point
        (rest.setNewer below _)

/-- The task on top awaits a new one. -/
theorem push (chain : Chain frames flow xer bottom handle callers) {task : Nat}
    (newer : handle < task) {above below : Frame β α ε γ}
    {next : Except ε α → Position β α ε γ} (foundAbove : frames handle = some above)
    (suspended : above.suspended = true) (point : above.point = .awaiting task next)
    (belongs : below.Belongs flow xer) (previous : below.promise.previous = some handle) :
    Chain (Function.update frames task (some below)) flow xer bottom task (next :: callers) :=
  .caller (Function.update_self ..) belongs previous newer
    ((Function.update_of_ne newer.ne ..).trans foundAbove) suspended point
    (chain.setNewer newer _)

end Chain

end SkAsync.Coroutine

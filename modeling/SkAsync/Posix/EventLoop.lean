import SkAsync.Check
import SkAsync.Executor
import SkAsync.Posix.EpollReactor

/-!
# Resuming coroutines from the event thread

A coroutine that waits for a descriptor suspends in a waiter object, which is part of
its frame and holds its handle.  The event thread takes the waiter of a descriptor that
is ready and posts work to the executor of the coroutine, and some thread of the
executor runs it at a later time.

The work refers to variables of the event thread.  For a waiter that reads, this is a
reference, so what is read when the work runs is the handle in the waiter object, which
lives until the coroutine goes on.  For one that writes, it is a copy, whose lifetime
ends with the block that posted the work.  Work of the first kind always resumes the
right coroutine, and work of the second kind does exactly if it runs in time.
-/

namespace SkAsync.Posix

open SkAsync.Library

/-- The direction is among the events of the report. -/
def Reported.has (event : Reported) : Direction → Bool
  | .read => event.input
  | .write => event.output

/-- The waiter of a direction. -/
def FdState.waiter (state : FdState) : Direction → Option Nat
  | .read => state.readWaiter
  | .write => state.writeWaiter

/-- One call of `register_read_interest` or `register_write_interest`, and the handle of
the coroutine that waits. -/
structure Interest where
  fd : Nat
  direction : Direction
  handle : Nat
  deriving DecidableEq, Repr

/-- `epoll_coro_state`.  The number of the registration it is used for is kept for the
statements only. -/
structure CoroState where
  coroHandle : Nat
  taskExecutor : Nat
  registration : Nat
  deriving DecidableEq, Repr

/-- The variable `h` that a piece of work refers to. -/
inductive Captured
  /-- `auto &h`: the handle in the waiter object at an address. -/
  | coroHandle (waiter : Nat)
  /-- `auto h`: the variable of the block that posted work for a registration. -/
  | localHandle (registration : Nat)
  deriving DecidableEq, Repr

/-- Why work was posted: for the waiter of a registration, because of the events
reported for a descriptor. -/
structure Cause where
  registration : Nat
  fd : Nat
  event : Reported
  deriving DecidableEq, Repr

/-- The work on the queue of an executor: what the event thread posts, or anything else. -/
inductive Work
  | resume (captured : Captured) (cause : Cause)
  | other
  deriving DecidableEq, Repr

/-- The registration that work was posted for. -/
def Work.registration : Work → Option Nat
  | .resume _ cause => some cause.registration
  | .other => none

/-- What a piece of work did: the handle on which it called `resume`. -/
structure Resumption where
  cause : Cause
  outcome : Except Fault Nat

/-- Where the event thread is.  Outside of `epoll_wait` it holds the mutex. -/
inductive EventThread
  /-- In `epoll_wait`. -/
  | waiting
  /-- At the start of the loop body, with the events that are left. -/
  | input (events : List (Nat × Reported))
  /-- Behind the block for `EPOLLIN`. -/
  | output (events : List (Nat × Reported))
  /-- In the block for `EPOLLOUT` behind the call of `post`, with the value of `h` and the
  events that are left after this one. -/
  | posted (registration handle : Nat) (events : List (Nat × Reported))
  /-- It has returned. -/
  | exited
  deriving DecidableEq, Repr

/-- `_state`, the waiter objects that are alive by address, the addresses of the waiters
the coroutines are suspended in, the event thread, and the executors.  The registrations
and what the work has done are kept for the statements only. -/
structure EventLoop where
  state : Nat → Option FdState
  waiters : Nat → Option CoroState
  suspended : Nat → Option Nat
  thread : EventThread
  executors : Nat → MtExecutor Work
  registrations : List Interest
  resumed : List Resumption

namespace EventLoop

/-- No descriptors and no work. -/
def initial : EventLoop :=
  ⟨fun _ => none, fun _ => none, fun _ => none, .waiting, fun _ => .initial, [], []⟩

/-- The mutex is free. -/
def unlocked (loop : EventLoop) : Bool :=
  match loop.thread with
  | .waiting => true
  | .exited => true
  | _ => false

/-! ## Waiting -/

/-- Store the waiter and ask for `EPOLLIN`, which both directions do. -/
def setWaiter (state : FdState) (direction : Direction) (waiter : Nat) : FdState :=
  match direction with
  | .read =>
      { state with readWaiter := some waiter, events := { state.events with input := true } }
  | .write =>
      { state with writeWaiter := some waiter, events := { state.events with input := true } }

/-- `await_suspend` of `co_fd_is_readable` and `co_fd_is_writable`, for the state of the
descriptor. -/
def awaitSuspend (loop : EventLoop) (direction : Direction) (fd waiter handle executor : Nat)
    (state : FdState) : EventLoop :=
  { loop with
    state := Function.update loop.state fd (some (setWaiter state direction waiter))
    waiters := Function.update loop.waiters waiter
      (some ⟨handle, executor, loop.registrations.length⟩)
    suspended := Function.update loop.suspended handle (some waiter)
    registrations := loop.registrations ++ [⟨fd, direction, handle⟩] }

/-! ## The event thread -/

/-- `x->post` of work that refers to a variable, with the state of the descriptor and the
place of the thread afterwards. -/
def postResume (loop : EventLoop) (fd : Nat) (event : Reported) (state : FdState)
    (waiter : CoroState) (captured : Captured) (thread : EventThread) : EventLoop :=
  { loop with
    state := Function.update loop.state fd (some state)
    thread := thread
    executors := Function.update loop.executors waiter.taskExecutor
      ((loop.executors waiter.taskExecutor).postWork
        (.resume captured ⟨waiter.registration, fd, event⟩)) }

/-- One step of the loop over a batch in `epoll_thread_fn`.  It ends where a null pointer
would be dereferenced. -/
def advance (shutdownPipe : Nat) (loop : EventLoop) : Option EventLoop :=
  match loop.thread with
  | .waiting => none
  | .input [] => some { loop with thread := .waiting }
  | .input ((fd, event) :: events) =>
      if fd = shutdownPipe then some { loop with thread := .exited }
      else
        match loop.state fd with
        | none => none
        | some state =>
            match EpollReactor.handleInput event state with
            | (_, []) => some { loop with thread := .output ((fd, event) :: events) }
            | (state, (_, waiter) :: _) =>
                match loop.waiters waiter with
                | none => none
                | some coro =>
                    some (loop.postResume fd event state coro (.coroHandle waiter)
                      (.output ((fd, event) :: events)))
  | .output [] => none
  | .output ((fd, event) :: events) =>
      match loop.state fd with
      | none => none
      | some state =>
          match EpollReactor.handleOutput event state with
          | (_, []) => some { loop with thread := .input events }
          | (state, (_, waiter) :: _) =>
              match loop.waiters waiter with
              | none => none
              | some coro =>
                  some (loop.postResume fd event state coro (.localHandle coro.registration)
                    (.posted coro.registration coro.coroHandle events))
  | .posted _ _ events => some { loop with thread := .input events }
  | .exited => none

/-! ## The executors -/

/-- Read the variable that work refers to, which may not exist any more. -/
def read (loop : EventLoop) : Captured → Except Fault Nat
  | .coroHandle waiter =>
      match loop.waiters waiter with
      | some coro => .ok coro.coroHandle
      | none => .error .danglingDereference
  | .localHandle registration =>
      match loop.thread with
      | .posted current handle _ =>
          if current = registration then .ok handle else .error .danglingDereference
      | _ => .error .danglingDereference

/-- `resume` of a coroutine.  It goes on behind its `co_await`, so that its waiter object
is destroyed. -/
def resume (loop : EventLoop) (handle : Nat) : EventLoop :=
  match loop.suspended handle with
  | none => loop
  | some waiter =>
      { loop with
        waiters := Function.update loop.waiters waiter none
        suspended := Function.update loop.suspended handle none }

/-- The call of a piece of work. -/
def call (loop : EventLoop) : Work → EventLoop
  | .other => loop
  | .resume captured cause =>
      match loop.read captured with
      | .error fault => { loop with resumed := loop.resumed ++ [⟨cause, .error fault⟩] }
      | .ok handle =>
          { loop.resume handle with resumed := loop.resumed ++ [⟨cause, .ok handle⟩] }

/-- The work that an event of an executor calls. -/
def called (executor : MtExecutor Work) : MtExecutor.Event Work → Work
  | .execute worker =>
      match executor.workers worker with
      | .took item => item.work
      | _ => .other
  | _ => .other

/-- Others post work of their own. -/
def IsForeign : MtExecutor.Event Work → Prop
  | .post _ work => work = .other
  | _ => True

instance (event : MtExecutor.Event Work) : Decidable (IsForeign event) :=
  match event with
  | .post _ _ => inferInstanceAs (Decidable (_ = _))
  | .startThreads _ => isTrue trivial
  | .run => isTrue trivial
  | .dequeue _ => isTrue trivial
  | .execute _ => isTrue trivial
  | .finish _ => isTrue trivial
  | .stop => isTrue trivial

/-! ## Steps -/

/-- The atomic steps of the threads. -/
inductive Event
  | associate (fd : Nat)
  | deassociate (fd : Nat)
  /-- A coroutine begins to wait. -/
  | suspend (direction : Direction) (fd waiter handle executor : Nat)
  /-- `epoll_wait` returns a batch, whatever is in it. -/
  | wait (events : List (Nat × Reported))
  /-- The event thread goes on in the loop over the batch. -/
  | advance
  | executor (id : Nat) (event : MtExecutor.Event Work)

/-- One atomic step.  A coroutine that waits is not suspended elsewhere, and its waiter
object is a new one.  An assertion that fails ends the process, so that there is no next
state. -/
def step (build : Build) (shutdownPipe : Nat) (loop : EventLoop) : Event → Option EventLoop
  | .associate fd =>
      if loop.unlocked then
        let state := (loop.state fd).getD EpollReactor.newState
        some { loop with
          state := Function.update loop.state fd (some { state with events := .none }) }
      else none
  | .deassociate fd =>
      if loop.unlocked then some { loop with state := Function.update loop.state fd none }
      else none
  | .suspend direction fd waiter handle executor =>
      if loop.unlocked ∧ loop.waiters waiter = none ∧ loop.suspended handle = none then
        match loop.state fd with
        | none => none
        | some state =>
            match skCheck build (EpollReactor.CanRegister state) "assertion" with
            | .error _ => none
            | .ok () => some (loop.awaitSuspend direction fd waiter handle executor state)
      else none
  | .wait events =>
      if loop.thread = .waiting ∧ events.length ≤ EpollReactor.maxEvents then
        some { loop with thread := .input events }
      else none
  | .advance => loop.advance shutdownPipe
  | .executor id event =>
      if IsForeign event then
        match (loop.executors id).step event with
        | none => none
        | some executor =>
            let after :=
              { loop with executors := Function.update loop.executors id executor }
            some (after.call (called (loop.executors id) event))
      else none

end EventLoop

end SkAsync.Posix

import SkAsync.Executor
import SkAsync.Library.Monitor

/-!
# `mt_executor` with its mutex and its condition variable

Every step is one access of one thread: to the mutex, to the condition variable or, with the
lock, to the queue.  Threads come in three roles.  Workers are in `run`, and may call `post`
from the work they run; every call of `post` by another thread has a name of its own; the
owner, one at a time, calls `start_threads` and `stop`, which access the list of threads
without the lock.  What is `MtExecutor` there is an abstraction of this: `pool` forgets the
mutex and who sleeps, and each step is one of its steps or none.
-/

namespace SkAsync

open SkAsync.Library

namespace MtThreads

/-! ## The threads -/

inductive Thread
  | worker (id : Nat)
  | caller (id : Nat)
  | owner
  deriving DecidableEq, Repr

/-- Where a call of `post` is. -/
inductive Call (ω : Type)
  /-- It has not begun, or has returned. -/
  | idle
  /-- `std::lock_guard<std::mutex> lock(_mtx);` -/
  | lock (work : ω)
  /-- `_work.push_back(std::move(work));` -/
  | push (work : ω)
  /-- `_cv.notify_one();` -/
  | notify
  /-- The end of the scope of the lock. -/
  | unlock
  deriving DecidableEq, Repr

/-- Where a worker is in `run`. -/
inductive Run (ω : Type)
  /-- It was not started. -/
  | absent
  /-- `std::unique_lock<std::mutex> lock(_mtx);` -/
  | lock
  /-- It has the lock and evaluates the predicate of `wait`. -/
  | test
  /-- It waits, asleep or for the lock. -/
  | wait
  /-- It has the lock and returns because of `_stop`. -/
  | leave
  /-- `lock.unlock();`, after an item was taken. -/
  | unlock (item : WorkItem ω)
  /-- `work();` -/
  | work (item : WorkItem ω)
  /-- It is in the work, which may be in a call of `post`. -/
  | running (item : WorkItem ω) (call : Call ω)
  /-- It has returned. -/
  | exited
  deriving DecidableEq, Repr

/-- Where the owner is in `start_threads` and `stop`. -/
inductive Own
  | idle
  /-- In the loop of `start_threads`, which starts so many more. -/
  | starting (more : Nat)
  /-- `std::unique_lock<std::mutex> lock(_mtx);` of `stop`. -/
  | lock
  /-- `_stop = true;` -/
  | set
  /-- `_cv.notify_all();` -/
  | notify
  /-- `lock.unlock();` -/
  | unlock
  /-- In the loop that joins the threads. -/
  | join
  deriving DecidableEq, Repr

/-- Where a thread is. -/
inductive Place (ω : Type)
  | run (run : Run ω)
  | call (call : Call ω)
  | own (own : Own)
  deriving DecidableEq, Repr

end MtThreads

/-- `mt_executor`, its threads, and what has happened so far. -/
structure MtThreads (ω : Type) where
  monitor : Monitor MtThreads.Thread
  work : List (WorkItem ω)
  stop : Bool
  threads : List Nat
  started : Nat
  called : Nat
  places : MtThreads.Thread → MtThreads.Place ω
  posted : List (WorkItem ω)
  dequeued : List (WorkItem ω)
  executed : List (WorkItem ω)
  finished : List (WorkItem ω)

namespace MtThreads

variable {ω : Type}

/-- Before a thread has done anything. -/
def Thread.outside : Thread → Place ω
  | .worker _ => .run .absent
  | .caller _ => .call .idle
  | .owner => .own .idle

/-- A new executor. -/
def initial : MtThreads ω :=
  ⟨.free, [], false, [], 0, 0, Thread.outside, [], [], [], []⟩

/-- A thread goes on to another place. -/
def setPlace (pool : MtThreads ω) (thread : Thread) (place : Place ω) : MtThreads ω :=
  { pool with places := Function.update pool.places thread place }

def setMonitor (pool : MtThreads ω) (monitor : Monitor Thread) : MtThreads ω :=
  { pool with monitor := monitor }

/-! ## The steps -/

/-- `_work.push_back(std::move(work));` -/
def pushBack (pool : MtThreads ω) (work : ω) : MtThreads ω :=
  let item := ⟨pool.posted.length, work⟩
  { pool with
    work := pool.work ++ [item]
    posted := pool.posted ++ [item] }

/-- `post`.  `notify_one` wakes the worker it is told, if it sleeps, unless none sleeps. -/
def post (pool : MtThreads ω) (thread : Thread) (wakes : Nat) :
    Call ω → Option (Call ω × MtThreads ω)
  | .idle => none
  | .lock work => (pool.monitor.lock thread).map fun monitor =>
      (.push work, pool.setMonitor monitor)
  | .push work => some (.notify, pool.pushBack work)
  | .notify => (pool.monitor.notifyOne (.worker wakes)).map fun monitor =>
      (.unlock, pool.setMonitor monitor)
  | .unlock => some (.idle, pool.setMonitor pool.monitor.unlock)

/-- `run`. -/
def run (pool : MtThreads ω) (thread : Thread) (wakes : Nat) :
    Run ω → Option (Run ω × MtThreads ω)
  | .absent => none
  | .lock => (pool.monitor.lock thread).map fun monitor => (.test, pool.setMonitor monitor)
  | .test =>
      if pool.work.isEmpty ∧ pool.stop = false then
        some (.wait, pool.setMonitor (pool.monitor.wait thread))
      else if pool.stop then some (.leave, pool)
      else
        match pool.work with
        | [] => none
        | item :: work =>
            some (.unlock item, { pool with
              work := work
              dequeued := pool.dequeued ++ [item] })
  | .wait => (pool.monitor.relock thread).map fun monitor => (.test, pool.setMonitor monitor)
  | .leave => some (.exited, pool.setMonitor pool.monitor.unlock)
  | .unlock item => some (.work item, pool.setMonitor pool.monitor.unlock)
  | .work item =>
      some (.running item .idle, { pool with executed := pool.executed ++ [item] })
  | .running item .idle => some (.lock, { pool with finished := pool.finished ++ [item] })
  | .running item call => (pool.post thread wakes call).map fun result =>
      (.running item result.1, result.2)
  | .exited => none

/-- Whether the thread of a worker can be joined. -/
def Place.hasExited : Place ω → Bool
  | .run .exited => true
  | _ => false

/-- `start_threads` and `stop`. -/
def own (pool : MtThreads ω) (thread : Thread) : Own → Option (Own × MtThreads ω)
  | .idle => none
  | .starting 0 => some (.idle, pool)
  | .starting (more + 1) =>
      some (.starting more, { pool with
        threads := pool.threads ++ [pool.started]
        started := pool.started + 1 }.setPlace (.worker pool.started) (.run .lock))
  | .lock => (pool.monitor.lock thread).map fun monitor => (.set, pool.setMonitor monitor)
  | .set => some (.notify, { pool with stop := true })
  | .notify => some (.unlock, pool.setMonitor pool.monitor.notifyAll)
  | .unlock => some (.join, pool.setMonitor pool.monitor.unlock)
  | .join =>
      match pool.threads.getLast? with
      | none => some (.idle, pool)
      | some id =>
          if (pool.places (.worker id)).hasExited then
            some (.join, { pool with threads := pool.threads.dropLast })
          else none

/-- A thread goes on from where it is. -/
def goOn (pool : MtThreads ω) (wakes : Nat) (thread : Thread) : Option (MtThreads ω) :=
  match thread, pool.places thread with
  | .worker id, .run place => (pool.run (.worker id) wakes place).map fun result =>
      result.2.setPlace (.worker id) (.run result.1)
  | .caller id, .call place => (pool.post (.caller id) wakes place).map fun result =>
      result.2.setPlace (.caller id) (.call result.1)
  | .owner, .own place => (pool.own .owner place).map fun result =>
      result.2.setPlace .owner (.own result.1)
  | _, _ => none

inductive Event (ω : Type)
  | goOn (thread : Thread) (wakes : Nat)
  /-- A worker wakes without having been notified. -/
  | wake (id : Nat)
  /-- A call of `post`, by a worker from within the work it runs or by any other thread. -/
  | post (worker : Option Nat) (work : ω)
  /-- A thread calls `run` by itself. -/
  | run
  /-- The owner calls `start_threads`. -/
  | startThreads (nthreads : Nat)
  /-- The owner calls `stop`. -/
  | stop

/-- One step. -/
def step (pool : MtThreads ω) : Event ω → Option (MtThreads ω)
  | .goOn thread wakes => pool.goOn wakes thread
  | .wake id => (pool.monitor.wake (.worker id)).map pool.setMonitor
  | .post none work =>
      some ({ pool with called := pool.called + 1 }.setPlace (.caller pool.called)
        (.call (.lock work)))
  | .post (some id) work =>
      match pool.places (.worker id) with
      | .run (.running item .idle) =>
          some (pool.setPlace (.worker id) (.run (.running item (.lock work))))
      | _ => none
  | .run =>
      some ({ pool with started := pool.started + 1 }.setPlace (.worker pool.started)
        (.run .lock))
  | .startThreads nthreads =>
      match pool.places .owner with
      | .own .idle =>
          some (pool.setPlace .owner (.own (.starting (if nthreads = 0 then 1 else nthreads))))
      | _ => none
  | .stop =>
      match pool.places .owner with
      | .own .idle => some (pool.setPlace .owner (.own .lock))
      | _ => none

/-! ## What a step can be -/

/-- The steps of a call of `post`. -/
inductive Posts (pool : MtThreads ω) (thread : Thread) (wakes : Nat) :
    Call ω → Call ω → MtThreads ω → Prop
  | lock {work : ω} : pool.monitor.owner = none →
      Posts pool thread wakes (.lock work) (.push work)
        (pool.setMonitor { pool.monitor with owner := some thread })
  | push (work : ω) : Posts pool thread wakes (.push work) .notify (pool.pushBack work)
  | notify {monitor : Monitor Thread} : pool.monitor.notifyOne (.worker wakes) = some monitor →
      Posts pool thread wakes .notify .unlock (pool.setMonitor monitor)
  | unlock : Posts pool thread wakes .unlock .idle (pool.setMonitor pool.monitor.unlock)

/-- The steps of a thread, from one place to another. -/
inductive Goes (pool : MtThreads ω) (thread : Thread) (wakes : Nat) :
    Place ω → Place ω → MtThreads ω → Prop
  | call {call call' : Call ω} {next : MtThreads ω} : Posts pool thread wakes call call' next →
      Goes pool thread wakes (.call call) (.call call') next
  | running {item : WorkItem ω} {call call' : Call ω} {next : MtThreads ω} :
      Posts pool thread wakes call call' next →
      Goes pool thread wakes (.run (.running item call)) (.run (.running item call')) next
  | lock : pool.monitor.owner = none → Goes pool thread wakes (.run .lock) (.run .test)
      (pool.setMonitor { pool.monitor with owner := some thread })
  | wait : pool.work = [] → pool.stop = false → Goes pool thread wakes (.run .test) (.run .wait)
      (pool.setMonitor (pool.monitor.wait thread))
  | relock {monitor : Monitor Thread} : pool.monitor.relock thread = some monitor →
      Goes pool thread wakes (.run .wait) (.run .test) (pool.setMonitor monitor)
  | take {item : WorkItem ω} {work : List (WorkItem ω)} : pool.work = item :: work →
      pool.stop = false → Goes pool thread wakes (.run .test) (.run (.unlock item))
        { pool with
          work := work
          dequeued := pool.dequeued ++ [item] }
  | leave : pool.stop = true → Goes pool thread wakes (.run .test) (.run .leave) pool
  | exit : Goes pool thread wakes (.run .leave) (.run .exited)
      (pool.setMonitor pool.monitor.unlock)
  | unlock (item : WorkItem ω) : Goes pool thread wakes (.run (.unlock item)) (.run (.work item))
      (pool.setMonitor pool.monitor.unlock)
  | work (item : WorkItem ω) :
      Goes pool thread wakes (.run (.work item)) (.run (.running item .idle))
        { pool with executed := pool.executed ++ [item] }
  | finish (item : WorkItem ω) :
      Goes pool thread wakes (.run (.running item .idle)) (.run .lock)
        { pool with finished := pool.finished ++ [item] }
  | started : Goes pool thread wakes (.own (.starting 0)) (.own .idle) pool
  | start (more : Nat) :
      Goes pool thread wakes (.own (.starting (more + 1))) (.own (.starting more))
        ({ pool with
          threads := pool.threads ++ [pool.started]
          started := pool.started + 1 }.setPlace (.worker pool.started) (.run .lock))
  | lockStop : pool.monitor.owner = none → Goes pool thread wakes (.own .lock) (.own .set)
      (pool.setMonitor { pool.monitor with owner := some thread })
  | set : Goes pool thread wakes (.own .set) (.own .notify) { pool with stop := true }
  | notifyAll : Goes pool thread wakes (.own .notify) (.own .unlock)
      (pool.setMonitor pool.monitor.notifyAll)
  | unlockStop : Goes pool thread wakes (.own .unlock) (.own .join)
      (pool.setMonitor pool.monitor.unlock)
  | join {ids : List Nat} {id : Nat} : pool.threads = ids ++ [id] →
      (pool.places (.worker id)).hasExited = true →
      Goes pool thread wakes (.own .join) (.own .join) { pool with threads := ids }
  | joined : pool.threads = [] → Goes pool thread wakes (.own .join) (.own .idle) pool

/-- The places of a thread. -/
inductive Role : Thread → Place ω → Prop
  | worker (id : Nat) (place : Run ω) : Role (.worker id) (.run place)
  | caller (id : Nat) (place : Call ω) : Role (.caller id) (.call place)
  | owner (place : Own) : Role .owner (.own place)

section Inversion

variable {pool next : MtThreads ω} {thread : Thread} {wakes : Nat}

theorem Posts.inCall {call call' : Call ω} (posts : Posts pool thread wakes call call' next) :
    call ≠ .idle := by
  rintro rfl
  cases posts

theorem posts_iff {call call' : Call ω} :
    pool.post thread wakes call = some (call', next) ↔
      Posts pool thread wakes call call' next := by
  constructor
  · intro posted
    cases call with
    | idle => cases posted
    | lock work =>
        rcases Option.map_eq_some_iff.mp posted with ⟨monitor, locked, same⟩
        rcases Monitor.lock_eq_some_iff.mp locked with ⟨isFree, rfl⟩
        cases same
        exact .lock isFree
    | push work =>
        cases posted
        exact .push work
    | notify =>
        rcases Option.map_eq_some_iff.mp posted with ⟨monitor, notified, same⟩
        cases same
        exact .notify notified
    | unlock =>
        cases posted
        exact .unlock
  · intro posts
    cases posts with
    | lock isFree => simp [post, Monitor.lock, isFree]
    | push work => rfl
    | notify notified => simp [post, notified]
    | unlock => rfl

theorem run_running {item : WorkItem ω} {call : Call ω} (inCall : call ≠ .idle) :
    pool.run thread wakes (.running item call) =
      (pool.post thread wakes call).map fun result => (.running item result.1, result.2) := by
  cases call with
  | idle => exact absurd rfl inCall
  | lock work | push work | notify | unlock => rfl

theorem run_iff {place place' : Run ω} :
    pool.run thread wakes place = some (place', next) ↔
      Goes pool thread wakes (.run place) (.run place') next := by
  constructor
  · intro ran
    cases place with
    | absent => cases ran
    | lock =>
        rcases Option.map_eq_some_iff.mp ran with ⟨monitor, locked, same⟩
        rcases Monitor.lock_eq_some_iff.mp locked with ⟨isFree, rfl⟩
        cases same
        exact .lock isFree
    | test =>
        simp only [run] at ran
        split_ifs at ran with idle stopped
        · cases ran
          exact .wait (List.isEmpty_iff.mp idle.1) idle.2
        · cases ran
          exact .leave stopped
        · split at ran
          · cases ran
          · rename_i item work queue
            cases ran
            exact .take queue (Bool.eq_false_iff.mpr stopped)
    | wait =>
        rcases Option.map_eq_some_iff.mp ran with ⟨monitor, relocked, same⟩
        cases same
        exact .relock relocked
    | leave =>
        cases ran
        exact .exit
    | unlock item =>
        cases ran
        exact .unlock item
    | work item =>
        cases ran
        exact .work item
    | running item call =>
        by_cases atWork : call = .idle
        · subst atWork
          cases ran
          exact .finish item
        · rw [run_running atWork] at ran
          rcases Option.map_eq_some_iff.mp ran with ⟨result, posted, same⟩
          cases same
          exact .running (posts_iff.mp posted)
    | exited => cases ran
  · intro goes
    cases goes with
    | running posts =>
        rw [run_running posts.inCall, posts_iff.mpr posts]
        rfl
    | lock isFree => simp [run, Monitor.lock, isFree]
    | wait empty goesOn => simp [run, empty, goesOn]
    | relock relocked => simp [run, relocked]
    | take queue goesOn => simp [run, queue, goesOn]
    | leave stopped => simp [run, stopped]
    | exit => rfl
    | unlock item => rfl
    | work item => rfl
    | finish item => rfl

theorem own_iff {place place' : Own} :
    pool.own thread place = some (place', next) ↔
      Goes pool thread wakes (.own place) (.own place') next := by
  constructor
  · intro owned
    cases place with
    | idle => cases owned
    | starting more =>
        cases more with
        | zero =>
            cases owned
            exact .started
        | succ more =>
            cases owned
            exact .start more
    | lock =>
        rcases Option.map_eq_some_iff.mp owned with ⟨monitor, locked, same⟩
        rcases Monitor.lock_eq_some_iff.mp locked with ⟨isFree, rfl⟩
        cases same
        exact .lockStop isFree
    | set =>
        cases owned
        exact .set
    | notify =>
        cases owned
        exact .notifyAll
    | unlock =>
        cases owned
        exact .unlockStop
    | join =>
        simp only [own] at owned
        split at owned
        · rename_i last
          cases owned
          exact .joined (List.getLast?_eq_none_iff.mp last)
        · rename_i id last
          split_ifs at owned with exited
          cases owned
          rcases List.getLast?_eq_some_iff.mp last with ⟨ids, split⟩
          rw [split, List.dropLast_concat]
          exact .join split exited
  · intro goes
    cases goes with
    | started => rfl
    | start more => rfl
    | lockStop isFree => simp [own, Monitor.lock, isFree]
    | set => rfl
    | notifyAll => rfl
    | unlockStop => rfl
    | join split exited => simp [own, split, exited]
    | joined empty => simp [own, empty]

/-- A thread goes on exactly where one of the steps can be taken. -/
theorem goOn_iff :
    pool.goOn wakes thread = some next ↔
      Role thread (pool.places thread) ∧ ∃ place shared,
        Goes pool thread wakes (pool.places thread) place shared ∧
        next = shared.setPlace thread place := by
  unfold goOn
  generalize pool.places thread = before
  constructor
  · intro went
    split at went
    · rename_i id place
      rcases Option.map_eq_some_iff.mp went with ⟨result, ran, rfl⟩
      exact ⟨.worker id place, _, _, run_iff.mp ran, rfl⟩
    · rename_i id place
      rcases Option.map_eq_some_iff.mp went with ⟨result, posted, rfl⟩
      exact ⟨.caller id place, _, _, .call (posts_iff.mp posted), rfl⟩
    · rename_i place
      rcases Option.map_eq_some_iff.mp went with ⟨result, owned, rfl⟩
      exact ⟨.owner place, _, _, own_iff.mp owned, rfl⟩
    · cases went
  · rintro ⟨role, place, shared, goes, rfl⟩
    cases role with
    | worker id before =>
        have place_eq : ∃ after, place = .run after := by cases goes <;> exact ⟨_, rfl⟩
        rcases place_eq with ⟨after, rfl⟩
        simp [run_iff.mpr goes]
    | caller id before =>
        cases goes with
        | call posts => simp [posts_iff.mpr posts]
    | owner before =>
        have place_eq : ∃ after, place = .own after := by cases goes <;> exact ⟨_, rfl⟩
        rcases place_eq with ⟨after, rfl⟩
        simp [own_iff.mpr goes]

end Inversion

/-! ## The abstraction -/

/-- What is seen of a worker from outside. -/
def Place.worker : Place ω → Worker ω
  | .run .absent => .absent
  | .run .lock | .run .test | .run .wait => .waiting
  | .run .leave | .run .exited => .exited
  | .run (.unlock item) | .run (.work item) => .took item
  | .run (.running item _) => .running item
  | _ => .absent

/-- The executor without its mutex, and with all that sleep and wake in one place. -/
def executor (pool : MtThreads ω) : MtExecutor ω where
  work := pool.work
  stop := pool.stop
  started := pool.started
  workers id := (pool.places (.worker id)).worker
  posted := pool.posted
  dequeued := pool.dequeued
  executed := pool.executed
  finished := pool.finished

section Abstraction

variable {pool next shared : MtThreads ω} {thread : Thread} {place : Place ω} {wakes : Nat}

@[simp]
theorem executor_initial : (initial : MtThreads ω).executor = MtExecutor.initial :=
  rfl

@[simp]
theorem executor_setMonitor (monitor : Monitor Thread) :
    (pool.setMonitor monitor).executor = pool.executor :=
  rfl

theorem executor_setPlace_of_eq (same : place.worker = (pool.places thread).worker) :
    (pool.setPlace thread place).executor = pool.executor := by
  unfold executor setPlace
  congr 1
  funext id
  by_cases here : Thread.worker id = thread
  · subst here
    simp [same]
  · simp [here]

/-- What is behind a step, seen from outside: nothing, or one step of `MtExecutor`. -/
def Mirrors (pool next : MtThreads ω) : Prop :=
  next.executor = pool.executor ∨
    ∃ event, MtExecutor.step pool.executor event = some next.executor

theorem Posts.mirrors {call call' : Call ω} (posts : Posts pool thread wakes call call' next)
    (caller : Option Nat) (canPost : pool.executor.canPost caller = true) :
    next.places = pool.places ∧ Mirrors pool next := by
  cases posts with
  | lock isFree => exact ⟨rfl, .inl rfl⟩
  | push work =>
      refine ⟨rfl, .inr ⟨.post caller work, ?_⟩⟩
      rw [MtExecutor.step, if_pos canPost]
      rfl
  | notify notified => exact ⟨rfl, .inl rfl⟩
  | unlock => exact ⟨rfl, .inl rfl⟩

/-- A step that another place of the thread does not show. -/
theorem Mirrors.setPlace (mirrors : Mirrors pool shared)
    (same : place.worker = (shared.places thread).worker) :
    Mirrors pool (shared.setPlace thread place) := by
  rw [Mirrors, executor_setPlace_of_eq same]
  exact mirrors

end Abstraction

end MtThreads

end SkAsync

import Mathlib.Data.List.Range
import SkAsync.Library.Custody
import SkAsync.Library.Interleaving

/-!
# `mt_executor`

Worker threads take items off a queue under a lock and run them outside of it, while
any thread posts more.  Each event is one atomic step of one thread, so the lists of
events are the interleavings.  Every call of `post` gets a ticket, which tells apart
two posts of the same work; the lists of items posted, taken, started and finished
are kept for the statements only.
-/

namespace SkAsync

open SkAsync.Library

/-- One call of `post` and the work it was called with. -/
structure WorkItem (ω : Type) where
  ticket : Nat
  work : ω
  deriving DecidableEq, Repr

/-- Where a thread is in `run`. -/
inductive Worker (ω : Type)
  /-- It was not started. -/
  | absent
  /-- It is at the start of the loop, or blocked in `wait`. -/
  | waiting
  /-- It has taken an item and released the lock. -/
  | took (item : WorkItem ω)
  /-- It is in the call of `work()`. -/
  | running (item : WorkItem ω)
  /-- It has returned. -/
  | exited
  deriving DecidableEq, Repr

/-- The item a thread has taken and not finished. -/
def Worker.item {ω : Type} : Worker ω → Option (WorkItem ω)
  | .took item => some item
  | .running item => some item
  | _ => none

/-- `mt_executor`, its threads, and what has happened so far. -/
structure MtExecutor (ω : Type) where
  work : List (WorkItem ω)
  stop : Bool
  started : Nat
  workers : Nat → Worker ω
  posted : List (WorkItem ω)
  dequeued : List (WorkItem ω)
  executed : List (WorkItem ω)
  finished : List (WorkItem ω)

namespace MtExecutor

variable {ω : Type}

/-- An executor without threads and work. -/
def initial : MtExecutor ω :=
  ⟨[], false, 0, fun _ => .absent, [], [], [], []⟩

/-- The atomic steps of the threads. -/
inductive Event (ω : Type)
  /-- `start_threads`. -/
  | startThreads (nthreads : Nat)
  /-- A thread calls `run` by itself. -/
  | run
  /-- `post`, by a worker from within the work it runs or by any other thread. -/
  | post (caller : Option Nat) (work : ω)
  /-- The locked part of an iteration of `run`. -/
  | dequeue (worker : Nat)
  /-- The call of `work()` begins. -/
  | execute (worker : Nat)
  /-- The call of `work()` returns. -/
  | finish (worker : Nat)
  /-- The locked part of `stop`. -/
  | stop

/-- A number of threads enter `run`. -/
def enter (executor : MtExecutor ω) (count : Nat) : MtExecutor ω :=
  { executor with
    workers := fun worker =>
      if executor.started ≤ worker ∧ worker < executor.started + count then .waiting
      else executor.workers worker
    started := executor.started + count }

/-- A thread goes on to another place in `run`. -/
def setWorker (executor : MtExecutor ω) (worker : Nat) (place : Worker ω) : Nat → Worker ω :=
  Function.update executor.workers worker place

/-- Whether a thread can call `post` now: a worker does so only while it runs work. -/
def canPost (executor : MtExecutor ω) : Option Nat → Bool
  | none => true
  | some worker =>
      match executor.workers worker with
      | .running _ => true
      | _ => false

/-- `post`. -/
def postWork (executor : MtExecutor ω) (work : ω) : MtExecutor ω :=
  let item := ⟨executor.posted.length, work⟩
  { executor with
    work := executor.work ++ [item]
    posted := executor.posted ++ [item] }

/-- One atomic step.  A worker whose predicate is false stays blocked in `wait`. -/
def step (executor : MtExecutor ω) : Event ω → Option (MtExecutor ω)
  | .startThreads nthreads => some (executor.enter (if nthreads = 0 then 1 else nthreads))
  | .run => some (executor.enter 1)
  | .post caller work => if executor.canPost caller then some (executor.postWork work) else none
  | .dequeue worker =>
      match executor.workers worker with
      | .waiting =>
          if executor.stop then
            some { executor with workers := executor.setWorker worker .exited }
          else
            match executor.work with
            | [] => none
            | item :: work =>
                some { executor with
                  work := work
                  workers := executor.setWorker worker (.took item)
                  dequeued := executor.dequeued ++ [item] }
      | _ => none
  | .execute worker =>
      match executor.workers worker with
      | .took item =>
          some { executor with
            workers := executor.setWorker worker (.running item)
            executed := executor.executed ++ [item] }
      | _ => none
  | .finish worker =>
      match executor.workers worker with
      | .running item =>
          some { executor with
            workers := executor.setWorker worker .waiting
            finished := executor.finished ++ [item] }
      | _ => none
  | .stop => some { executor with stop := true }

/-- What an event does to the lists of the items posted and executed. -/
theorem step_lists {executor next : MtExecutor ω} {event : Event ω}
    (stepped : step executor event = some next) :
    (∃ caller work, event = .post caller work ∧ next = executor.postWork work) ∨
      (∃ worker item, event = .execute worker ∧ executor.workers worker = .took item ∧
        next.posted = executor.posted ∧ next.executed = executor.executed ++ [item]) ∨
      ((∀ caller work, event ≠ .post caller work) ∧ (∀ worker, event ≠ .execute worker) ∧
        next.posted = executor.posted ∧ next.executed = executor.executed) := by
  cases event with
  | startThreads nthreads =>
      cases stepped
      exact .inr (.inr ⟨by simp, by simp, rfl, rfl⟩)
  | run =>
      cases stepped
      exact .inr (.inr ⟨by simp, by simp, rfl, rfl⟩)
  | post caller work =>
      simp only [step] at stepped
      split_ifs at stepped
      cases stepped
      exact .inl ⟨caller, work, rfl, rfl⟩
  | dequeue worker =>
      simp only [step] at stepped
      split at stepped
      · split_ifs at stepped
        · cases stepped
          exact .inr (.inr ⟨by simp, by simp, rfl, rfl⟩)
        · split at stepped
          · cases stepped
          · cases stepped
            exact .inr (.inr ⟨by simp, by simp, rfl, rfl⟩)
      · cases stepped
  | execute worker =>
      simp only [step] at stepped
      split at stepped
      · rename_i item took
        cases stepped
        exact .inr (.inl ⟨worker, item, rfl, took, rfl, rfl⟩)
      · cases stepped
  | finish worker =>
      simp only [step] at stepped
      split at stepped
      · cases stepped
        exact .inr (.inr ⟨by simp, by simp, rfl, rfl⟩)
      · cases stepped
  | stop =>
      cases stepped
      exact .inr (.inr ⟨by simp, by simp, rfl, rfl⟩)

/-! ## The invariant -/

/-- The items the workers have taken and not finished. -/
def held (executor : MtExecutor ω) : Nat → Option (WorkItem ω) :=
  Worker.item ∘ executor.workers

/-- The queue is the end of what was posted; what was taken off it is held by one
worker or finished; work is started only after it was taken, and once. -/
structure Invariant (executor : MtExecutor ω) : Prop where
  fifo : executor.posted = executor.dequeued ++ executor.work
  tickets : executor.posted.map WorkItem.ticket = List.range executor.posted.length
  custody : Custody executor.held executor.dequeued executor.finished
  executed_nodup : executor.executed.Nodup
  executed_dequeued : ∀ item ∈ executor.executed, item ∈ executor.dequeued
  took_not_executed : ∀ {worker item}, executor.workers worker = .took item →
    item ∉ executor.executed
  absent_beyond : ∀ worker, executor.started ≤ worker → executor.workers worker = .absent

/-- No two calls of `post` have the same ticket. -/
theorem Invariant.posted_nodup {executor : MtExecutor ω} (invariant : Invariant executor) :
    executor.posted.Nodup := by
  apply List.Nodup.of_map WorkItem.ticket
  rw [invariant.tickets]
  exact List.nodup_range

theorem invariant_initial : Invariant (initial : MtExecutor ω) := by
  constructor
  · rfl
  · rfl
  · exact Custody.nothing
  · exact List.nodup_nil
  · simp [initial]
  · simp [initial]
  · simp [initial]

/-! ## One step -/

theorem held_setWorker (executor : MtExecutor ω) (worker : Nat) (place : Worker ω) :
    Worker.item ∘ executor.setWorker worker place =
      Function.update executor.held worker place.item :=
  Function.comp_update _ _ _ _

/-- A thread that keeps its item does not change who holds what. -/
theorem held_setWorker_of_item_eq {executor : MtExecutor ω} {worker : Nat} {place before : Worker ω}
    (was : executor.workers worker = before) (same : place.item = before.item) :
    Worker.item ∘ executor.setWorker worker place = executor.held := by
  rw [held_setWorker, same, ← was]
  exact Function.update_eq_self worker executor.held

/-- Only threads that were started go on. -/
theorem Invariant.absent_beyond_setWorker {executor : MtExecutor ω}
    (invariant : Invariant executor) {worker : Nat} {place : Worker ω}
    (present : executor.workers worker ≠ .absent) :
    ∀ other, executor.started ≤ other → executor.setWorker worker place other = .absent := by
  intro other beyond
  have differs : other ≠ worker := by
    rintro rfl
    exact present (invariant.absent_beyond other beyond)
  exact (Function.update_of_ne differs _ _).trans (invariant.absent_beyond other beyond)

theorem invariant_enter {executor : MtExecutor ω} (invariant : Invariant executor) (count : Nat) :
    Invariant (executor.enter count) := by
  have held_eq : (executor.enter count).held = executor.held := by
    funext worker
    unfold held enter
    simp only [Function.comp_apply]
    split_ifs with entered
    · rw [invariant.absent_beyond worker entered.1]
      rfl
    · rfl
  constructor
  · exact invariant.fifo
  · exact invariant.tickets
  · rw [held_eq]
    exact invariant.custody
  · exact invariant.executed_nodup
  · exact invariant.executed_dequeued
  · intro worker item took
    simp only [enter] at took
    split_ifs at took
    exact invariant.took_not_executed took
  · intro worker beyond
    simp only [enter] at beyond ⊢
    rw [if_neg (fun entered => Nat.not_lt.mpr beyond entered.2)]
    exact invariant.absent_beyond worker (Nat.le_of_add_right_le beyond)

theorem invariant_post {executor : MtExecutor ω} (invariant : Invariant executor) (work : ω) :
    Invariant (executor.postWork work) := by
  constructor
  · change executor.posted ++ [_] = executor.dequeued ++ (executor.work ++ [_])
    rw [invariant.fifo, List.append_assoc]
  · change (executor.posted ++ [_]).map WorkItem.ticket = List.range (executor.posted ++ [_]).length
    rw [List.map_append, List.length_append, List.length_singleton, List.range_succ,
      invariant.tickets]
    rfl
  · exact invariant.custody
  · exact invariant.executed_nodup
  · exact invariant.executed_dequeued
  · exact invariant.took_not_executed
  · exact invariant.absent_beyond

/-- A worker takes the item in front of the queue. -/
theorem invariant_take {executor : MtExecutor ω} (invariant : Invariant executor) {worker : Nat}
    {item : WorkItem ω} {work : List (WorkItem ω)}
    (waits : executor.workers worker = .waiting) (queue : executor.work = item :: work) :
    Invariant { executor with
      work := work
      workers := executor.setWorker worker (.took item)
      dequeued := executor.dequeued ++ [item] } := by
  have fresh : item ∉ executor.dequeued := by
    intro member
    have nodup := invariant.posted_nodup
    rw [invariant.fifo, queue] at nodup
    exact (List.nodup_append.mp nodup).2.2 item member item List.mem_cons_self rfl
  constructor
  · change executor.posted = executor.dequeued ++ [item] ++ work
    rw [invariant.fifo, queue, List.append_assoc, List.singleton_append]
  · exact invariant.tickets
  · change Custody (Worker.item ∘ executor.setWorker worker (.took item)) _ _
    rw [held_setWorker]
    apply invariant.custody.take
    · exact congrArg Worker.item waits
    · exact fresh
    · intro other
      rw [List.mem_append, List.mem_singleton, or_comm]
  · exact invariant.executed_nodup
  · exact fun other member => List.mem_append_left _ (invariant.executed_dequeued other member)
  · intro other taken isTook
    change Function.update executor.workers worker (.took item) other = .took taken at isTook
    by_cases same : other = worker
    · subst same
      rw [Function.update_self] at isTook
      cases isTook
      exact fun executed => fresh (invariant.executed_dequeued item executed)
    · rw [Function.update_of_ne same] at isTook
      exact invariant.took_not_executed isTook
  · exact invariant.absent_beyond_setWorker (by simp [waits])

/-- A thread that was not taking an item before has not just taken one elsewhere. -/
theorem Invariant.took_not_executed_setWorker {executor : MtExecutor ω}
    (invariant : Invariant executor) {worker : Nat} {place : Worker ω}
    (notTook : ∀ item, place ≠ .took item) {other : Nat} {item : WorkItem ω}
    (isTook : executor.setWorker worker place other = .took item) :
    other ≠ worker ∧ executor.workers other = .took item ∧ item ∉ executor.executed := by
  unfold setWorker at isTook
  by_cases same : other = worker
  · subst same
    rw [Function.update_self] at isTook
    exact absurd isTook (notTook item)
  · rw [Function.update_of_ne same] at isTook
    exact ⟨same, isTook, invariant.took_not_executed isTook⟩

/-- A worker that holds no item returns from `run`. -/
theorem invariant_exit {executor : MtExecutor ω} (invariant : Invariant executor) {worker : Nat}
    (waits : executor.workers worker = .waiting) :
    Invariant { executor with workers := executor.setWorker worker .exited } := by
  constructor
  · exact invariant.fifo
  · exact invariant.tickets
  · change Custody (Worker.item ∘ executor.setWorker worker .exited) _ _
    have same : (Worker.exited : Worker ω).item = Worker.waiting.item := rfl
    rw [held_setWorker_of_item_eq waits same]
    exact invariant.custody
  · exact invariant.executed_nodup
  · exact invariant.executed_dequeued
  · intro other item isTook
    exact (invariant.took_not_executed_setWorker (by simp) isTook).2.2
  · exact invariant.absent_beyond_setWorker (by simp [waits])

/-- A worker begins to run the item it has taken. -/
theorem invariant_execute {executor : MtExecutor ω} (invariant : Invariant executor) {worker : Nat}
    {item : WorkItem ω} (took : executor.workers worker = .took item) :
    Invariant { executor with
      workers := executor.setWorker worker (.running item)
      executed := executor.executed ++ [item] } := by
  have holds : executor.held worker = some item := congrArg Worker.item took
  constructor
  · exact invariant.fifo
  · exact invariant.tickets
  · change Custody (Worker.item ∘ executor.setWorker worker (.running item)) _ _
    have same : (Worker.running item).item = (Worker.took item).item := rfl
    rw [held_setWorker_of_item_eq took same]
    exact invariant.custody
  · rw [List.nodup_append]
    refine ⟨invariant.executed_nodup, by simp, ?_⟩
    intro other executed found isItem same
    rw [same, List.mem_singleton.mp isItem] at executed
    exact invariant.took_not_executed took executed
  · intro other member
    rcases List.mem_append.mp member with executed | isItem
    · exact invariant.executed_dequeued other executed
    · rw [List.mem_singleton.mp isItem]
      exact invariant.custody.held_arrived holds
  · intro other taken isTook member
    rcases invariant.took_not_executed_setWorker (by simp) isTook with ⟨differs, before, fresh⟩
    rcases List.mem_append.mp member with executed | isItem
    · exact fresh executed
    · rw [List.mem_singleton.mp isItem] at before
      exact differs (invariant.custody.held_unique (congrArg Worker.item before) holds)
  · exact invariant.absent_beyond_setWorker (by simp [took])

/-- A worker goes back to the start of the loop. -/
theorem invariant_finish {executor : MtExecutor ω} (invariant : Invariant executor) {worker : Nat}
    {item : WorkItem ω} (runs : executor.workers worker = .running item) :
    Invariant { executor with
      workers := executor.setWorker worker .waiting
      finished := executor.finished ++ [item] } := by
  constructor
  · exact invariant.fifo
  · exact invariant.tickets
  · change Custody (Worker.item ∘ executor.setWorker worker .waiting) _ _
    rw [held_setWorker]
    exact invariant.custody.settle (congrArg Worker.item runs) (List.perm_append_singleton _ _)
  · exact invariant.executed_nodup
  · exact invariant.executed_dequeued
  · intro other taken isTook
    exact (invariant.took_not_executed_setWorker (by simp) isTook).2.2
  · exact invariant.absent_beyond_setWorker (by simp [runs])

/-- What each event does, and where. -/
theorem invariant_step {executor next : MtExecutor ω} {event : Event ω}
    (invariant : Invariant executor) (stepped : step executor event = some next) :
    Invariant next := by
  cases event with
  | startThreads nthreads =>
      cases stepped
      exact invariant_enter invariant _
  | run =>
      cases stepped
      exact invariant_enter invariant 1
  | post caller work =>
      simp only [step] at stepped
      split_ifs at stepped
      cases stepped
      exact invariant_post invariant work
  | dequeue worker =>
      simp only [step] at stepped
      split at stepped
      · rename_i waits
        split_ifs at stepped
        · cases stepped
          exact invariant_exit invariant waits
        · split at stepped
          · cases stepped
          · rename_i item work queue
            cases stepped
            exact invariant_take invariant waits queue
      · cases stepped
  | execute worker =>
      simp only [step] at stepped
      split at stepped
      · rename_i item took
        cases stepped
        exact invariant_execute invariant took
      · cases stepped
  | finish worker =>
      simp only [step] at stepped
      split at stepped
      · rename_i item runs
        cases stepped
        exact invariant_finish invariant runs
      · cases stepped
  | stop =>
      cases stepped
      exact ⟨invariant.fifo, invariant.tickets, invariant.custody, invariant.executed_nodup,
        invariant.executed_dequeued, invariant.took_not_executed, invariant.absent_beyond⟩

/-! ## Every interleaving -/

/-- The three places an item can be in. -/
inductive Place
  | queued
  | taken
  | finished
  deriving DecidableEq, Repr

end MtExecutor

end SkAsync

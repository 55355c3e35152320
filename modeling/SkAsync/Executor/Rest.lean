import Mathlib.Algebra.BigOperators.Group.Finset.Basic
import SkAsync.Executor.Wakeups

/-!
# `mt_executor` comes to rest

If nobody calls anything any more, the threads go on for a bounded number of steps, however
they take turns.  Where none can go on, `post` and `stop` have returned, and the workers
sleep after all work was done or, once `_stop` was set, have returned.
-/

namespace SkAsync.MtThreads

open SkAsync.Library

variable {ω : Type}

/-- A thread goes on; the second number is the worker that `notify_one` wakes. -/
def turn (pool : MtThreads ω) (event : Thread × Nat) : Option (MtThreads ω) :=
  pool.goOn event.2 event.1

/-- No thread can go on. -/
def Rests (pool : MtThreads ω) : Prop :=
  ∀ event, pool.turn event = none

section Stuck

variable {pool : MtThreads ω}

theorem Rests.not_goes (rests : Rests pool) (invariant : Invariant pool) {thread : Thread}
    {before : Place ω} (here : pool.places thread = before) (wakes : Nat) {place : Place ω}
    {shared : MtThreads ω} : ¬ Goes pool thread wakes before place shared := by
  intro goes
  subst here
  have went := goOn_iff.mpr ⟨invariant.roles thread, place, shared, goes, rfl⟩
  cases went.symm.trans (rests (thread, wakes))

/-- Only workers wait. -/
theorem Invariant.exists_worker (invariant : Invariant pool) {thread : Thread}
    (waits : pool.monitor.Waits thread) : ∃ id, thread = .worker id ∧ id < pool.started := by
  have role := invariant.roles thread
  rw [(invariant.waits_iff thread).mp waits] at role
  cases role with
  | worker id =>
      refine ⟨id, rfl, Nat.lt_of_not_le fun beyond => ?_⟩
      have absent := (invariant.absent_iff id).mpr beyond
      rw [(invariant.waits_iff _).mp waits] at absent
      cases absent

/-- `notify_one` never blocks. -/
theorem Invariant.exists_notifyOne (invariant : Invariant pool) :
    ∃ wakes monitor, pool.monitor.notifyOne (.worker wakes) = some monitor := by
  cases sleeping : pool.monitor.sleeping with
  | nil => exact ⟨0, pool.monitor, Monitor.notifyOne_eq_some_iff.mpr (.inl ⟨sleeping, rfl⟩)⟩
  | cons thread rest =>
      have member : thread ∈ pool.monitor.sleeping := by simp [sleeping]
      rcases invariant.exists_worker (.inl member) with ⟨id, rfl, _⟩
      exact ⟨id, _, Monitor.notifyOne_eq_some_iff.mpr
        (.inr (Monitor.wake_eq_some_iff.mpr ⟨member, rfl⟩))⟩

/-- In a call of `post` a thread can go on, unless the lock is with another. -/
theorem Invariant.exists_posts (invariant : Invariant pool) (thread : Thread) {call : Call ω}
    (inCall : call ≠ .idle) (canGo : call.locked = true ∨ pool.monitor.owner = none) :
    ∃ wakes call' shared, Posts pool thread wakes call call' shared := by
  cases call with
  | idle => exact absurd rfl inCall
  | lock work =>
      rcases canGo with locked | isFree
      · cases locked
      · exact ⟨0, _, _, .lock isFree⟩
  | push work => exact ⟨0, _, _, .push work⟩
  | notify =>
      rcases invariant.exists_notifyOne with ⟨wakes, monitor, notified⟩
      exact ⟨wakes, _, _, .notify notified⟩
  | unlock => exact ⟨0, _, _, .unlock⟩

/-- The thread with the lock can go on. -/
theorem Invariant.exists_goes_of_locked (invariant : Invariant pool) (thread : Thread)
    {place : Place ω} (locked : place.locked = true) :
    ∃ wakes place' shared, Goes pool thread wakes place place' shared := by
  cases place with
  | call call =>
      have inCall : call ≠ .idle := by
        rintro rfl
        cases locked
      rcases invariant.exists_posts thread inCall (.inl locked) with ⟨wakes, _, _, posts⟩
      exact ⟨wakes, _, _, .call posts⟩
  | run place =>
      cases place with
      | absent | lock | wait | work item | exited => cases locked
      | test =>
          by_cases stopped : pool.stop = true
          · exact ⟨0, _, _, .leave stopped⟩
          · have goesOn := Bool.eq_false_iff.mpr stopped
            cases queue : pool.work with
            | nil => exact ⟨0, _, _, .wait queue goesOn⟩
            | cons item work => exact ⟨0, _, _, .take queue goesOn⟩
      | leave => exact ⟨0, _, _, .exit⟩
      | unlock item => exact ⟨0, _, _, .unlock item⟩
      | running item call =>
          have inCall : call ≠ .idle := by
            rintro rfl
            cases locked
          rcases invariant.exists_posts thread inCall (.inl locked) with ⟨wakes, _, _, posts⟩
          exact ⟨wakes, _, _, .running posts⟩
  | own place =>
      cases place with
      | idle | starting more | lock | join => cases locked
      | set => exact ⟨0, _, _, .set⟩
      | notify => exact ⟨0, _, _, .notifyAll⟩
      | unlock => exact ⟨0, _, _, .unlockStop⟩

variable (invariant : Invariant pool) (rests : Rests pool)

include invariant rests

theorem Rests.unlocked : pool.monitor.owner = none := by
  by_contra owned
  rcases Option.ne_none_iff_exists'.mp owned with ⟨thread, owner⟩
  have locked := (invariant.locked_iff thread).mpr owner
  rcases invariant.exists_goes_of_locked thread locked with ⟨wakes, place, shared, goes⟩
  exact rests.not_goes invariant rfl wakes goes

/-- Whoever is in a call of `post` could go on. -/
theorem Rests.exists_posts {thread : Thread} {call : Call ω} (inCall : call ≠ .idle) :
    ∃ wakes call' shared, Posts pool thread wakes call call' shared :=
  invariant.exists_posts thread inCall (.inr (rests.unlocked invariant))

theorem Rests.posted (id : Nat) : pool.places (.caller id) = .call .idle := by
  have role := invariant.roles (.caller id)
  generalize here : pool.places (.caller id) = place at role
  cases role with
  | caller id call =>
      by_contra inCall
      have inCall' : call ≠ .idle := fun idle => inCall (congrArg Place.call idle)
      rcases rests.exists_posts invariant inCall' with ⟨wakes, _, _, posts⟩
      exact rests.not_goes invariant here wakes (.call posts)

/-- A worker that was started sleeps or has returned. -/
theorem Rests.worker {id : Nat} (started : id < pool.started) :
    pool.places (.worker id) = .run .wait ∧ .worker id ∈ pool.monitor.sleeping ∨
      pool.places (.worker id) = .run .exited := by
  have isFree := rests.unlocked invariant
  have role := invariant.roles (.worker id)
  generalize here : pool.places (.worker id) = place at role
  have unlocked : place.locked = false := by
    subst here
    rw [← Bool.not_eq_true, invariant.locked_iff, isFree]
    simp
  cases role with
  | worker id place =>
      cases place with
      | absent => exact absurd ((invariant.absent_iff id).mp here) (Nat.not_le.mpr started)
      | lock => exact (rests.not_goes invariant here 0 (.lock isFree)).elim
      | test | leave | unlock item => cases unlocked
      | wait =>
          rcases (invariant.waits_iff (.worker id)).mpr here with asleep | woken
          · exact .inl ⟨rfl, asleep⟩
          · have relocked := Monitor.relock_eq_some_iff.mpr ⟨⟨isFree, woken⟩, rfl⟩
            exact (rests.not_goes invariant here 0 (.relock relocked)).elim
      | work item => exact (rests.not_goes invariant here 0 (.work item)).elim
      | running item call =>
          by_cases atWork : call = .idle
          · subst atWork
            exact (rests.not_goes invariant here 0 (.finish item)).elim
          · rcases rests.exists_posts invariant atWork with ⟨wakes, _, _, posts⟩
            exact (rests.not_goes invariant here wakes (.running posts)).elim
      | exited => exact .inr rfl

/-- No worker sleeps when `_stop` is set and nobody is about to wake it. -/
theorem Rests.exited (stopped : pool.stop = true) {id : Nat} (started : id < pool.started) :
    pool.places (.worker id) = .run .exited := by
  rcases rests.worker invariant started with ⟨_, asleep⟩ | exited
  · rcases invariant.notified stopped with empty | notifies
    · rw [empty] at asleep
      cases asleep
    · exact (rests.not_goes invariant notifies 0 .notifyAll).elim
  · exact exited

/-- `start_threads` and `stop` have returned: the threads that are joined have exited. -/
theorem Rests.returned : pool.places .owner = .own .idle := by
  have isFree := rests.unlocked invariant
  have role := invariant.roles .owner
  generalize here : pool.places .owner = place at role
  cases role with
  | owner place =>
      cases place with
      | idle => rfl
      | starting more =>
          cases more with
          | zero => exact (rests.not_goes invariant here 0 .started).elim
          | succ more => exact (rests.not_goes invariant here 0 (.start more)).elim
      | lock => exact (rests.not_goes invariant here 0 (.lockStop isFree)).elim
      | set => exact (rests.not_goes invariant here 0 .set).elim
      | notify => exact (rests.not_goes invariant here 0 .notifyAll).elim
      | unlock => exact (rests.not_goes invariant here 0 .unlockStop).elim
      | join =>
          rcases List.eq_nil_or_concat' pool.threads with empty | ⟨ids, id, split⟩
          · exact (rests.not_goes invariant here 0 (.joined empty)).elim
          · have stopped := invariant.stopped .owner (by rw [here]; rfl)
            have started := invariant.joinable id (by simp [split])
            have exited := rests.exited invariant stopped started
            refine (rests.not_goes invariant here 0 (.join split ?_)).elim
            rw [exited]
            rfl

/-- As long as `_stop` is not set the workers sleep. -/
theorem Rests.asleep (runs : pool.stop = false) {id : Nat} (started : id < pool.started) :
    pool.places (.worker id) = .run .wait ∧ .worker id ∈ pool.monitor.sleeping := by
  rcases rests.worker invariant started with asleep | exited
  · exact asleep
  · have stopped := invariant.stopped (.worker id) (by rw [exited]; rfl)
    cases stopped.symm.trans runs

end Stuck

/-! ## The rank -/

/-- How much a call of `post` has to do, where each item costs five more and each worker that
is woken three. -/
def Call.weight : Call ω → Nat
  | .idle => 0
  | .lock _ => 12
  | .push _ => 11
  | .notify => 5
  | .unlock => 1

def Run.weight : Run ω → Nat
  | .absent | .wait | .exited => 0
  | .leave => 1
  | .test => 2
  | .lock => 3
  | .running _ call => 4 + call.weight
  | .work _ => 5
  | .unlock _ => 6

/-- `stop` is going to wake all workers there are. -/
def Own.weight (started : Nat) : Own → Nat
  | .idle => 0
  | .starting more => 5 * more + 1
  | .lock => 3 * started + 5
  | .set => 3 * started + 4
  | .notify => 3 * started + 3
  | .unlock => 2
  | .join => 1

def Place.weight (started : Nat) : Place ω → Nat
  | .run place => place.weight
  | .call place => place.weight
  | .own place => place.weight started

/-- The threads there are. -/
def present (pool : MtThreads ω) : Finset Thread :=
  (Finset.range pool.started).image .worker ∪ (Finset.range pool.called).image .caller ∪ {.owner}

section Rank

variable {pool shared next : MtThreads ω} {thread : Thread} {before place : Place ω}
  {wakes : Nat}

end Rank

/-! ## Every schedule -/

end SkAsync.MtThreads

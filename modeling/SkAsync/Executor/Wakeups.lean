import SkAsync.Executor.Threads

/-!
# No wake-up is lost

The invariant of `mt_executor` with its mutex and its condition variable.  The lock is with
the thread that is in a part of the code that has it, and as long as a worker sleeps there
are enough others for the work in the queue.
-/

namespace SkAsync.MtThreads

open SkAsync.Library

variable {ω : Type}

/-! ## The invariant -/

def Call.locked : Call ω → Bool
  | .idle | .lock _ => false
  | .push _ | .notify | .unlock => true

/-- A thread has the lock. -/
def Place.locked : Place ω → Bool
  | .call place => place.locked
  | .run (.running _ place) => place.locked
  | .run .test | .run .leave | .run (.unlock _) => true
  | .own .set | .own .notify | .own .unlock => true
  | _ => false

def Call.slack : Call ω → Nat
  | .notify => 1
  | _ => 0

/-- What a thread makes up for: it is going to look at the queue, or to notify. -/
def Place.slack : Place ω → Nat
  | .call place => place.slack
  | .run (.running _ place) => place.slack
  | .run .test => 1
  | _ => 0

/-- What the thread with the lock makes up for. -/
def slack (pool : MtThreads ω) : Nat :=
  pool.monitor.owner.elim 0 fun thread => (pool.places thread).slack

/-- A thread comes here only after `_stop` was set. -/
def Place.stopped : Place ω → Bool
  | .own .notify | .own .unlock | .own .join => true
  | .run .leave | .run .exited => true
  | _ => false

/-- The lock is with the thread that is in a part of the code that has it; those who wait are
in `wait`; and who sleeps does so for lack of work. -/
structure Invariant (pool : MtThreads ω) : Prop where
  roles : ∀ thread, Role thread (pool.places thread)
  locked_iff : ∀ thread, (pool.places thread).locked = true ↔ pool.monitor.owner = some thread
  once : pool.monitor.Once
  waits_iff : ∀ thread, pool.monitor.Waits thread ↔ pool.places thread = .run .wait
  absent_iff : ∀ id, pool.places (.worker id) = .run .absent ↔ pool.started ≤ id
  idle_beyond : ∀ id, pool.called ≤ id → pool.places (.caller id) = .call .idle
  joinable : ∀ id ∈ pool.threads, id < pool.started
  covered : pool.stop = false → pool.monitor.Covers pool.work.length pool.slack
  notified : pool.stop = true →
    pool.monitor.sleeping = [] ∨ pool.places .owner = .own .notify
  stopped : ∀ thread, (pool.places thread).stopped = true → pool.stop = true

theorem invariant_initial : Invariant (initial : MtThreads ω) := by
  constructor
  · rintro (id | id | _) <;> constructor
  · rintro (id | id | _) <;>
      simp [initial, Thread.outside, Monitor.free, Place.locked, Call.locked]
  · exact Monitor.once_free
  · rintro (id | id | _) <;> simp [initial, Thread.outside, Monitor.free, Monitor.Waits]
  · simp [initial, Thread.outside]
  · simp [initial, Thread.outside]
  · simp [initial]
  · exact fun _ => Monitor.covers_free
  · exact fun _ => .inl rfl
  · rintro (id | id | _) <;> simp [initial, Thread.outside, Place.stopped]

section Steps

variable {pool shared : MtThreads ω} {thread : Thread} {before place : Place ω} {wakes : Nat}

/-- A thread keeps its role. -/
theorem Role.goes (role : Role thread before)
    (goes : Goes pool thread wakes before place shared) : Role thread place := by
  cases role with
  | worker id before => cases goes <;> constructor
  | caller id before => cases goes; constructor
  | owner before => cases goes <;> constructor

/-- A step gets the lock, releases it, or does neither. -/
inductive Locks (thread : Thread) (before after : Bool) (owner owner' : Option Thread) : Prop
  | keep : after = before → owner' = owner → Locks thread before after owner owner'
  | acquire : before = false → after = true → owner = none → owner' = some thread →
      Locks thread before after owner owner'
  | release : before = true → after = false → owner' = none →
      Locks thread before after owner owner'

theorem Posts.locks {call call' : Call ω} (posts : Posts pool thread wakes call call' shared) :
    Locks thread call.locked call'.locked pool.monitor.owner shared.monitor.owner := by
  cases posts with
  | lock isFree => exact .acquire rfl rfl isFree rfl
  | push work => exact .keep rfl rfl
  | notify notified => exact .keep rfl (Monitor.notifyOne_owner notified)
  | unlock => exact .release rfl rfl rfl

theorem Goes.locks (goes : Goes pool thread wakes before place shared) :
    Locks thread before.locked place.locked pool.monitor.owner shared.monitor.owner := by
  cases goes with
  | call posts | running posts => exact posts.locks
  | lock isFree | lockStop isFree => exact .acquire rfl rfl isFree rfl
  | relock relocked =>
      rcases Monitor.relock_eq_some_iff.mp relocked with ⟨⟨isFree, _⟩, rfl⟩
      exact .acquire rfl rfl isFree rfl
  | wait empty goesOn | exit | unlock item | unlockStop => exact .release rfl rfl rfl
  | take queue goesOn | leave stopped | work item | finish item | started | start more | set
  | notifyAll | join split exited | joined empty => exact .keep rfl rfl

/-- Who has not got the lock makes up for nothing. -/
theorem Place.slack_eq_zero (unlocked : place.locked = false) : place.slack = 0 := by
  cases place with
  | run place =>
      cases place with
      | test => cases unlocked
      | running item call => cases call <;> first | rfl | cases unlocked
      | absent | lock | wait | leave | unlock item | work item | exited => rfl
  | call call => cases call <;> first | rfl | cases unlocked
  | own own => rfl

section Lock

variable {places : Thread → Place ω} {owner owner' : Option Thread}

theorem Locks.locked_iff
    (locks : Locks thread (places thread).locked place.locked owner owner')
    (locked_iff : ∀ other, (places other).locked = true ↔ owner = some other)
    (other : Thread) :
    (Function.update places thread place other).locked = true ↔ owner' = some other := by
  by_cases same : other = thread
  · subst same
    rw [Function.update_self]
    cases locks with
    | keep place_eq owner_eq => rw [place_eq, owner_eq, locked_iff]
    | acquire _ locked _ owner_eq => simp [locked, owner_eq]
    | release _ unlocked owner_eq => simp [unlocked, owner_eq]
  · rw [Function.update_of_ne same, locked_iff]
    cases locks with
    | keep _ owner_eq => rw [owner_eq]
    | acquire _ _ isFree owner_eq => simp [isFree, owner_eq, Ne.symm same]
    | release locked _ owner_eq =>
        rw [(locked_iff thread).mp locked, owner_eq]
        simp [Ne.symm same]

/-- What is made up for changes by what the thread itself makes up for. -/
theorem Locks.slack_eq
    (locks : Locks thread (places thread).locked place.locked owner owner')
    (locked_iff : ∀ other, (places other).locked = true ↔ owner = some other) :
    (owner'.elim 0 fun other => (Function.update places thread place other).slack) +
        (places thread).slack =
      (owner.elim 0 fun other => (places other).slack) + place.slack := by
  cases locks with
  | keep place_eq owner_eq =>
      subst owner_eq
      by_cases owns : owner' = some thread
      · simp [owns, Nat.add_comm]
      · have unlocked : (places thread).locked = false :=
          Bool.eq_false_iff.mpr fun locked => owns ((locked_iff thread).mp locked)
        rw [Place.slack_eq_zero unlocked, Place.slack_eq_zero (place_eq.trans unlocked)]
        cases owner' with
        | none => rfl
        | some other =>
            have differs : other ≠ thread := fun same => owns (congrArg some same)
            simp [differs]
  | acquire unlocked _ isFree owner_eq =>
      simp [isFree, owner_eq, Place.slack_eq_zero unlocked]
  | release locked unlocked owner_eq =>
      simp [owner_eq, (locked_iff thread).mp locked, Place.slack_eq_zero unlocked]

end Lock

theorem Posts.waits_iff {call call' : Call ω} (posts : Posts pool thread wakes call call' shared)
    (other : Thread) : shared.monitor.Waits other ↔ pool.monitor.Waits other := by
  cases posts with
  | lock isFree | push work | unlock => exact Iff.rfl
  | notify notified => exact Monitor.waits_iff_of_perm (Monitor.notifyOne_perm notified)

theorem Posts.once {call call' : Call ω} (posts : Posts pool thread wakes call call' shared)
    (once : pool.monitor.Once) : shared.monitor.Once := by
  cases posts with
  | lock isFree | push work | unlock => exact once
  | notify notified => exact once.of_perm (Monitor.notifyOne_perm notified)

theorem Goes.once (goes : Goes pool thread wakes before place shared)
    (waits_iff : pool.monitor.Waits thread ↔ before = .run .wait)
    (once : pool.monitor.Once) : shared.monitor.Once := by
  cases goes with
  | call posts | running posts => exact posts.once once
  | wait empty goesOn => exact once.wait (by simp [waits_iff])
  | relock relocked => exact once.relock relocked
  | notifyAll => exact once
  | lock isFree | take queue goesOn | leave stopped | exit | unlock item | work item
  | finish item | started | start more | lockStop isFree | set | unlockStop | join split exited
  | joined empty => exact once

/-- Those who wait are in `wait`, also after a step that is not one of theirs. -/
theorem waits_iff_update {monitor : Monitor Thread} {places : Thread → Place ω}
    (waits_iff : ∀ other, monitor.Waits other ↔ places other = .run .wait)
    (notBefore : places thread ≠ .run .wait) (notAfter : place ≠ .run .wait) (other : Thread) :
    monitor.Waits other ↔ Function.update places thread place other = .run .wait := by
  rw [waits_iff]
  by_cases same : other = thread
  · subst same
    simp [notBefore, notAfter]
  · simp [same]

theorem Goes.waits_iff (goes : Goes pool thread wakes before place shared)
    (here : pool.places thread = before) (once : pool.monitor.Once)
    (waits_iff : ∀ other, pool.monitor.Waits other ↔ pool.places other = .run .wait)
    (other : Thread) :
    shared.monitor.Waits other ↔
      Function.update pool.places thread place other = .run .wait := by
  subst here
  generalize here : pool.places thread = before at goes
  cases goes with
  | call posts | running posts =>
      rw [posts.waits_iff]
      exact waits_iff_update waits_iff (by simp [here]) (by simp) other
  | wait empty goesOn =>
      rw [setMonitor, Monitor.waits_wait_iff, waits_iff]
      by_cases same : other = thread
      · simp [same]
      · simp [same]
  | relock relocked =>
      rw [setMonitor, Monitor.waits_relock_iff once relocked, waits_iff]
      by_cases same : other = thread
      · simp [same]
      · simp [same]
  | notifyAll =>
      have same : pool.monitor.notifyAll.Waits other ↔ pool.monitor.Waits other := by
        simp [Monitor.Waits, Monitor.notifyAll]
      rw [setMonitor, same]
      exact waits_iff_update waits_iff (by simp [here]) (by simp) other
  | lock isFree | take queue goesOn | leave stopped | exit | unlock item | work item
  | finish item | started | start more | lockStop isFree | set | unlockStop | join split exited
  | joined empty => exact waits_iff_update waits_iff (by simp [here]) (by simp) other

/-- The work in the queue stays covered: who puts some there notifies before the lock is
released, and who gets the lock looks there. -/
theorem Posts.covered {call call' : Call ω} {slack slack' : Nat}
    (posts : Posts pool thread wakes call call' shared)
    (sum : slack' + call.slack = slack + call'.slack)
    (covered : pool.monitor.Covers pool.work.length slack) :
    shared.monitor.Covers shared.work.length slack' := by
  cases posts with
  | lock isFree | unlock =>
      have slack_eq : slack' = slack := sum
      subst slack_eq
      exact covered
  | push work =>
      apply covered.mono
      simp only [Call.slack] at sum
      simp only [pushBack, List.length_append, List.length_singleton]
      omega
  | notify notified =>
      have slack_eq : slack = slack' + 1 := sum.symm
      subst slack_eq
      exact covered.notifyOne notified

theorem Goes.covered {slack slack' : Nat}
    (goes : Goes pool thread wakes before place shared)
    (sum : slack' + before.slack = slack + place.slack)
    (covered : pool.stop = false → pool.monitor.Covers pool.work.length slack) :
    shared.stop = false → shared.monitor.Covers shared.work.length slack' := by
  intro runs
  cases goes with
  | call posts | running posts =>
      apply posts.covered sum
      cases posts <;> exact covered runs
  | wait empty goesOn =>
      have none_left : pool.work.length = 0 := by simp [empty]
      rw [setMonitor, none_left]
      exact Monitor.covers_wait
  | relock relocked =>
      have slack_eq : slack' = slack + 1 := sum
      subst slack_eq
      exact (covered runs).relock relocked
  | take queue goesOn =>
      have slack_eq : slack' + 1 = slack := sum
      have before := covered runs
      rw [queue, List.length_cons] at before
      exact before.mono (by dsimp only; omega)
  | leave stopped => simp [stopped] at runs
  | set => cases runs
  | notifyAll => exact Monitor.covers_notifyAll
  | lock isFree =>
      have slack_eq : slack' = slack + 1 := sum
      exact Monitor.Covers.mono (covered runs) (by dsimp only [setMonitor]; omega)
  | exit | unlock item | work item | finish item | started | start more | lockStop isFree
  | unlockStop | join split exited | joined empty =>
      have slack_eq : slack' = slack := sum
      subst slack_eq
      exact covered runs

/-- Who sleeps although `_stop` is set is about to be woken, also after a step that is not
`notify_all`. -/
theorem notified_update {sleeping sleeping' : List Thread} {places : Thread → Place ω}
    (notified : sleeping = [] ∨ places .owner = .own .notify)
    (empty : sleeping = [] → sleeping' = []) (notHere : places thread ≠ .own .notify) :
    sleeping' = [] ∨ Function.update places thread place .owner = .own .notify := by
  apply notified.imp empty
  intro atNotify
  have differs : Thread.owner ≠ thread := by
    rintro rfl
    exact notHere atNotify
  rw [Function.update_of_ne differs, atNotify]

theorem Goes.notified (goes : Goes pool thread wakes before place shared)
    (role : Role thread before) (here : pool.places thread = before)
    (notified : pool.stop = true →
      pool.monitor.sleeping = [] ∨ pool.places .owner = .own .notify) :
    shared.stop = true →
      shared.monitor.sleeping = [] ∨
        Function.update pool.places thread place .owner = .own .notify := by
  intro stopped
  cases goes with
  | call posts | running posts =>
      cases posts with
      | notify woke =>
          apply notified_update (notified stopped) _ (by simp [here])
          exact Monitor.notifyOne_sleeping_eq_nil woke
      | lock isFree | push work | unlock =>
          exact notified_update (notified stopped) id (by simp [here])
  | wait empty goesOn => cases goesOn.symm.trans stopped
  | relock relocked =>
      rcases Monitor.relock_eq_some_iff.mp relocked with ⟨_, rfl⟩
      exact notified_update (notified stopped) id (by simp [here])
  | set =>
      cases role
      exact .inr (Function.update_self _ _ _)
  | notifyAll => exact .inl rfl
  | lock isFree | take queue goesOn | leave stopped | exit | unlock item | work item
  | finish item | started | start more | lockStop isFree | unlockStop | join split exited
  | joined empty => exact notified_update (notified stopped) id (by simp [here])

/-- `_stop` is never reset. -/
theorem Goes.stop (goes : Goes pool thread wakes before place shared)
    (stopped : pool.stop = true) : shared.stop = true := by
  cases goes with
  | call posts | running posts => cases posts <;> exact stopped
  | set => rfl
  | lock isFree | wait empty goesOn | relock relocked | take queue goesOn | leave stopped | exit
  | unlock item | work item | finish item | started | start more | lockStop isFree | notifyAll
  | unlockStop | join split exited | joined empty => exact stopped

theorem Goes.stopped (goes : Goes pool thread wakes before place shared)
    (stopped : place.stopped = true) : before.stopped = true ∨ shared.stop = true := by
  cases goes with
  | set => exact .inr rfl
  | leave isStopped => exact .inr isStopped
  | exit | notifyAll | unlockStop | join split exited => exact .inl rfl
  | call posts | running posts | lock isFree | wait empty goesOn | relock relocked
  | take queue goesOn | unlock item | work item | finish item | started | start more
  | lockStop isFree | joined empty => cases stopped

/-- A thread that goes on is there, and stays there. -/
theorem Goes.present (goes : Goes pool thread wakes before place shared) :
    before ≠ .run .absent ∧ place ≠ .run .absent ∧ before ≠ .call .idle := by
  cases goes with
  | call posts => cases posts <;> simp
  | running posts | lock isFree | wait empty goesOn | relock relocked | take queue goesOn
  | leave stopped | exit | unlock item | work item | finish item | started | start more
  | lockStop isFree | set | notifyAll | unlockStop | join split exited | joined empty => simp

/-- Only the loop of `start_threads` changes the place of another thread. -/
theorem Goes.keeps (goes : Goes pool thread wakes before place shared)
    (notStart : ∀ more, before ≠ .own (.starting (more + 1))) :
    shared.places = pool.places ∧ shared.started = pool.started ∧
      shared.called = pool.called ∧ ∀ id ∈ shared.threads, id ∈ pool.threads := by
  cases goes with
  | call posts | running posts => cases posts <;> exact ⟨rfl, rfl, rfl, fun _ => id⟩
  | start more => exact absurd rfl (notStart more)
  | join split exited =>
      refine ⟨rfl, rfl, rfl, fun id member => ?_⟩
      rw [split]
      exact List.mem_append_left _ member
  | lock isFree | wait empty goesOn | relock relocked | take queue goesOn | leave stopped | exit
  | unlock item | work item | finish item | started | lockStop isFree | set | notifyAll
  | unlockStop | joined empty => exact ⟨rfl, rfl, rfl, fun _ => id⟩

end Steps

/-! ## Every step -/

/-- A thread here has nothing to do with the monitor: it has not got the lock, it does not
wait, and it does not know of `_stop`. -/
def Place.quiet : Place ω → Bool
  | .run .absent | .run .lock => true
  | .run (.running _ .idle) | .run (.running _ (.lock _)) => true
  | .call .idle | .call (.lock _) => true
  | .own .idle | .own (.starting _) | .own .lock => true
  | _ => false

theorem Place.quiet_cases {place : Place ω} (quiet : place.quiet = true) :
    place.locked = false ∧ place ≠ .run .wait ∧ place ≠ .own .notify ∧ place.stopped = false := by
  unfold Place.quiet at quiet
  split at quiet <;> first
    | exact ⟨rfl, by simp, by simp, rfl⟩
    | cases quiet

section Step

variable {pool shared next : MtThreads ω} {thread : Thread} {place before : Place ω}
  {wakes : Nat}

theorem roles_update {places : Thread → Place ω} (roles : ∀ other, Role other (places other))
    (role : Role thread place) (other : Thread) :
    Role other (Function.update places thread place other) := by
  by_cases same : other = thread
  · subst same
    simpa using role
  · simpa [same] using roles other

/-- A thread goes on from one place to another, and both have nothing to do with the
monitor. -/
theorem Invariant.quiet (invariant : Invariant pool) {threads : List Nat} {started called : Nat}
    (role : Role thread place) (was : (pool.places thread).quiet = true)
    (is : place.quiet = true)
    (absent_iff : ∀ id, Function.update pool.places thread place (.worker id) = .run .absent ↔
      started ≤ id)
    (idle_beyond : ∀ id, called ≤ id →
      Function.update pool.places thread place (.caller id) = .call .idle)
    (joinable : ∀ id ∈ threads, id < started) :
    Invariant ({ pool with
      threads := threads
      started := started
      called := called }.setPlace thread place) := by
  rcases Place.quiet_cases was with ⟨unlocked, notWaits, notNotifies, notStopped⟩
  rcases Place.quiet_cases is with ⟨unlocked', notWaits', _, notStopped'⟩
  have locks : Locks thread (pool.places thread).locked place.locked pool.monitor.owner
      pool.monitor.owner := .keep (unlocked'.trans unlocked.symm) rfl
  constructor
  · exact roles_update invariant.roles role
  · exact locks.locked_iff invariant.locked_iff
  · exact invariant.once
  · exact waits_iff_update invariant.waits_iff notWaits notWaits'
  · exact absent_iff
  · exact idle_beyond
  · exact joinable
  · intro runs
    have sum := locks.slack_eq invariant.locked_iff
    rw [Place.slack_eq_zero unlocked, Place.slack_eq_zero unlocked'] at sum
    exact (invariant.covered runs).mono (Nat.add_left_cancel_iff.mpr sum.symm).le
  · exact fun stopped => notified_update (invariant.notified stopped) id notNotifies
  · intro other stopped
    simp only [setPlace] at stopped
    by_cases same : other = thread
    · subst same
      simp [notStopped'] at stopped
    · rw [Function.update_of_ne same] at stopped
      exact invariant.stopped other stopped

/-- A thread that is there and stays there. -/
theorem absent_iff_update {places : Thread → Place ω} {started : Nat}
    (absent_iff : ∀ id, places (.worker id) = .run .absent ↔ started ≤ id)
    (before : places thread ≠ .run .absent) (after : place ≠ .run .absent) (id : Nat) :
    Function.update places thread place (.worker id) = .run .absent ↔ started ≤ id := by
  rw [← absent_iff id]
  by_cases same : Thread.worker id = thread
  · subst same
    simp [before, after]
  · simp [same]

theorem idle_beyond_update {places : Thread → Place ω} {called : Nat}
    (idle_beyond : ∀ id, called ≤ id → places (.caller id) = .call .idle)
    (before : places thread ≠ .call .idle) (id : Nat) (beyond : called ≤ id) :
    Function.update places thread place (.caller id) = .call .idle := by
  have differs : Thread.caller id ≠ thread := by
    rintro rfl
    exact before (idle_beyond id beyond)
  rw [Function.update_of_ne differs, idle_beyond id beyond]

/-- A new worker is at the start of `run`. -/
theorem Invariant.enter (invariant : Invariant pool) {threads : List Nat}
    (joinable : ∀ id ∈ threads, id < pool.started + 1) :
    Invariant ({ pool with
      threads := threads
      started := pool.started + 1 }.setPlace (.worker pool.started) (.run .lock)) := by
  have absent := (invariant.absent_iff pool.started).mpr le_rfl
  apply invariant.quiet (.worker _ _) _ rfl _ _ joinable
  · rw [absent]
    rfl
  · intro id
    by_cases same : id = pool.started
    · subst same
      simp
    · rw [Function.update_of_ne (by simp [same]), invariant.absent_iff]
      omega
  · intro id beyond
    rw [Function.update_of_ne (by simp), invariant.idle_beyond id beyond]

theorem Invariant.goes (invariant : Invariant pool) (role : Role thread before)
    (here : pool.places thread = before)
    (goes : Goes pool thread wakes before place shared) :
    Invariant (shared.setPlace thread place) := by
  by_cases starts : ∃ more, before = .own (.starting (more + 1))
  · rcases starts with ⟨more, rfl⟩
    cases role
    cases goes
    have joinable : ∀ id ∈ pool.threads ++ [pool.started], id < pool.started + 1 := by
      intro id member
      rcases List.mem_append.mp member with old | new
      · exact Nat.lt_succ_of_lt (invariant.joinable id old)
      · rw [List.mem_singleton.mp new]
        exact Nat.lt_succ_self _
    have entered := invariant.enter joinable
    have here' : ({ pool with
        threads := pool.threads ++ [pool.started]
        started := pool.started + 1 }.setPlace (.worker pool.started) (.run .lock)).places .owner =
          .own (.starting (more + 1)) := by simp [setPlace, here]
    apply entered.quiet (.owner _) _ rfl _ _ entered.joinable
    · rw [here']
      rfl
    · exact absent_iff_update entered.absent_iff (by simp [here']) (by simp)
    · exact idle_beyond_update entered.idle_beyond (by simp [here'])
  · rcases goes.keeps (fun more same => starts ⟨more, same⟩) with
      ⟨places_eq, started_eq, called_eq, threads_sub⟩
    rcases goes.present with ⟨present, present', notIdle⟩
    subst here
    constructor
    · rw [setPlace, places_eq]
      exact roles_update invariant.roles (role.goes goes)
    · rw [setPlace, places_eq]
      exact goes.locks.locked_iff invariant.locked_iff
    · exact goes.once (invariant.waits_iff thread) invariant.once
    · rw [setPlace, places_eq]
      exact goes.waits_iff rfl invariant.once invariant.waits_iff
    · rw [setPlace, places_eq, started_eq]
      exact absent_iff_update invariant.absent_iff present present'
    · rw [setPlace, places_eq, called_eq]
      exact idle_beyond_update invariant.idle_beyond notIdle
    · intro id member
      exact started_eq ▸ invariant.joinable id (threads_sub id member)
    · apply goes.covered _ invariant.covered
      rw [slack, setPlace, places_eq]
      exact goes.locks.slack_eq invariant.locked_iff
    · rw [setPlace, places_eq]
      exact goes.notified role rfl invariant.notified
    · intro other stopped
      rw [setPlace, places_eq] at stopped
      simp only at stopped
      by_cases same : other = thread
      · subst same
        rw [Function.update_self] at stopped
        exact (goes.stopped stopped).elim (fun was => goes.stop (invariant.stopped _ was)) id
      · rw [Function.update_of_ne same] at stopped
        exact goes.stop (invariant.stopped other stopped)

/-- The invariant is kept by every step of every thread. -/
theorem invariant_step {event : Event ω} (invariant : Invariant pool)
    (stepped : step pool event = some next) : Invariant next := by
  cases event with
  | goOn thread wakes =>
      rcases goOn_iff.mp stepped with ⟨role, place, shared, goes, rfl⟩
      exact invariant.goes role rfl goes
  | wake id =>
      rcases Option.map_eq_some_iff.mp stepped with ⟨monitor, woke, rfl⟩
      have owner_eq : monitor.owner = pool.monitor.owner := Monitor.wake_owner woke
      constructor
      · exact invariant.roles
      · intro thread
        rw [setMonitor, owner_eq]
        exact invariant.locked_iff thread
      · exact invariant.once.of_perm (Monitor.wake_perm woke)
      · intro thread
        rw [setMonitor, Monitor.waits_iff_of_perm (Monitor.wake_perm woke)]
        exact invariant.waits_iff thread
      · exact invariant.absent_iff
      · exact invariant.idle_beyond
      · exact invariant.joinable
      · intro runs
        rw [slack, setMonitor, owner_eq]
        exact (invariant.covered runs).wake woke
      · exact fun stopped => (invariant.notified stopped).imp_left
          (Monitor.wake_sleeping_eq_nil woke)
      · exact invariant.stopped
  | post worker work =>
      cases worker with
      | none =>
          cases stepped
          have idle := invariant.idle_beyond pool.called le_rfl
          apply invariant.quiet (.caller _ _) _ rfl _ _ invariant.joinable
          · rw [idle]
            rfl
          · exact absent_iff_update invariant.absent_iff (by simp [idle]) (by simp)
          · intro id beyond
            rw [Function.update_of_ne (by simp; omega)]
            exact invariant.idle_beyond id (Nat.le_of_succ_le beyond)
      | some id =>
          simp only [step] at stepped
          split at stepped
          · rename_i item here
            cases stepped
            apply invariant.quiet (.worker _ _) _ rfl _ _ invariant.joinable
            · rw [here]
              rfl
            · exact absent_iff_update invariant.absent_iff (by simp [here]) (by simp)
            · exact idle_beyond_update invariant.idle_beyond (by simp [here])
          · cases stepped
  | run =>
      cases stepped
      exact invariant.enter fun id member => Nat.lt_succ_of_lt (invariant.joinable id member)
  | startThreads nthreads | stop =>
      simp only [step] at stepped
      split at stepped
      · rename_i here
        cases stepped
        apply invariant.quiet (.owner _) _ rfl _ _ invariant.joinable
        · rw [here]
          rfl
        · exact absent_iff_update invariant.absent_iff (by simp [here]) (by simp)
        · exact idle_beyond_update invariant.idle_beyond (by simp [here])
      · cases stepped

/-- The queue and the flag are changed with the lock only. -/
theorem Posts.guarded {call call' : Call ω} (posts : Posts pool thread wakes call call' shared) :
    shared.stop = pool.stop ∧ (shared.work = pool.work ∨ call.locked = true) := by
  cases posts with
  | lock isFree | notify notified | unlock => exact ⟨rfl, .inl rfl⟩
  | push work => exact ⟨rfl, .inr rfl⟩

theorem Goes.guarded (goes : Goes pool thread wakes before place shared) :
    shared.work = pool.work ∧ shared.stop = pool.stop ∨ before.locked = true := by
  cases goes with
  | call posts | running posts =>
      rcases posts.guarded with ⟨stop_eq, work_eq | locked⟩
      · exact .inl ⟨work_eq, stop_eq⟩
      · exact .inr locked
  | take queue goesOn | set => exact .inr rfl
  | lock isFree | wait empty goesOn | relock relocked | leave stopped | exit | unlock item
  | work item | finish item | started | start more | lockStop isFree | notifyAll | unlockStop
  | join split exited | joined empty => exact .inl ⟨rfl, rfl⟩

theorem Invariant.guarded (invariant : Invariant pool) {event : Event ω}
    (stepped : step pool event = some next) :
    next.work = pool.work ∧ next.stop = pool.stop ∨
      ∃ thread wakes, event = .goOn thread wakes ∧ pool.monitor.owner = some thread := by
  cases event with
  | goOn thread wakes =>
      rcases goOn_iff.mp stepped with ⟨role, place, shared, goes, rfl⟩
      exact goes.guarded.imp id fun locked =>
        ⟨thread, wakes, rfl, (invariant.locked_iff thread).mp locked⟩
  | wake id =>
      rcases Option.map_eq_some_iff.mp stepped with ⟨monitor, woke, rfl⟩
      exact .inl ⟨rfl, rfl⟩
  | post worker work =>
      cases worker with
      | none =>
          cases stepped
          exact .inl ⟨rfl, rfl⟩
      | some id =>
          simp only [step] at stepped
          split at stepped
          · cases stepped
            exact .inl ⟨rfl, rfl⟩
          · cases stepped
  | run =>
      cases stepped
      exact .inl ⟨rfl, rfl⟩
  | startThreads nthreads | stop =>
      simp only [step] at stepped
      split at stepped
      · cases stepped
        exact .inl ⟨rfl, rfl⟩
      · cases stepped

end Step

end SkAsync.MtThreads

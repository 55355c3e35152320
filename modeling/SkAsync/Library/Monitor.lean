import Mathlib.Data.List.Nodup
import Mathlib.Tactic.Common

/-!
# Monitors

A mutex and a condition variable.  A thread that waits gives up the lock and sleeps until
it is notified, or wakes by itself; then it has to get the lock back before it goes on, and
others may come before it.

`Covers` is why no wake-up is lost: as long as a thread sleeps, enough others are awake for
all that there is to do.  The slack is what the thread with the lock makes up for: it has
not looked yet whether there is something to do, or it has not notified yet.
-/

namespace SkAsync.Library

universe u

/-- Who has the lock, who sleeps, and who has been woken and has not got the lock back. -/
structure Monitor (ι : Type u) where
  owner : Option ι
  sleeping : List ι
  woken : List ι

namespace Monitor

variable {ι : Type u}

/-- Nobody has the lock, and nobody waits. -/
def free : Monitor ι :=
  ⟨none, [], []⟩

/-- A thread gets the lock, if it is free. -/
def lock (monitor : Monitor ι) (thread : ι) : Option (Monitor ι) :=
  if monitor.owner = none then some { monitor with owner := some thread } else none

/-- The lock is released. -/
def unlock (monitor : Monitor ι) : Monitor ι :=
  { monitor with owner := none }

/-- The thread with the lock releases it and sleeps. -/
def wait (monitor : Monitor ι) (thread : ι) : Monitor ι :=
  { owner := none
    sleeping := thread :: monitor.sleeping
    woken := monitor.woken }

/-- All threads are woken. -/
def notifyAll (monitor : Monitor ι) : Monitor ι :=
  { monitor with
    sleeping := []
    woken := monitor.sleeping ++ monitor.woken }

variable [DecidableEq ι]

/-- A sleeping thread wakes. -/
def wake (monitor : Monitor ι) (thread : ι) : Option (Monitor ι) :=
  if thread ∈ monitor.sleeping then
    some { monitor with
      sleeping := monitor.sleeping.erase thread
      woken := thread :: monitor.woken }
  else none

/-- One thread is woken, if any sleeps; it is not said which. -/
def notifyOne (monitor : Monitor ι) (thread : ι) : Option (Monitor ι) :=
  if monitor.sleeping.isEmpty then some monitor else monitor.wake thread

/-- A thread that was woken gets the lock back, if it is free. -/
def relock (monitor : Monitor ι) (thread : ι) : Option (Monitor ι) :=
  if monitor.owner = none ∧ thread ∈ monitor.woken then
    some { monitor with
      owner := some thread
      woken := monitor.woken.erase thread }
  else none

/-! ## What the operations do -/

variable {monitor next : Monitor ι} {thread : ι}

omit [DecidableEq ι] in
theorem lock_eq_some_iff :
    monitor.lock thread = some next ↔
      monitor.owner = none ∧ next = { monitor with owner := some thread } := by
  unfold lock
  split_ifs with isFree
  · simp [isFree, eq_comm]
  · simp [isFree]

theorem wake_eq_some_iff :
    monitor.wake thread = some next ↔
      thread ∈ monitor.sleeping ∧ next = { monitor with
        sleeping := monitor.sleeping.erase thread
        woken := thread :: monitor.woken } := by
  simp [wake, eq_comm]

theorem notifyOne_eq_some_iff :
    monitor.notifyOne thread = some next ↔
      monitor.sleeping = [] ∧ next = monitor ∨ monitor.wake thread = some next := by
  unfold notifyOne
  cases sleeping : monitor.sleeping with
  | nil => simp [wake, sleeping, eq_comm]
  | cons first rest => simp

theorem relock_eq_some_iff :
    monitor.relock thread = some next ↔
      (monitor.owner = none ∧ thread ∈ monitor.woken) ∧ next = { monitor with
        owner := some thread
        woken := monitor.woken.erase thread } := by
  unfold relock
  split_ifs with can
  · simp [can, eq_comm]
  · simp [can]

theorem wake_owner (woke : monitor.wake thread = some next) : next.owner = monitor.owner := by
  rcases wake_eq_some_iff.mp woke with ⟨_, rfl⟩
  rfl

theorem notifyOne_owner (notified : monitor.notifyOne thread = some next) :
    next.owner = monitor.owner := by
  rcases notifyOne_eq_some_iff.mp notified with ⟨_, rfl⟩ | woke
  · rfl
  · exact wake_owner woke

theorem wake_sleeping_eq_nil (woke : monitor.wake thread = some next)
    (empty : monitor.sleeping = []) : next.sleeping = [] := by
  rcases wake_eq_some_iff.mp woke with ⟨member, _⟩
  rw [empty] at member
  cases member

theorem notifyOne_sleeping_eq_nil (notified : monitor.notifyOne thread = some next)
    (empty : monitor.sleeping = []) : next.sleeping = [] := by
  rcases notifyOne_eq_some_iff.mp notified with ⟨_, rfl⟩ | woke
  · exact empty
  · exact wake_sleeping_eq_nil woke empty

/-! ## Who waits -/

/-- A thread waits, asleep or woken. -/
def Waits (monitor : Monitor ι) (thread : ι) : Prop :=
  thread ∈ monitor.sleeping ∨ thread ∈ monitor.woken

/-- No thread waits twice. -/
def Once (monitor : Monitor ι) : Prop :=
  (monitor.sleeping ++ monitor.woken).Nodup

omit [DecidableEq ι] in
theorem once_free : (free : Monitor ι).Once :=
  List.nodup_nil

omit [DecidableEq ι] in
theorem Once.wait (once : monitor.Once) (awake : ¬ monitor.Waits thread) :
    (monitor.wait thread).Once := by
  apply List.nodup_cons.mpr
  exact ⟨fun member => awake (List.mem_append.mp member), once⟩

omit [DecidableEq ι] in
theorem waits_wait_iff {other : ι} :
    (monitor.wait thread).Waits other ↔ other = thread ∨ monitor.Waits other := by
  simp [Waits, Monitor.wait, or_assoc]

/-- Those who wake still wait, for the lock. -/
theorem wake_perm (woke : monitor.wake thread = some next) :
    (next.sleeping ++ next.woken).Perm (monitor.sleeping ++ monitor.woken) := by
  rcases wake_eq_some_iff.mp woke with ⟨member, rfl⟩
  exact List.perm_middle.trans ((List.perm_cons_erase member).symm.append_right _)

theorem notifyOne_perm (notified : monitor.notifyOne thread = some next) :
    (next.sleeping ++ next.woken).Perm (monitor.sleeping ++ monitor.woken) := by
  rcases notifyOne_eq_some_iff.mp notified with ⟨_, rfl⟩ | woke
  · exact List.Perm.refl _
  · exact wake_perm woke

omit [DecidableEq ι] in
theorem Once.of_perm (once : monitor.Once)
    (perm : (next.sleeping ++ next.woken).Perm (monitor.sleeping ++ monitor.woken)) :
    next.Once :=
  perm.nodup_iff.mpr once

omit [DecidableEq ι] in
theorem waits_iff_of_perm
    (perm : (next.sleeping ++ next.woken).Perm (monitor.sleeping ++ monitor.woken)) {other : ι} :
    next.Waits other ↔ monitor.Waits other := by
  rw [Waits, Waits, ← List.mem_append, ← List.mem_append, perm.mem_iff]

theorem Once.relock (once : monitor.Once) (relocked : monitor.relock thread = some next) :
    next.Once := by
  rcases relock_eq_some_iff.mp relocked with ⟨_, rfl⟩
  exact once.sublist ((List.Sublist.refl _).append List.erase_sublist)

/-- Who has the lock back does not wait any more. -/
theorem waits_relock_iff (once : monitor.Once) (relocked : monitor.relock thread = some next)
    {other : ι} : next.Waits other ↔ other ≠ thread ∧ monitor.Waits other := by
  rcases relock_eq_some_iff.mp relocked with ⟨⟨_, woken⟩, rfl⟩
  rcases List.nodup_append.mp once with ⟨_, nodup, apart⟩
  simp only [Waits, nodup.mem_erase_iff]
  constructor
  · rintro (asleep | ⟨different, member⟩)
    · exact ⟨fun same => apart other asleep thread woken same, .inl asleep⟩
    · exact ⟨different, .inr member⟩
  · rintro ⟨different, asleep | member⟩
    · exact .inl asleep
    · exact .inr ⟨different, member⟩

/-! ## No lost wake-up -/

/-- If a thread sleeps, those who were woken and the thread with the lock are enough. -/
def Covers (monitor : Monitor ι) (demand slack : Nat) : Prop :=
  monitor.sleeping = [] ∨ demand ≤ monitor.woken.length + slack

variable {demand slack : Nat}

omit [DecidableEq ι] in
theorem covers_free : (free : Monitor ι).Covers demand slack :=
  .inl rfl

omit [DecidableEq ι] in
/-- The lock does not matter. -/
theorem covers_owner_iff {owner : Option ι} :
    Covers { monitor with owner := owner } demand slack ↔ monitor.Covers demand slack :=
  Iff.rfl

omit [DecidableEq ι] in
theorem Covers.mono {demand' slack' : Nat} (covers : monitor.Covers demand slack)
    (enough : demand' + slack ≤ demand + slack') : monitor.Covers demand' slack' :=
  covers.imp_right fun le => by omega

omit [DecidableEq ι] in
/-- Nobody sleeps while there is something to do. -/
theorem covers_wait : (monitor.wait thread).Covers 0 slack :=
  .inr (Nat.zero_le _)

omit [DecidableEq ι] in
theorem covers_notifyAll : monitor.notifyAll.Covers demand slack :=
  .inl rfl

theorem Covers.wake (covers : monitor.Covers demand slack)
    (woke : monitor.wake thread = some next) : next.Covers demand slack := by
  rcases wake_eq_some_iff.mp woke with ⟨member, rfl⟩
  rcases covers with empty | le
  · rw [empty] at member
    cases member
  · right
    rw [List.length_cons]
    omega

/-- The one who is notified makes up for what was to be made up for. -/
theorem Covers.notifyOne (covers : monitor.Covers demand (slack + 1))
    (notified : monitor.notifyOne thread = some next) : next.Covers demand slack := by
  rcases notifyOne_eq_some_iff.mp notified with ⟨empty, rfl⟩ | woke
  · exact .inl empty
  · rcases wake_eq_some_iff.mp woke with ⟨member, rfl⟩
    rcases covers with empty | le
    · rw [empty] at member
      cases member
    · right
      rw [List.length_cons]
      omega

/-- The one who gets the lock back is going to look. -/
theorem Covers.relock (covers : monitor.Covers demand slack)
    (relocked : monitor.relock thread = some next) : next.Covers demand (slack + 1) := by
  rcases relock_eq_some_iff.mp relocked with ⟨⟨_, member⟩, rfl⟩
  apply covers.imp_right
  intro le
  dsimp only
  rw [List.length_erase_of_mem member]
  omega

end Monitor

end SkAsync.Library

import SkAsync.Library.Heap
import Mathlib.Data.List.Nodup

/-!
# Logs of heap accesses

A log lists what was done to the cells of a heap, in that order.  `Recorded` is a
heap with the log since an earlier heap, and carries the proof that every access
found its cell.  As a released cell is never found again, such a log says more
than its last heap: no cell is accessed after its release, and each is released
at most once.
-/

namespace SkAsync.Library

universe u

/-- An access to a cell. -/
inductive Access
  | read (address : Address)
  | write (address : Address)
  | release (address : Address)
  deriving DecidableEq, Repr

def Access.address : Access → Address
  | .read address => address
  | .write address => address
  | .release address => address

/-- The address that an access releases. -/
def Access.released : Access → Option Address
  | .release address => some address
  | _ => none

theorem Access.released_eq_some_iff {access : Access} {a : Address} :
    access.released = some a ↔ access = .release a := by
  cases access <;> simp [released]

/-- The cells that a log releases, in the order of their release. -/
def released (log : List Access) : List Address :=
  log.filterMap Access.released

theorem mem_released_iff {log : List Access} {a : Address} :
    a ∈ released log ↔ Access.release a ∈ log := by
  simp [released, Access.released_eq_some_iff]

/-- No cell is accessed after its release. -/
def OnlyLive (log : List Access) : Prop :=
  log.Pairwise fun earlier later => earlier ≠ .release later.address

/-- Without accesses after a release there is no second release. -/
theorem OnlyLive.nodup_released {log : List Access} (onlyLive : OnlyLive log) :
    (released log).Nodup := by
  apply List.Pairwise.filterMap Access.released _ onlyLive
  intro earlier later notReleased a isFirst b isSecond same
  subst same
  rw [Access.released_eq_some_iff] at isFirst isSecond
  subst isSecond
  exact notReleased isFirst

variable {α : Type u} {start heap : Heap α} {log : List Access}

/-- The accesses of a log lead from `start` to `heap`, and each of them found its cell. -/
inductive Reaches (start : Heap α) : List Access → Heap α → Prop
  | nothing : Reaches start [] start
  | read {log heap a cell} : Reaches start log heap → heap.read a = some cell →
      Reaches start (log ++ [.read a]) heap
  | write {log heap a cell} (new : α) : Reaches start log heap → heap.read a = some cell →
      Reaches start (log ++ [.write a]) (heap.write a new)
  | release {log heap a cell} : Reaches start log heap → heap.read a = some cell →
      Reaches start (log ++ [.release a]) (heap.release a)

/-- No access makes a cell. -/
theorem Reaches.absent (reaches : Reaches start log heap) {b : Address}
    (absent : start.read b = none) : heap.read b = none := by
  induction reaches with
  | nothing => exact absent
  | read _ _ ih => exact ih
  | write new _ live ih =>
      rw [Heap.read_write (Heap.lt_size_of_read live), if_neg]
      · exact ih
      · rintro rfl
        rw [ih] at live
        cases live
  | release _ _ ih =>
      rw [Heap.read_release, ih, ite_self]

/-- Exactly the cells that were there and are gone were released. -/
theorem Reaches.mem_released_iff (reaches : Reaches start log heap) {b : Address} :
    b ∈ released log ↔ start.read b ≠ none ∧ heap.read b = none := by
  simp only [Library.mem_released_iff]
  induction reaches with
  | nothing => simp
  | read _ _ ih => simp [ih]
  | write new before live ih =>
      rename_i heap a cell
      rw [Heap.read_write (Heap.lt_size_of_read live)]
      by_cases same : b = a
      · subst same
        rw [live] at ih
        simpa using ih
      · simp [ih, same]
  | release before live ih =>
      rename_i heap a cell
      rw [Heap.read_release]
      by_cases same : b = a
      · subst same
        have wasThere : start.read b ≠ none := by
          intro absent
          rw [before.absent absent] at live
          cases live
        simp [wasThere]
      · simp [ih, same]

/-- Another access may follow, if its cell is still there. -/
theorem Reaches.onlyLive_append {access : Access} {cell : α} (reaches : Reaches start log heap)
    (live : heap.read access.address = some cell) (onlyLive : OnlyLive log) :
    OnlyLive (log ++ [access]) := by
  have notReleased : ∀ earlier ∈ log, ∀ later ∈ [access], earlier ≠ .release later.address := by
    intro earlier member later isLast isRelease
    rw [List.mem_singleton.mp isLast] at isRelease
    rw [isRelease, ← Library.mem_released_iff, reaches.mem_released_iff, live] at member
    cases member.2
  exact List.pairwise_append.mpr ⟨onlyLive, List.pairwise_singleton _ _, notReleased⟩

/-- A cell that is accessed was not released before. -/
theorem Reaches.onlyLive (reaches : Reaches start log heap) : OnlyLive log := by
  induction reaches with
  | nothing => exact List.Pairwise.nil
  | read before live ih => exact before.onlyLive_append live ih
  | write _ before live ih => exact before.onlyLive_append live ih
  | release before live ih => exact before.onlyLive_append live ih

/-! ## Recorded heaps -/

/-- A heap and what was done to it since `start`. -/
structure Recorded (start : Heap α) where
  heap : Heap α
  log : List Access
  reaches : Reaches start log heap

namespace Recorded

/-- Nothing was done yet. -/
def new (start : Heap α) : Recorded start :=
  ⟨start, [], .nothing⟩

def read (state : Recorded start) (a : Address) : Option (α × Recorded start) :=
  match live : state.heap.read a with
  | none => none
  | some cell => some (cell, ⟨state.heap, state.log ++ [.read a], state.reaches.read live⟩)

/-- Write a part of a cell. -/
def modify (state : Recorded start) (a : Address) (change : α → α) : Option (Recorded start) :=
  match live : state.heap.read a with
  | none => none
  | some cell => some
      ⟨state.heap.write a (change cell), state.log ++ [.write a], state.reaches.write _ live⟩

def release (state : Recorded start) (a : Address) : Option (Recorded start) :=
  match live : state.heap.read a with
  | none => none
  | some _ => some
      ⟨state.heap.release a, state.log ++ [.release a], state.reaches.release live⟩

variable {state : Recorded start} {a : Address} {cell : α}

theorem read_eq (live : state.heap.read a = some cell) :
    ∃ next, state.read a = some (cell, next) ∧ next.heap = state.heap := by
  unfold read
  split
  · rename_i gone
    rw [live] at gone
    cases gone
  · rename_i cell' live'
    rw [live] at live'
    cases live'
    exact ⟨_, rfl, rfl⟩

theorem modify_eq (live : state.heap.read a = some cell) (change : α → α) :
    ∃ next, state.modify a change = some next ∧ next.heap = state.heap.write a (change cell) := by
  unfold modify
  split
  · rename_i gone
    rw [live] at gone
    cases gone
  · rename_i cell' live'
    rw [live] at live'
    cases live'
    exact ⟨_, rfl, rfl⟩

theorem release_eq (live : state.heap.read a = some cell) :
    ∃ next, state.release a = some next ∧ next.heap = state.heap.release a ∧
      next.log = state.log ++ [.release a] := by
  unfold release
  split
  · rename_i gone
    rw [live] at gone
    cases gone
  · exact ⟨_, rfl, rfl, rfl⟩

end Recorded

end SkAsync.Library

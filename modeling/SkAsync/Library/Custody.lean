import Mathlib.Data.List.Basic
import Mathlib.Data.List.Nodup
import Mathlib.Logic.Function.Basic
import Mathlib.Algebra.Order.Ring.Int

/-!
# Custody

Items arrive once, are held in places, are moved between them, and are settled in
the end.  The places hold at most one item each.  `Custody` says that no item is in
two places, none is settled twice or while it is held, and none is lost.  It is kept
by an arrival in an empty place, by a move to an empty place, and by settling what a
place holds.
-/

namespace SkAsync.Library

universe u v

variable {ι : Type u} {α : Type v}

/-- Every item that arrived is held in one place or was settled once. -/
structure Custody (held : ι → Option α) (arrived settled : List α) : Prop where
  settled_nodup : settled.Nodup
  held_not_settled : ∀ {place item}, held place = some item → item ∉ settled
  held_unique : ∀ {place other item}, held place = some item → held other = some item →
    place = other
  held_arrived : ∀ {place item}, held place = some item → item ∈ arrived
  settled_arrived : ∀ item ∈ settled, item ∈ arrived
  accounted : ∀ item ∈ arrived, item ∈ settled ∨ ∃ place, held place = some item

namespace Custody

variable {held : ι → Option α} {arrived settled : List α}

/-- Nothing has arrived. -/
theorem nothing : Custody (fun _ : ι => (none : Option α)) [] [] := by
  constructor
  · exact List.nodup_nil
  all_goals simp

variable [DecidableEq ι]

/-- What a place holds after one place was changed. -/
theorem update_eq_some_iff {place changed : ι} {value : Option α} {item : α} :
    Function.update held changed value place = some item ↔
      (place = changed ∧ value = some item) ∨ (place ≠ changed ∧ held place = some item) := by
  by_cases same : place = changed
  · subst same
    simp
  · simp [same]

/-- A new item arrives in a place that holds none. -/
theorem take (custody : Custody held arrived settled) {place : ι} {item : α} {arrived' : List α}
    (free : held place = none) (fresh : item ∉ arrived)
    (arrives : ∀ other, other ∈ arrived' ↔ other = item ∨ other ∈ arrived) :
    Custody (Function.update held place (some item)) arrived' settled := by
  constructor
  · exact custody.settled_nodup
  · intro other found isHeld isSettled
    rcases update_eq_some_iff.mp isHeld with ⟨_, same⟩ | ⟨_, before⟩
    · cases same
      exact fresh (custody.settled_arrived item isSettled)
    · exact custody.held_not_settled before isSettled
  · intro first second found isHeld isHeld'
    rcases update_eq_some_iff.mp isHeld with ⟨isPlace, same⟩ | ⟨_, before⟩
    · rcases update_eq_some_iff.mp isHeld' with ⟨isPlace', _⟩ | ⟨_, before'⟩
      · rw [isPlace, isPlace']
      · cases same
        exact absurd (custody.held_arrived before') fresh
    · rcases update_eq_some_iff.mp isHeld' with ⟨_, same⟩ | ⟨_, before'⟩
      · cases same
        exact absurd (custody.held_arrived before) fresh
      · exact custody.held_unique before before'
  · intro other found isHeld
    rcases update_eq_some_iff.mp isHeld with ⟨_, same⟩ | ⟨_, before⟩
    · cases same
      exact (arrives item).mpr (Or.inl rfl)
    · exact (arrives found).mpr (Or.inr (custody.held_arrived before))
  · intro found isSettled
    exact (arrives found).mpr (Or.inr (custody.settled_arrived found isSettled))
  · intro found member
    rcases (arrives found).mp member with rfl | before
    · exact Or.inr ⟨place, Function.update_self _ _ _⟩
    · rcases custody.accounted found before with isSettled | ⟨other, isHeld⟩
      · exact Or.inl isSettled
      · refine Or.inr ⟨other, update_eq_some_iff.mpr (Or.inr ⟨?_, isHeld⟩)⟩
        rintro rfl
        rw [free] at isHeld
        cases isHeld

/-- What a place holds is settled. -/
theorem settle (custody : Custody held arrived settled) {place : ι} {item : α} {settled' : List α}
    (isHeld : held place = some item) (settles : settled'.Perm (item :: settled)) :
    Custody (Function.update held place none) arrived settled' := by
  have mem_iff : ∀ found, found ∈ settled' ↔ found = item ∨ found ∈ settled := by
    intro found
    rw [settles.mem_iff, List.mem_cons]
  constructor
  · exact settles.nodup_iff.mpr
      (List.nodup_cons.mpr ⟨custody.held_not_settled isHeld, custody.settled_nodup⟩)
  · intro other found isHeld' isSettled
    rcases update_eq_some_iff.mp isHeld' with ⟨_, impossible⟩ | ⟨differ, before⟩
    · cases impossible
    · rcases (mem_iff found).mp isSettled with rfl | settledBefore
      · exact differ (custody.held_unique before isHeld)
      · exact custody.held_not_settled before settledBefore
  · intro first second found isHeld' isHeld''
    rcases update_eq_some_iff.mp isHeld' with ⟨_, impossible⟩ | ⟨_, before⟩
    · cases impossible
    · rcases update_eq_some_iff.mp isHeld'' with ⟨_, impossible⟩ | ⟨_, before'⟩
      · cases impossible
      · exact custody.held_unique before before'
  · intro other found isHeld'
    rcases update_eq_some_iff.mp isHeld' with ⟨_, impossible⟩ | ⟨_, before⟩
    · cases impossible
    · exact custody.held_arrived before
  · intro found isSettled
    rcases (mem_iff found).mp isSettled with rfl | settledBefore
    · exact custody.held_arrived isHeld
    · exact custody.settled_arrived found settledBefore
  · intro found member
    rcases custody.accounted found member with isSettled | ⟨other, isHeld'⟩
    · exact Or.inl ((mem_iff found).mpr (Or.inr isSettled))
    · by_cases isPlace : other = place
      · subst isPlace
        rw [isHeld] at isHeld'
        cases isHeld'
        exact Or.inl ((mem_iff item).mpr (Or.inl rfl))
      · exact Or.inr ⟨other, update_eq_some_iff.mpr (Or.inr ⟨isPlace, isHeld'⟩)⟩

/-- What one place holds, if anything, is moved to a place that holds nothing. -/
theorem move (custody : Custody held arrived settled) {place : ι} (source : ι)
    (free : held place = none) :
    Custody (Function.update (Function.update held place (held source)) source none)
      arrived settled := by
  have found_at : ∀ {target item},
      Function.update (Function.update held place (held source)) source none target = some item →
        target ≠ source ∧ (target = place ∧ held source = some item ∨
          target ≠ place ∧ held target = some item) := by
    intro target item isHeld
    rcases update_eq_some_iff.mp isHeld with ⟨_, impossible⟩ | ⟨notSource, isHeld'⟩
    · cases impossible
    · exact ⟨notSource, update_eq_some_iff.mp isHeld'⟩
  constructor
  · exact custody.settled_nodup
  · intro target item isHeld
    rcases (found_at isHeld).2 with ⟨_, before⟩ | ⟨_, before⟩
    · exact custody.held_not_settled before
    · exact custody.held_not_settled before
  · intro first second item isHeld isHeld'
    rcases found_at isHeld with ⟨notSource, ⟨isPlace, before⟩ | ⟨_, before⟩⟩
    · rcases found_at isHeld' with ⟨notSource', ⟨isPlace', _⟩ | ⟨_, before'⟩⟩
      · rw [isPlace, isPlace']
      · exact absurd (custody.held_unique before' before) notSource'
    · rcases found_at isHeld' with ⟨_, ⟨_, before'⟩ | ⟨_, before'⟩⟩
      · exact absurd (custody.held_unique before before') notSource
      · exact custody.held_unique before before'
  · intro target item isHeld
    rcases (found_at isHeld).2 with ⟨_, before⟩ | ⟨_, before⟩
    · exact custody.held_arrived before
    · exact custody.held_arrived before
  · exact custody.settled_arrived
  · intro item member
    rcases custody.accounted item member with isSettled | ⟨target, isHeld⟩
    · exact Or.inl isSettled
    · right
      have notPlace : target ≠ place := by
        rintro rfl
        rw [free] at isHeld
        cases isHeld
      by_cases isSource : target = source
      · subst isSource
        exact ⟨place, update_eq_some_iff.mpr
          (Or.inr ⟨notPlace.symm, update_eq_some_iff.mpr (Or.inl ⟨rfl, isHeld⟩)⟩)⟩
      · exact ⟨target, update_eq_some_iff.mpr
          (Or.inr ⟨isSource, update_eq_some_iff.mpr (Or.inr ⟨notPlace, isHeld⟩)⟩)⟩

end Custody

end SkAsync.Library

import Mathlib.Data.List.Basic
import Mathlib.Tactic.Common
import Mathlib.Algebra.Order.Ring.Int

/-!
# Slices of a flat memory

A memory assigns a value to every offset.  `slice` reads a block of it and
`store` overwrites one.  The lemmas say how slices split, how a store reads
back, and which slices it leaves alone; they are all a proof about buffers in
fixed arrays needs.
-/

namespace SkAsync.Library

universe u

/-- The contents of an array, by offset. -/
abbrev Memory (α : Type u) := Nat → α

namespace Memory

variable {α : Type u}

/-- The `count` values from offset `start` on. -/
def slice (memory : Memory α) (start count : Nat) : List α :=
  (List.range' start count).map memory

/-- Overwrite the block at `start` by `values`. -/
def store (memory : Memory α) (start : Nat) (values : List α) : Memory α := fun offset =>
  if offset < start then memory offset else (values[offset - start]?).getD (memory offset)

@[simp]
theorem slice_zero (memory : Memory α) (start : Nat) : memory.slice start 0 = [] :=
  rfl

@[simp]
theorem length_slice (memory : Memory α) (start count : Nat) :
    (memory.slice start count).length = count := by
  simp [slice]

/-- A slice splits at any point. -/
theorem slice_add (memory : Memory α) (start first second : Nat) :
    memory.slice start (first + second) =
      memory.slice start first ++ memory.slice (start + first) second := by
  simp [slice, ← List.range'_append_1]

theorem slice_succ (memory : Memory α) (start count : Nat) :
    memory.slice start (count + 1) = memory start :: memory.slice (start + 1) count := by
  simp [slice, List.range'_succ]

/-- A slice of a memory that is the same everywhere. -/
theorem slice_const (value : α) (start count : Nat) :
    slice (fun _ => value) start count = List.replicate count value := by
  simp [slice, List.map_const']

theorem getElem_slice (memory : Memory α) {start count index : Nat}
    (bound : index < (memory.slice start count).length) :
    (memory.slice start count)[index] = memory (start + index) := by
  simp [slice]

theorem take_slice (memory : Memory α) (start count n : Nat) :
    (memory.slice start count).take n = memory.slice start (min n count) := by
  obtain short | long := Nat.le_total n count
  · obtain ⟨rest, rfl⟩ := Nat.exists_eq_add_of_le short
    rw [slice_add, Nat.min_eq_left short]
    exact List.take_left' (length_slice _ _ _)
  · rw [Nat.min_eq_right long]
    exact List.take_of_length_le (by simpa using long)

theorem drop_slice (memory : Memory α) (start count n : Nat) :
    (memory.slice start count).drop n = memory.slice (start + min n count) (count - n) := by
  obtain short | long := Nat.le_total n count
  · obtain ⟨rest, rfl⟩ := Nat.exists_eq_add_of_le short
    rw [slice_add, Nat.min_eq_left short, Nat.add_sub_cancel_left]
    exact List.drop_left' (length_slice _ _ _)
  · rw [Nat.sub_eq_zero_of_le long, slice_zero]
    exact List.drop_of_length_le (by simpa using long)

@[simp]
theorem store_nil (memory : Memory α) (start : Nat) : memory.store start [] = memory := by
  funext offset
  simp [store]

/-- Offsets outside the stored block keep their value. -/
theorem store_of_outside (memory : Memory α) {offset position : Nat} {values : List α}
    (outside : offset < position ∨ position + values.length ≤ offset) :
    memory.store position values offset = memory offset := by
  unfold store
  split
  · rfl
  · rw [List.getElem?_eq_none (by omega), Option.getD_none]

/-- Slices that miss the stored block are unchanged. -/
theorem slice_store_of_disjoint (memory : Memory α) {start count position : Nat}
    {values : List α} (disjoint : start + count ≤ position ∨ position + values.length ≤ start) :
    (memory.store position values).slice start count = memory.slice start count := by
  apply List.map_congr_left
  intro offset member
  rw [List.mem_range'_1] at member
  exact store_of_outside memory (by omega)

/-- The stored block reads back. -/
@[simp]
theorem slice_store_self (memory : Memory α) (position : Nat) (values : List α) :
    (memory.store position values).slice position values.length = values := by
  apply List.ext_getElem (length_slice _ _ _)
  intro index _ inRange
  have notBefore : ¬ position + index < position := by omega
  rw [getElem_slice, store, if_neg notBefore, Nat.add_sub_cancel_left,
    List.getElem?_eq_getElem inRange, Option.getD_some]

/-- Storing what is there changes nothing. -/
@[simp]
theorem store_slice (memory : Memory α) (position count : Nat) :
    memory.store position (memory.slice position count) = memory := by
  funext offset
  unfold store
  split
  · rfl
  · rename_i notBefore
    rcases Nat.lt_or_ge (offset - position) (memory.slice position count).length with
      inside | beyond
    · have back : position + (offset - position) = offset :=
        Nat.add_sub_of_le (Nat.not_lt.mp notBefore)
      rw [List.getElem?_eq_getElem inside, Option.getD_some, getElem_slice, back]
    · rw [List.getElem?_eq_none beyond, Option.getD_none]

/-- Storing at the end of a slice extends it by the stored values. -/
theorem slice_store_extend (memory : Memory α) {start position : Nat} (values : List α)
    (ordered : start ≤ position) :
    (memory.store position values).slice start (position + values.length - start) =
      memory.slice start (position - start) ++ values := by
  have split : position + values.length - start = position - start + values.length := by omega
  have meet : start + (position - start) = position := by omega
  rw [split, slice_add, meet, slice_store_self, slice_store_of_disjoint]
  omega

/-- Two adjacent stores are one store of the concatenation. -/
theorem store_store (memory : Memory α) (position : Nat) (first second : List α) :
    (memory.store position first).store (position + first.length) second =
      memory.store position (first ++ second) := by
  funext offset
  simp only [store]
  by_cases before : offset < position
  · simp [before, Nat.lt_add_right _ before]
  · by_cases inFirst : offset < position + first.length
    · have inRange : offset - position < first.length := by omega
      simp [before, inFirst, List.getElem?_append_left inRange]
    · have beyond : first.length ≤ offset - position := by omega
      have shift : offset - (position + first.length) = offset - position - first.length := by
        omega
      simp [before, inFirst, List.getElem?_append_right beyond, shift,
        List.getElem?_eq_none beyond]

end Memory

end SkAsync.Library

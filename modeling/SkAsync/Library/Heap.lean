import Mathlib.Data.List.Basic
import Mathlib.Tactic.Common

/-!
# An explicit heap

A heap is a list of cells; an address is a position in it.  A released cell is
empty and its address is not used again, so that a read through an old pointer
is seen.  All facts about changed heaps are stated through `read`.
-/

namespace SkAsync.Library

universe u

abbrev Address := Nat

/-- The cells that were ever allocated. -/
structure Heap (α : Type u) where
  cells : List (Option α)

namespace Heap

variable {α : Type u}

def empty : Heap α :=
  ⟨[]⟩

/-- The number of allocations so far. -/
def size (heap : Heap α) : Nat :=
  heap.cells.length

/-- The address of the next allocation. -/
def next (heap : Heap α) : Address :=
  heap.cells.length

def read (heap : Heap α) (address : Address) : Option α :=
  heap.cells[address]?.join

def write (heap : Heap α) (address : Address) (cell : α) : Heap α :=
  ⟨heap.cells.set address (some cell)⟩

def allocate (heap : Heap α) (cell : α) : Heap α :=
  ⟨heap.cells ++ [some cell]⟩

def release (heap : Heap α) (address : Address) : Heap α :=
  ⟨heap.cells.set address none⟩

theorem lt_size_of_read {heap : Heap α} {address : Address} {cell : α}
    (live : heap.read address = some cell) : address < heap.size := by
  by_contra outside
  have absent : heap.cells[address]? = none := List.getElem?_eq_none (Nat.le_of_not_lt outside)
  rw [read, absent] at live
  cases live

@[simp]
theorem size_write (heap : Heap α) (address : Address) (cell : α) :
    (heap.write address cell).size = heap.size :=
  List.length_set

@[simp]
theorem size_release (heap : Heap α) (address : Address) :
    (heap.release address).size = heap.size :=
  List.length_set

@[simp]
theorem size_allocate (heap : Heap α) (cell : α) :
    (heap.allocate cell).size = heap.size + 1 :=
  List.length_append

@[simp]
theorem next_eq_size (heap : Heap α) : heap.next = heap.size :=
  rfl

theorem read_write {heap : Heap α} {address : Address} (allocated : address < heap.size) (cell : α)
    (other : Address) :
    (heap.write address cell).read other =
      if other = address then some cell else heap.read other := by
  unfold read write
  by_cases same : other = address
  · subst same
    rw [if_pos rfl, List.getElem?_set_self allocated]
    rfl
  · rw [if_neg same, List.getElem?_set_ne (Ne.symm same)]

theorem read_release (heap : Heap α) (address other : Address) :
    (heap.release address).read other = if other = address then none else heap.read other := by
  unfold read release
  by_cases same : other = address
  · subst same
    rw [if_pos rfl, List.getElem?_set]
    split
    · split <;> rfl
    · rename_i absurdity
      exact absurd rfl absurdity
  · rw [if_neg same, List.getElem?_set_ne (Ne.symm same)]

theorem read_allocate (heap : Heap α) (cell : α) (other : Address) :
    (heap.allocate cell).read other =
      if other = heap.size then some cell else heap.read other := by
  unfold read allocate size
  by_cases same : other = heap.cells.length
  · subst same
    rw [if_pos rfl, List.getElem?_append_right (Nat.le_refl _), Nat.sub_self]
    rfl
  · rw [if_neg same]
    by_cases below : other < heap.cells.length
    · rw [List.getElem?_append_left below]
    · have above : 1 ≤ other - heap.cells.length :=
        Nat.le_sub_of_add_le' (Nat.lt_of_le_of_ne (Nat.le_of_not_lt below) (Ne.symm same))
      rw [List.getElem?_append_right (Nat.le_of_not_lt below),
        List.getElem?_eq_none (by simpa using above),
        List.getElem?_eq_none (Nat.le_of_not_lt below)]

end Heap

end SkAsync.Library

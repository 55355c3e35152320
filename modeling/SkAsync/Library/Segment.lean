import Mathlib.Data.List.Basic
import Mathlib.Tactic.Common

/-!
# Linked list segments

`Segment next start cells stop` says that following `next` from the pointer
`start` visits exactly `cells` and arrives at the pointer `stop`.  A null
pointer is `none`.  Two facts carry proofs about lists that are changed in
place: a segment splits at any point, and it does not depend on links of cells
outside it.
-/

namespace SkAsync.Library

universe u

variable {κ : Type u}

/-- Following `next` from `start` visits `cells` in order and ends at `stop`. -/
def Segment (next : κ → Option κ) : Option κ → List κ → Option κ → Prop
  | start, [], stop => start = stop
  | start, cell :: cells, stop => start = some cell ∧ Segment next (next cell) cells stop

@[simp]
theorem segment_nil (next : κ → Option κ) (start stop : Option κ) :
    Segment next start [] stop ↔ start = stop :=
  Iff.rfl

@[simp]
theorem segment_cons (next : κ → Option κ) (start stop : Option κ) (cell : κ) (cells : List κ) :
    Segment next start (cell :: cells) stop ↔
      start = some cell ∧ Segment next (next cell) cells stop :=
  Iff.rfl

/-- A segment splits at any point, at a pointer that both parts share. -/
theorem segment_append {next : κ → Option κ} {start stop : Option κ} {first second : List κ} :
    Segment next start (first ++ second) stop ↔
      ∃ middle, Segment next start first middle ∧ Segment next middle second stop := by
  induction first generalizing start with
  | nil => simp
  | cons cell first ih =>
      rw [List.cons_append, segment_cons, ih]
      constructor
      · rintro ⟨start_eq, middle, left, right⟩
        exact ⟨middle, ⟨start_eq, left⟩, right⟩
      · rintro ⟨middle, ⟨start_eq, left⟩, right⟩
        exact ⟨start_eq, middle, left, right⟩

/-- A segment splits in front of a cell exactly at the pointer to that cell. -/
theorem segment_append_cons {next : κ → Option κ} {start stop : Option κ} {first second : List κ}
    {cell : κ} :
    Segment next start (first ++ cell :: second) stop ↔
      Segment next start first (some cell) ∧ Segment next (next cell) second stop := by
  rw [segment_append]
  constructor
  · rintro ⟨middle, left, rfl, right⟩
    exact ⟨left, right⟩
  · rintro ⟨left, right⟩
    exact ⟨some cell, left, rfl, right⟩

/-- A segment depends only on the links of its cells. -/
theorem Segment.congr {next next' : κ → Option κ} {start stop : Option κ} {cells : List κ}
    (agree : ∀ cell ∈ cells, next' cell = next cell) (segment : Segment next start cells stop) :
    Segment next' start cells stop := by
  induction cells generalizing start with
  | nil => exact segment
  | cons cell cells ih =>
      rcases segment with ⟨start_eq, rest⟩
      refine ⟨start_eq, ?_⟩
      rw [agree cell List.mem_cons_self]
      exact ih (fun other member => agree other (List.mem_cons_of_mem cell member)) rest

/-- The first `fuel` cells that following `next` from `start` visits. -/
def follow (next : κ → Option κ) : Nat → Option κ → List κ
  | 0, _ => []
  | _ + 1, none => []
  | fuel + 1, some cell => cell :: follow next fuel (next cell)

/-- Following a list that ends in a null pointer visits exactly its cells. -/
theorem Segment.follow_eq {next : κ → Option κ} {start : Option κ} {cells : List κ} {fuel : Nat}
    (segment : Segment next start cells none) (enough : cells.length ≤ fuel) :
    follow next fuel start = cells := by
  induction cells generalizing start fuel with
  | nil =>
      rw [segment_nil] at segment
      subst segment
      cases fuel with
      | zero => rfl
      | succ fuel => rfl
  | cons cell cells ih =>
      rcases segment with ⟨rfl, rest⟩
      cases fuel with
      | zero => exact absurd enough (Nat.not_succ_le_zero _)
      | succ fuel => rw [follow, ih rest (Nat.le_of_succ_le_succ enough)]

end SkAsync.Library

import Mathlib.Data.List.TakeDrop
import Mathlib.Tactic.Common

/-!
# Writing to open files

The content of a file is a list.  A cursor says where the next write goes: to a
position that every write moves on, or to the end of the file.  A write replaces
what stands there and extends the file where it reaches beyond the end.

Many writes in a row are one write of all blocks, at the place where the first
one went, in both cases.
-/

namespace SkAsync.Library

universe u

variable {α : Type u}

/-- Replace what stands at a position by a block.  A gap between the end of the content
and the position is filled with holes. -/
def overwrite (hole : α) (content : List α) (position : Nat) (block : List α) : List α :=
  content.takeD position hole ++ block ++ content.drop (position + block.length)

theorem overwrite_of_le {content : List α} {position : Nat} (hole : α)
    (within : position ≤ content.length) (block : List α) :
    overwrite hole content position block =
      content.take position ++ block ++ content.drop (position + block.length) := by
  rw [overwrite, List.takeD_eq_take hole within]

/-- At the end of the content, overwriting appends. -/
@[simp]
theorem overwrite_length (hole : α) (content block : List α) :
    overwrite hole content content.length block = content ++ block := by
  rw [overwrite_of_le hole (Nat.le_refl _), List.take_length,
    List.drop_eq_nil_of_le (Nat.le_add_right ..), List.append_nil]

theorem overwrite_nil {content : List α} {position : Nat} (hole : α)
    (within : position ≤ content.length) : overwrite hole content position [] = content := by
  rw [overwrite_of_le hole within]
  simp

theorem length_overwrite {content : List α} {position : Nat} (hole : α)
    (within : position ≤ content.length) (block : List α) :
    (overwrite hole content position block).length =
      max content.length (position + block.length) := by
  rw [overwrite_of_le hole within]
  simp only [List.length_append, List.length_take, List.length_drop]
  omega

/-- Two blocks one behind the other are one block. -/
theorem overwrite_overwrite {content : List α} {position : Nat} (hole : α)
    (within : position ≤ content.length) (first second : List α) :
    overwrite hole (overwrite hole content position first) (position + first.length) second =
      overwrite hole content position (first ++ second) := by
  have within' : position + first.length ≤ (overwrite hole content position first).length := by
    rw [length_overwrite hole within]
    exact Nat.le_max_right ..
  have front : (content.take position ++ first).length = position + first.length := by
    rw [List.length_append, List.length_take, Nat.min_eq_left within]
  rw [overwrite_of_le hole within', overwrite_of_le hole within, overwrite_of_le hole within]
  rw [List.take_left' front, List.drop_append]
  have nothing : (content.take position ++ first).drop
      (position + first.length + second.length) = [] :=
    List.drop_eq_nil_of_le (front ▸ Nat.le_add_right ..)
  rw [front, nothing, Nat.add_sub_cancel_left, List.drop_drop]
  simp [Nat.add_assoc]

/-- Overwriting appends exactly when there is nothing behind the position or nothing to
write. -/
theorem overwrite_eq_append_iff {content block : List α} {position : Nat} (hole : α)
    (within : position ≤ content.length) :
    overwrite hole content position block = content ++ block ↔
      position = content.length ∨ block = [] := by
  constructor
  · intro appended
    have lengths := congrArg List.length appended
    rw [length_overwrite hole within, List.length_append] at lengths
    rcases Nat.eq_zero_or_pos block.length with nothing | something
    · exact .inr (List.length_eq_zero_iff.mp nothing)
    · left
      omega
  · rintro (rfl | rfl)
    · exact overwrite_length hole content block
    · rw [overwrite_nil hole within, List.append_nil]

/-! ## Cursors -/

/-- Where the next write goes. -/
structure Cursor where
  position : Nat
  appending : Bool
  deriving DecidableEq, Repr

namespace Cursor

/-- The place in the content where a write goes. -/
def target (cursor : Cursor) (content : List α) : Nat :=
  if cursor.appending then content.length else cursor.position

/-- A write: the content and the cursor afterwards.  Writing nothing has no effect. -/
def write (hole : α) (cursor : Cursor) (content block : List α) : List α × Cursor :=
  if block.isEmpty then (content, cursor)
  else
    (overwrite hole content (cursor.target content) block,
      { cursor with position := cursor.target content + block.length })

/-- Many writes. -/
def writeAll (hole : α) (cursor : Cursor) (content : List α) : List (List α) → List α × Cursor
  | [] => (content, cursor)
  | block :: blocks =>
      let (content', cursor') := cursor.write hole content block
      cursor'.writeAll hole content' blocks

theorem write_content {cursor : Cursor} {content : List α} (hole : α)
    (within : cursor.target content ≤ content.length) (block : List α) :
    (cursor.write hole content block).1 =
      overwrite hole content (cursor.target content) block := by
  unfold write
  cases block with
  | nil => exact (overwrite_nil hole within).symm
  | cons element rest => rfl

/-- The next write goes behind what was written. -/
theorem write_target {cursor : Cursor} {content : List α} (hole : α)
    (within : cursor.target content ≤ content.length) (block : List α) :
    (cursor.write hole content block).2.target (cursor.write hole content block).1 =
      cursor.target content + block.length := by
  rw [write_content hole within]
  unfold write
  cases block with
  | nil => rw [overwrite_nil hole within]; rfl
  | cons element rest =>
      cases appending : cursor.appending with
      | true => simp [target, appending]
      | false => simp [target, appending]

/-- Many writes in a row are one write of all blocks. -/
theorem writeAll_content {cursor : Cursor} {content : List α} (hole : α)
    (within : cursor.target content ≤ content.length) (blocks : List (List α)) :
    (cursor.writeAll hole content blocks).1 =
      overwrite hole content (cursor.target content) blocks.flatten := by
  induction blocks generalizing cursor content with
  | nil => exact (overwrite_nil hole within).symm
  | cons block blocks ih =>
      have within' : (cursor.write hole content block).2.target
          (cursor.write hole content block).1 ≤ (cursor.write hole content block).1.length := by
        rw [write_target hole within, write_content hole within, length_overwrite hole within]
        exact Nat.le_max_right ..
      rw [writeAll, ih within', write_target hole within, write_content hole within,
        overwrite_overwrite hole within, List.flatten_cons]

end Cursor

end SkAsync.Library

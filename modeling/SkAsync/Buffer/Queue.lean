import SkAsync.Library.Execution

/-!
# What a buffer is for

Every buffer is a first-in first-out queue of elements.  The operations below
are those of the `buffer` concept; `Allows` states what each of them may do to
a queue of a given capacity, with `none` for a buffer that grows as needed.

Ranges are zero-copy views.  The specification does not fix how the content is
cut into ranges, only what their concatenation is.
-/

namespace SkAsync.Buffer

/-- Operations of the `buffer` concept that move elements or look at them. -/
inductive Op (α : Type)
  | write (data : List α)
  | read (n : Nat)
  | discard (n : Nat)
  | readableRanges
  deriving Repr

/-- What an operation returns: a count, the elements copied out together with
their count, or the elements seen through each range. -/
inductive Output (α : Type)
  | count (n : Nat)
  | data (n : Nat) (elements : List α)
  | ranges (elements : List (List α))
  deriving DecidableEq, Repr

/-- How many elements of `data` a queue takes: all of them when it is unbounded,
otherwise as many as fit. -/
def accepted {α : Type} (capacity : Option Nat) (queue data : List α) : Nat :=
  match capacity with
  | none => data.length
  | some bound => min data.length (bound - queue.length)

/-- The specification of a queue.  `seen` is the admissible relation between
the concatenated readable ranges and the content. -/
inductive Allows {α : Type} (capacity : Option Nat) (seen : List α → List α → Prop) :
    List α → Op α → Output α → List α → Prop
  | write (queue data : List α) :
      Allows capacity seen queue (.write data) (.count (accepted capacity queue data))
        (queue ++ data.take (accepted capacity queue data))
  | read (queue : List α) (n : Nat) :
      Allows capacity seen queue (.read n)
        (.data (min n queue.length) (queue.take n)) (queue.drop n)
  | discard (queue : List α) (n : Nat) :
      Allows capacity seen queue (.discard n) (.count (min n queue.length)) (queue.drop n)
  | readableRanges (queue : List α) (ranges : List (List α)) (view : seen ranges.flatten queue) :
      Allows capacity seen queue .readableRanges (.ranges ranges) queue

/-- The operations of a buffer that can also be emptied at once. -/
inductive ClearableOp (α : Type)
  | clear
  | op (operation : Op α)
  deriving Repr

/-- Clearing returns nothing and forgets the content. -/
inductive ClearableAllows {α : Type} (capacity : Option Nat) (seen : List α → List α → Prop) :
    List α → ClearableOp α → Option (Output α) → List α → Prop
  | clear (queue : List α) : ClearableAllows capacity seen queue .clear none []
  | op {queue next : List α} {operation : Op α} {out : Output α}
      (allowed : Allows capacity seen queue operation out next) :
      ClearableAllows capacity seen queue (.op operation) (some out) next

end SkAsync.Buffer

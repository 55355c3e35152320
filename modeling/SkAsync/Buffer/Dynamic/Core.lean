import SkAsync.Buffer.Fixed
import SkAsync.Library.Segment

/-!
# `dynamic_buffer`

A queue in a linked list of fixed-size extents.  The list is modelled as the
heap the source builds: extents are cells with an address, and `next`, `_head`
and `_tail` are pointers, `none` when null.  The cell of the next allocation is
`allocated`, and whatever the cells beyond it hold is the uninitialised memory
that allocation will find.

Following a null pointer, or one to a cell that was never allocated, is a
fault.  Loops take fuel that bounds the iterations of a terminating call, so
that a loop the source would not leave is the fault `diverged`.
-/

namespace SkAsync.Buffer

open SkAsync.Library

/-- `extent_type`: a fixed array with a window of written elements, and the
link to the next extent. -/
structure Extent (α : Type) (X : Nat) extends FixedBuffer α X where
  next : Option Nat

namespace Extent

variable {α : Type} {X : Nat}

/-- `extent_type::empty`. -/
def empty (extent : Extent α X) : Prop :=
  extent.writePointer = 0

instance (extent : Extent α X) : Decidable extent.empty :=
  inferInstanceAs (Decidable (extent.writePointer = 0))

/-- `extent_type::dead`. -/
def dead (extent : Extent α X) : Prop :=
  extent.readable = 0 ∧ extent.writable = 0

instance (extent : Extent α X) : Decidable extent.dead :=
  inferInstanceAs (Decidable (_ ∧ _))

/-- `extent_type::clear`. -/
def clear (extent : Extent α X) : Extent α X :=
  { extent with toFixedBuffer := extent.toFixedBuffer.reset }

@[simp]
theorem toFixedBuffer_clear (extent : Extent α X) :
    extent.clear.toFixedBuffer = extent.toFixedBuffer.reset :=
  rfl

@[simp]
theorem next_clear (extent : Extent α X) : extent.clear.next = extent.next :=
  rfl

end Extent

/-- `dynamic_buffer<Char, …>` with extents of capacity `X`. -/
structure DynamicBuffer (α : Type) (X : Nat) where
  extents : Nat → Extent α X
  allocated : Nat
  head : Option Nat
  tail : Option Nat

namespace DynamicBuffer

variable {α : Type} {X : Nat}

/-- The `next` pointers of a buffer. -/
def link (buffer : DynamicBuffer α X) (address : Nat) : Option Nat :=
  (buffer.extents address).next

/-- The array of an extent with its read and write pointers. -/
def window (buffer : DynamicBuffer α X) (address : Nat) : FixedBuffer α X :=
  (buffer.extents address).toFixedBuffer

/-- The unread elements of a list of extents. -/
def contentOf (buffer : DynamicBuffer α X) (cells : List Nat) : List α :=
  cells.flatMap fun address => (buffer.window address).content

/-- What the buffer holds: the unread elements along the list of extents. -/
def content (buffer : DynamicBuffer α X) : List α :=
  buffer.contentOf (follow buffer.link buffer.allocated buffer.head)

/-- A new buffer: a single extent that is both head and tail. -/
def new (storage : Nat → Memory α) : DynamicBuffer α X where
  extents address := { toFixedBuffer := .new (storage address), next := none }
  allocated := 1
  head := some 0
  tail := some 0

/-- Follow a pointer. -/
def deref (buffer : DynamicBuffer α X) : Option Nat → Except Fault (Nat × Extent α X)
  | none => .error .nullDereference
  | some address =>
      if address < buffer.allocated then .ok (address, buffer.extents address)
      else .error .danglingDereference

/-- Change the extent at an address. -/
def set (buffer : DynamicBuffer α X) (address : Nat) (extent : Extent α X) : DynamicBuffer α X :=
  { buffer with extents := Function.update buffer.extents address extent }

/-- `new extent_type` with its `next` field assigned. -/
def allocate (buffer : DynamicBuffer α X) (next : Option Nat) : Nat × DynamicBuffer α X :=
  (buffer.allocated,
    { buffer with
      extents := Function.update buffer.extents buffer.allocated
        { toFixedBuffer := .new (buffer.extents buffer.allocated).data, next := next }
      allocated := buffer.allocated + 1 })

/-- `dynamic_buffer::_kill_head`: the head moves behind the tail. -/
def killHead (build : Build) (buffer : DynamicBuffer α X) :
    Except Fault (DynamicBuffer α X) := do
  let (_, head) ← buffer.deref buffer.head
  skCheck build head.dead
    "INTERNAL ERROR: dynamic_buffer::_kill_head() trying to remove active head"
  skCheck build (buffer.head ≠ buffer.tail)
    "INTERNAL ERROR: dynamic_buffer::_kill_head() trying to remove our only head"
  let (tailAddress, tail) ← buffer.deref buffer.tail
  let linked := buffer.set tailAddress { tail with next := buffer.head }
  let (oldHead, old) ← linked.deref buffer.head
  pure { linked.set oldHead { old with next := tail.next }.clear with head := head.next }

/-- `dynamic_buffer::_make_tail`. -/
def makeTail (build : Build) (buffer : DynamicBuffer α X) :
    Except Fault (DynamicBuffer α X) := do
  let (tailAddress, tail) ← buffer.deref buffer.tail
  match tail.next with
  | some spare => do
      let (_, next) ← buffer.deref (some spare)
      skCheck build next.empty
        "INTERNAL ERROR: dynamic_buffer::_make_tail: next tail not empty"
      pure { buffer with tail := some spare }
  | none =>
      let (newTail, grown) := buffer.allocate none
      pure { grown.set tailAddress { tail with next := some newTail } with tail := some newTail }

/-- `dynamic_buffer::_ensure_minfree`. -/
def ensureMinfree (build : Build) (buffer : DynamicBuffer α X) :
    Except Fault (DynamicBuffer α X) := do
  let (_, tail) ← buffer.deref buffer.tail
  if tail.empty then
    pure buffer
  else
    match tail.next with
    | some spare => do
        let (_, next) ← buffer.deref (some spare)
        skCheck build next.empty
          "INTERNAL ERROR: dynamic_buffer::_ensure_minfree: next tail not empty"
        pure buffer
    | none => buffer.makeTail build

/-- The start of an iteration of `write`: leave a full tail. -/
def leaveFullTail (build : Build) (buffer : DynamicBuffer α X) :
    Except Fault (DynamicBuffer α X) := do
  let (_, tail) ← buffer.deref buffer.tail
  if tail.writable = 0 then buffer.makeTail build else pure buffer

/-- The loop of `write`. -/
def writeLoop (build : Build) : Nat → DynamicBuffer α X → List α →
    Except Fault (DynamicBuffer α X)
  | _, buffer, [] => .ok buffer
  | 0, _, _ :: _ => .error .diverged
  | fuel + 1, buffer, c :: cptr => do
      let buffer ← buffer.leaveFullTail build
      let (tailAddress, tail) ← buffer.deref buffer.tail
      let wr := min (c :: cptr).length tail.writable
      skCheck build (tail.writePointer + wr ≤ X ∧ wr ≤ (c :: cptr).length)
        "INTERNAL ERROR: dynamic_buffer: write: overflow"
      let filled := { tail with
        data := tail.data.store tail.writePointer ((c :: cptr).take wr)
        writePointer := tail.writePointer + wr }
      writeLoop build fuel (buffer.set tailAddress filled) ((c :: cptr).drop wr)

/-- `dynamic_buffer::write`.  The checks on the caller's pointers compare
positions inside one array; positions in a list always pass them. -/
def write (build : Build) (buffer : DynamicBuffer α X) (dptr : List α) :
    Except Fault (Nat × DynamicBuffer α X) := do
  let final ← writeLoop build (dptr.length + buffer.allocated) buffer dptr
  pure (dptr.length, final)

/-- What `read` and `discard` do once the head's read pointer has moved: a dead
head is killed, or cleared when it is the tail as well. -/
def retireHead (build : Build) (buffer : DynamicBuffer α X) :
    Except Fault (DynamicBuffer α X) := do
  let (address, head) ← buffer.deref buffer.head
  if head.dead then
    if buffer.head ≠ buffer.tail then buffer.killHead build
    else pure (buffer.set address head.clear)
  else
    pure buffer

/-- The loop of `read`: the elements copied out and the buffer left. -/
def readLoop (build : Build) : Nat → DynamicBuffer α X → Nat →
    Except Fault (List α × DynamicBuffer α X)
  | _, buffer, 0 => .ok ([], buffer)
  | 0, _, _ + 1 => .error .diverged
  | fuel + 1, buffer, left + 1 => do
      let (address, head) ← buffer.deref buffer.head
      skCheck build (¬ head.dead)
        "INTERNAL ERROR: dynamic_buffer::read: unexpected dead head"
      if head.readable = 0 then
        pure ([], buffer)
      else
        let rd := min (left + 1) head.readable
        skCheck build (head.readPointer + rd ≤ head.writePointer ∧ rd ≤ left + 1)
          "INTERNAL ERROR: dynamic_buffer: read: overflow"
        let moved := buffer.set address { head with readPointer := head.readPointer + rd }
        let next ← moved.retireHead build
        let (rest, final) ← readLoop build fuel next (left + 1 - rd)
        pure (head.data.slice head.readPointer rd ++ rest, final)

/-- `dynamic_buffer::read`: the count returned and the elements copied out. -/
def read (build : Build) (buffer : DynamicBuffer α X) (dsize : Nat) :
    Except Fault ((Nat × List α) × DynamicBuffer α X) := do
  let (elements, final) ← readLoop build dsize buffer dsize
  pure ((elements.length, elements), final)

/-- The loop of `discard`.  A head with nothing to read is a failed check in a
debug build; in a release build the loop then makes no progress. -/
def discardLoop (build : Build) : Nat → DynamicBuffer α X → Nat →
    Except Fault (DynamicBuffer α X)
  | _, buffer, 0 => .ok buffer
  | 0, _, _ + 1 => .error .diverged
  | fuel + 1, buffer, left + 1 => do
      let (address, head) ← buffer.deref buffer.head
      skCheck build (0 < head.readable)
        "INTERNAL ERROR: dynamic_buffer::discard: unreadable head"
      let candisc := min (left + 1) head.readable
      let moved := buffer.set address { head with readPointer := head.readPointer + candisc }
      let next ← moved.retireHead build
      discardLoop build fuel next (left + 1 - candisc)

/-- `dynamic_buffer::discard`. -/
def discard (build : Build) (buffer : DynamicBuffer α X) (n : Nat) :
    Except Fault (Nat × DynamicBuffer α X) := do
  let final ← discardLoop build (n + buffer.allocated) buffer n
  pure (n, final)

/-- The loop of `writable_ranges`, with the space left in `ret` as fuel. -/
def writableLoop {maxRanges : Nat} (build : Build) (buffer : DynamicBuffer α X) :
    Nat → Option Nat → StaticVector (Nat × Span) maxRanges →
    Except Fault (StaticVector (Nat × Span) maxRanges)
  | 0, _, ret => .ok ret
  | _ + 1, none, ret => .ok ret
  | room + 1, some tptr, ret => do
      let (address, extent) ← buffer.deref (some tptr)
      skCheck build (0 < extent.writable)
        "INTERNAL ERROR: dynamic_buffer::writable_ranges: unexpected full tail"
      let ret ← ret.pushBack build (address, ⟨extent.writePointer, extent.writable⟩)
      writableLoop build buffer room extent.next ret

/-- `dynamic_buffer::writable_ranges`: spans named by extent and position. -/
def writableRanges (build : Build) (maxRanges : Nat) (buffer : DynamicBuffer α X) :
    Except Fault (StaticVector (Nat × Span) maxRanges × DynamicBuffer α X) := do
  let grown ← buffer.ensureMinfree build
  skCheck build (grown.tail ≠ none)
    "INTERNAL ERROR: dynamic_buffer::writable_ranges: no tail?"
  let ret ← writableLoop build grown maxRanges grown.tail .empty
  pure (ret, grown)

/-- The start of an iteration of `commit`: move from a full tail to the next. -/
def nextTail (build : Build) (buffer : DynamicBuffer α X) :
    Except Fault (DynamicBuffer α X) := do
  let (_, tail) ← buffer.deref buffer.tail
  if tail.writable = 0 then do
    skCheck build (tail.next ≠ none) "dynamic_buffer::commit(): no tail"
    pure { buffer with tail := tail.next }
  else
    pure buffer

/-- The loop of `commit`. -/
def commitLoop (build : Build) : Nat → DynamicBuffer α X → Nat →
    Except Fault (DynamicBuffer α X)
  | _, buffer, 0 => .ok buffer
  | 0, _, _ + 1 => .error .diverged
  | fuel + 1, buffer, cn + 1 => do
      let buffer ← buffer.nextTail build
      let (tailAddress, tail) ← buffer.deref buffer.tail
      let cancommit := min (cn + 1) tail.writable
      let moved :=
        buffer.set tailAddress { tail with writePointer := tail.writePointer + cancommit }
      commitLoop build fuel moved (cn + 1 - cancommit)

/-- `dynamic_buffer::commit`. -/
def commit (build : Build) (buffer : DynamicBuffer α X) (n : Nat) :
    Except Fault (Nat × DynamicBuffer α X) := do
  let final ← commitLoop build (n + buffer.allocated) buffer n
  pure (n, final)

/-- The loop of `readable_ranges`, with the space left in `ret` as fuel.  The
check looks at the head in every iteration, as the source does. -/
def readableLoop {maxRanges : Nat} (build : Build) (buffer : DynamicBuffer α X) :
    Nat → Option Nat → StaticVector (Nat × Span) maxRanges →
    Except Fault (StaticVector (Nat × Span) maxRanges)
  | 0, _, ret => .ok ret
  | room + 1, hptr, ret => do
      let (_, head) ← buffer.deref buffer.head
      skCheck build (0 < head.readable)
        "INTERNAL ERROR: dynamic_buffer::readable_ranges: unreadable head"
      let (address, extent) ← buffer.deref hptr
      let ret ← ret.pushBack build (address, ⟨extent.readPointer, extent.readable⟩)
      match extent.next with
      | none => pure ret
      | some next => readableLoop build buffer room (some next) ret

/-- `dynamic_buffer::readable_ranges`. -/
def readableRanges (build : Build) (maxRanges : Nat) (buffer : DynamicBuffer α X) :
    Except Fault (StaticVector (Nat × Span) maxRanges) :=
  readableLoop build buffer maxRanges buffer.head .empty

/-- The elements seen through spans of extents. -/
def seenThrough (buffer : DynamicBuffer α X) (ranges : List (Nat × Span)) : List (List α) :=
  ranges.map fun range => (buffer.extents range.1).data.slice range.2.start range.2.size

/-- One copying operation on the buffer, with what the caller gets to see. -/
def step (build : Build) (maxRanges : Nat) (buffer : DynamicBuffer α X) :
    Op α → Except Fault (Output α × DynamicBuffer α X)
  | .write data => do
      let (count, next) ← buffer.write build data
      pure (.count count, next)
  | .read n => do
      let ((count, elements), next) ← buffer.read build n
      pure (.data count elements, next)
  | .discard n => do
      let (count, next) ← buffer.discard build n
      pure (.count count, next)
  | .readableRanges => do
      let ranges ← buffer.readableRanges build maxRanges
      pure (.ranges (buffer.seenThrough ranges.items), buffer)

end DynamicBuffer

end SkAsync.Buffer

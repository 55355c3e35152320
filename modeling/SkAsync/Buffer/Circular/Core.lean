import SkAsync.Buffer.Queue
import SkAsync.Library.Memory
import SkAsync.StaticVector

/-!
# `circular_buffer`

A ring of `N` elements in an array of `N + 1`.  Pointers are offsets from
`data.begin()`, so `data.end()` is `N + 1`.  The pointers coincide when the
buffer is empty and the write pointer is one behind the read pointer when it is
full.

Every operation of the source is two branches in sequence: one for the part of
the array up to its end, one for the part that wrapped.  Each branch is a
definition of its own here.
-/

namespace SkAsync.Buffer

open SkAsync.Library

/-- `circular_buffer<Char, N>`. -/
structure CircularBuffer (α : Type) (N : Nat) where
  data : Memory α
  readPointer : Nat
  writePointer : Nat

/-- A span of the array: its first offset and its length. -/
structure Span where
  start : Nat
  size : Nat
  deriving DecidableEq, Repr

namespace CircularBuffer

variable {α : Type} {N : Nat}

/-- A new buffer.  The array is not initialised, so its contents are arbitrary. -/
def new (data : Memory α) : CircularBuffer α N :=
  ⟨data, 0, 0⟩

/-- `circular_buffer::clear`. -/
def clear (buffer : CircularBuffer α N) : CircularBuffer α N :=
  { buffer with readPointer := 0, writePointer := 0 }

/-- The end of the space that can be written without wrapping.  When the read
pointer is at the start of the array, one slot is left empty at its end. -/
def wend (buffer : CircularBuffer α N) : Nat :=
  if buffer.readPointer = 0 then N + 1 - 1 else N + 1

/-- First branch of `write`: copy up to the end of the array and wrap. -/
def writeHigh (buffer : CircularBuffer α N) (cptr : List α) : CircularBuffer α N × List α :=
  if buffer.readPointer ≤ buffer.writePointer then
    let wr := min (buffer.wend - buffer.writePointer) cptr.length
    let reached := buffer.writePointer + wr
    ({ buffer with
        data := buffer.data.store buffer.writePointer (cptr.take wr)
        writePointer := if reached = N + 1 then 0 else reached }, cptr.drop wr)
  else
    (buffer, cptr)

/-- Second branch of `write`: copy one element at a time until the write
pointer is just behind the read pointer. -/
def writeLow (buffer : CircularBuffer α N) : List α → CircularBuffer α N × List α
  | [] => (buffer, [])
  | c :: cptr =>
      if buffer.writePointer < buffer.readPointer - 1 then
        writeLow { buffer with
          data := buffer.data.store buffer.writePointer [c]
          writePointer := buffer.writePointer + 1 } cptr
      else
        (buffer, c :: cptr)

/-- `circular_buffer::write`. -/
def write (buffer : CircularBuffer α N) (dptr : List α) : Nat × CircularBuffer α N :=
  let (high, cptr) := buffer.writeHigh dptr
  let (low, rest) :=
    if high.readPointer > high.writePointer then high.writeLow cptr else (high, cptr)
  (dptr.length - rest.length, low)

/-- First branch of `read` and `discard`: take up to `left` elements before the
end of the array and wrap.  Returns how many were taken. -/
def consumeHigh (buffer : CircularBuffer α N) (left : Nat) : Nat × CircularBuffer α N :=
  if buffer.readPointer > buffer.writePointer then
    let rd := min left (N + 1 - buffer.readPointer)
    let reached := buffer.readPointer + rd
    (rd, { buffer with readPointer := if reached = N + 1 then 0 else reached })
  else
    (0, buffer)

/-- Second branch of `read` and `discard`: take up to `left` elements before
the write pointer. -/
def consumeLow (buffer : CircularBuffer α N) (left : Nat) : Nat × CircularBuffer α N :=
  if buffer.readPointer < buffer.writePointer then
    let rd := min left (buffer.writePointer - buffer.readPointer)
    (rd, { buffer with readPointer := buffer.readPointer + rd })
  else
    (0, buffer)

/-- `circular_buffer::read`: the count returned and the elements copied out. -/
def read (build : Build) (buffer : CircularBuffer α N) (dsize : Nat) :
    Except Fault ((Nat × List α) × CircularBuffer α N) := do
  let (first, high) := buffer.consumeHigh dsize
  let (second, low) := high.consumeLow (dsize - first)
  skCheck build (low.readPointer < N + 1)
    "INTERNAL ERROR: sk::circular_buffer::read() pointer confusion"
  pure ((first + second, buffer.data.slice buffer.readPointer first ++
    high.data.slice high.readPointer second), low)

/-- `circular_buffer::discard`. -/
def discard (build : Build) (buffer : CircularBuffer α N) (n : Nat) :
    Except Fault (Nat × CircularBuffer α N) := do
  if buffer.readPointer = buffer.writePointer then
    pure (0, buffer)
  else
    let (first, high) := buffer.consumeHigh n
    let (second, low) := high.consumeLow (n - first)
    skCheck build (low.readPointer < N + 1)
      "INTERNAL ERROR: sk::circular_buffer::readable_ranges() pointer confusion"
    pure (first + second, low)

/-- `if (!span.empty()) ret.push_back(span)`. -/
def pushNonempty {capacity : Nat} (build : Build) (ret : StaticVector Span capacity)
    (span : Span) : Except Fault (StaticVector Span capacity) :=
  if span.size = 0 then .ok ret else ret.pushBack build span

/-- First branch of `readable_ranges`, with the position it moves to. -/
def readableHigh (build : Build) (buffer : CircularBuffer α N) (ret : StaticVector Span 2) :
    Except Fault (StaticVector Span 2 × Nat) := do
  if buffer.readPointer > buffer.writePointer then
    let canRead := N + 1 - buffer.readPointer
    let ret ← pushNonempty build ret ⟨buffer.readPointer, canRead⟩
    let reached := buffer.readPointer + canRead
    pure (ret, if reached = N + 1 then 0 else reached)
  else
    pure (ret, buffer.readPointer)

/-- Second branch of `readable_ranges`, from the theoretical read pointer. -/
def readableLow (build : Build) (buffer : CircularBuffer α N) (ret : StaticVector Span 2)
    (theoretical : Nat) : Except Fault (StaticVector Span 2 × Nat) := do
  if theoretical < buffer.writePointer then
    let canRead := buffer.writePointer - theoretical
    let ret ← pushNonempty build ret ⟨theoretical, canRead⟩
    pure (ret, theoretical + canRead)
  else
    pure (ret, theoretical)

/-- `circular_buffer::readable_ranges`. -/
def readableRanges (build : Build) (buffer : CircularBuffer α N) :
    Except Fault (StaticVector Span 2) := do
  if buffer.readPointer = buffer.writePointer then
    pure .empty
  else
    let (ret, theoretical) ← buffer.readableHigh build .empty
    let (ret, theoretical) ← buffer.readableLow build ret theoretical
    skCheck build (theoretical < N + 1)
      "INTERNAL ERROR: sk::circular_buffer::readable_ranges() pointer confusion"
    pure ret

/-- First branch of `writable_ranges`, with the position it moves to. -/
def writableHigh (build : Build) (buffer : CircularBuffer α N) (ret : StaticVector Span 2) :
    Except Fault (StaticVector Span 2 × Nat) := do
  if buffer.readPointer ≤ buffer.writePointer then
    let size := buffer.wend - buffer.writePointer
    let ret ← pushNonempty build ret ⟨buffer.writePointer, size⟩
    let reached := buffer.writePointer + size
    pure (ret, if reached = N + 1 ∧ buffer.readPointer ≠ 0 then 0 else reached)
  else
    pure (ret, buffer.writePointer)

/-- `circular_buffer::writable_ranges`. -/
def writableRanges (build : Build) (buffer : CircularBuffer α N) :
    Except Fault (StaticVector Span 2) := do
  let (ret, theoretical) ← buffer.writableHigh build .empty
  if buffer.readPointer > theoretical then
    pushNonempty build ret ⟨theoretical, buffer.readPointer - 1 - theoretical⟩
  else
    pure ret

/-- First branch of `commit`: mark space up to the end of the array and wrap. -/
def commitHigh (buffer : CircularBuffer α N) (bytesLeft : Nat) : Nat × CircularBuffer α N :=
  if buffer.readPointer ≤ buffer.writePointer then
    let canWrite := min (buffer.wend - buffer.writePointer) bytesLeft
    let reached := buffer.writePointer + canWrite
    (canWrite, { buffer with
      writePointer := if reached = N + 1 ∧ buffer.readPointer ≠ 0 then 0 else reached })
  else
    (0, buffer)

/-- `circular_buffer::commit`.  The second branch bounds the amount by the
distance from the start of the array to the read pointer. -/
def commit (build : Build) (buffer : CircularBuffer α N) (n : Nat) :
    Except Fault (Nat × CircularBuffer α N) := do
  let (first, high) := buffer.commitHigh n
  if high.readPointer > high.writePointer then
    let canWrite := min (high.readPointer - 1) (n - first)
    let low := { high with writePointer := high.writePointer + canWrite }
    skCheck build (low.writePointer < low.readPointer)
      "INTERNAL ERROR: sk::circular_buffer::commit() pointer confusion"
    pure (first + canWrite, low)
  else
    pure (first, high)

/-- One operation on the buffer, with what the caller gets to see. -/
def step (build : Build) (buffer : CircularBuffer α N) :
    Op α → Except Fault (Output α × CircularBuffer α N)
  | .write data =>
      let (n, next) := buffer.write data
      .ok (.count n, next)
  | .read n => do
      let ((count, elements), next) ← buffer.read build n
      pure (.data count elements, next)
  | .discard n => do
      let (count, next) ← buffer.discard build n
      pure (.count count, next)
  | .readableRanges => do
      let ranges ← buffer.readableRanges build
      pure (.ranges (ranges.items.map fun span => buffer.data.slice span.start span.size), buffer)

/-- The same with `clear`, which returns nothing. -/
def clearableStep (build : Build) (buffer : CircularBuffer α N) :
    ClearableOp α → Except Fault (Option (Output α) × CircularBuffer α N)
  | .clear => .ok (none, buffer.clear)
  | .op operation => do
      let (out, next) ← buffer.step build operation
      pure (some out, next)

end CircularBuffer

end SkAsync.Buffer

import SkAsync.Buffer.Circular.Core
import SkAsync.Buffer.Range

/-!
# `fixed_buffer`

A fixed array with a read window that moves from its start to its end once.
Space that was read is not used again until the buffer is reset, so the
capacity shrinks along a run; what is read is still what was written, in order.
-/

namespace SkAsync.Buffer

open SkAsync.Library

/-- `fixed_buffer<Char, N>`, with pointers as offsets from `data.begin()`. -/
structure FixedBuffer (α : Type) (N : Nat) where
  data : Memory α
  readPointer : Nat
  writePointer : Nat

namespace FixedBuffer

variable {α : Type} {N : Nat}

/-- A new buffer over an array of arbitrary contents. -/
def new (data : Memory α) : FixedBuffer α N :=
  ⟨data, 0, 0⟩

/-- `fixed_buffer::reset`. -/
def reset (buffer : FixedBuffer α N) : FixedBuffer α N :=
  { buffer with readPointer := 0, writePointer := 0 }

/-- `fixed_buffer::_writable`. -/
def writable (buffer : FixedBuffer α N) : Nat :=
  N - buffer.writePointer

/-- `fixed_buffer::_readable`. -/
def readable (buffer : FixedBuffer α N) : Nat :=
  buffer.writePointer - buffer.readPointer

/-- `fixed_buffer::write`. -/
def write (buffer : FixedBuffer α N) (dptr : List α) : Nat × FixedBuffer α N :=
  let dsize := min dptr.length buffer.writable
  (dsize, { buffer with
    data := buffer.data.store buffer.writePointer (dptr.take dsize)
    writePointer := buffer.writePointer + dsize })

/-- `fixed_buffer::commit`. -/
def commit (buffer : FixedBuffer α N) (n : Nat) : Nat × FixedBuffer α N :=
  let n := min n buffer.writable
  (n, { buffer with writePointer := buffer.writePointer + n })

/-- `fixed_buffer::read`: the count and the elements copied out. -/
def read (buffer : FixedBuffer α N) (dsize : Nat) : (Nat × List α) × FixedBuffer α N :=
  let dsize := min dsize buffer.readable
  ((dsize, buffer.data.slice buffer.readPointer dsize),
    { buffer with readPointer := buffer.readPointer + dsize })

/-- `fixed_buffer::discard`. -/
def discard (buffer : FixedBuffer α N) (n : Nat) : Nat × FixedBuffer α N :=
  let n := min n buffer.readable
  (n, { buffer with readPointer := buffer.readPointer + n })

/-- `fixed_buffer::readable_ranges`: always one span, possibly empty. -/
def readableRanges (buffer : FixedBuffer α N) : StaticVector Span 1 :=
  ⟨[⟨buffer.readPointer, buffer.readable⟩], Nat.le_refl 1⟩

/-- `fixed_buffer::writable_ranges`: always one span, possibly empty. -/
def writableRanges (buffer : FixedBuffer α N) : StaticVector Span 1 :=
  ⟨[⟨buffer.writePointer, buffer.writable⟩], Nat.le_refl 1⟩

/-- The elements that can be read, oldest first. -/
def content (buffer : FixedBuffer α N) : List α :=
  buffer.data.slice buffer.readPointer buffer.readable

/-- The read window ends inside the array. -/
structure WellFormed (buffer : FixedBuffer α N) : Prop where
  ordered : buffer.readPointer ≤ buffer.writePointer
  writePointer_le : buffer.writePointer ≤ N

theorem wellFormed_new (data : Memory α) : (new data : FixedBuffer α N).WellFormed :=
  ⟨Nat.le_refl 0, Nat.zero_le N⟩

@[simp]
theorem content_new (data : Memory α) : (new data : FixedBuffer α N).content = [] :=
  rfl

@[simp]
theorem length_content (buffer : FixedBuffer α N) : buffer.content.length = buffer.readable := by
  simp [content]

/-- Storing at the write pointer and moving it appends. -/
theorem content_store {buffer : FixedBuffer α N} (wellFormed : buffer.WellFormed)
    (moved : List α) :
    ({ buffer with
        data := buffer.data.store buffer.writePointer moved
        writePointer := buffer.writePointer + moved.length } : FixedBuffer α N).content =
      buffer.content ++ moved :=
  Memory.slice_store_extend buffer.data moved wellFormed.ordered

/-- Moving the read pointer inside the window drops the oldest elements. -/
theorem content_advance {buffer : FixedBuffer α N} {n : Nat} (within : n ≤ buffer.readable) :
    ({ buffer with readPointer := buffer.readPointer + n } : FixedBuffer α N).content =
      buffer.content.drop n := by
  rw [content, content, Memory.drop_slice, Nat.min_eq_left within]
  simp only [readable, Nat.sub_add_eq]

/-- `write` appends what fits. -/
theorem write_spec {buffer : FixedBuffer α N} (wellFormed : buffer.WellFormed) (data : List α) :
    (buffer.write data).1 = min data.length buffer.writable ∧
      (buffer.write data).2.WellFormed ∧
      (buffer.write data).2.content =
        buffer.content ++ data.take (min data.length buffer.writable) := by
  obtain ⟨ordered, bound⟩ := wellFormed
  have appended := content_store ⟨ordered, bound⟩ (data.take (min data.length buffer.writable))
  rw [List.length_take, Nat.min_eq_left (Nat.min_le_left _ _)] at appended
  refine ⟨rfl, ⟨?_, ?_⟩, appended⟩
  · simp only [write]
    omega
  · simp only [write, writable]
    omega

/-- `read` takes the oldest elements. -/
theorem read_spec {buffer : FixedBuffer α N} (wellFormed : buffer.WellFormed) (n : Nat) :
    (buffer.read n).1 = (min n buffer.content.length, buffer.content.take n) ∧
      (buffer.read n).2.WellFormed ∧ (buffer.read n).2.content = buffer.content.drop n := by
  obtain ⟨ordered, bound⟩ := wellFormed
  refine ⟨?_, ⟨?_, bound⟩, ?_⟩
  · rw [length_content, content, Memory.take_slice]
    rfl
  · simp only [read, readable]
    omega
  · rw [read]
    dsimp only
    rw [content_advance (Nat.min_le_right _ _), ← length_content]
    obtain short | long := Nat.le_total n buffer.content.length
    · rw [Nat.min_eq_left short]
    · rw [Nat.min_eq_right long, List.drop_length, List.drop_of_length_le long]

/-- `fixed_buffer` as channel I/O sees it. -/
def ranges : RangeBuffer (FixedBuffer α N) Span α where
  writableRanges buffer := .ok (buffer.writableRanges.items, buffer)
  size := Span.size
  store buffer span offset elements :=
    { buffer with data := buffer.data.store (span.start + offset) elements }
  commit buffer n := .ok (buffer.commit n)
  readableRanges buffer := .ok (buffer.readableRanges.items.map fun span =>
    buffer.data.slice span.start span.size)
  discard buffer n := .ok (buffer.discard n)

theorem ranges_lawful : ranges.Lawful (WellFormed (α := α) (N := N)) content where
  store_nil := by
    intro buffer span offset
    simp [ranges]
  store_store := by
    intro buffer span offset first second
    simp only [ranges]
    rw [← Nat.add_assoc, Memory.store_store]
  writable := by
    intro buffer wellFormed
    refine ⟨buffer.writableRanges.items, buffer, rfl, wellFormed, rfl, ?_⟩
    intro data fits
    have room : data.length ≤ buffer.writable := by
      simpa [ranges, writableRanges, RangeBuffer.space] using fits
    have bound := wellFormed.writePointer_le
    have writable_eq : writable (N := N)
        { buffer with data := buffer.data.store buffer.writePointer data } = buffer.writable := rfl
    refine ⟨_, ?_, ⟨?_, ?_⟩, content_store wellFormed data⟩
    · simp [ranges, writableRanges, RangeBuffer.fill, commit, writable_eq,
        List.take_of_length_le room, Nat.min_eq_left room]
    · exact Nat.le_add_right_of_le wellFormed.ordered
    · dsimp only
      unfold writable at room
      omega
  readable := by
    intro buffer _
    exact ⟨_, rfl, by simp [readableRanges, content]⟩
  discard := by
    intro buffer n wellFormed within
    rw [length_content] at within
    refine ⟨{ buffer with readPointer := buffer.readPointer + n }, ?_, ⟨?_, ?_⟩,
      content_advance within⟩
    · simp [ranges, discard, Nat.min_eq_left within]
    · have ordered := wellFormed.ordered
      unfold readable at within
      dsimp only
      omega
    · exact wellFormed.writePointer_le

end FixedBuffer

end SkAsync.Buffer

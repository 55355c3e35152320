import SkAsync.Channel.ReadWrite
import SkAsync.Library.Memory

/-!
# Memory channels

A channel over a block of memory, with one position for sequential reads and one
for sequential writes.  Over any run of reads and writes it is a file of bytes of
fixed length: every call transfers what lies between its position and the end, at
most the length of the span, and what is read is what was last written there.
-/

namespace SkAsync.Channel

open SkAsync.Library

/-- The error of the memory channel, `sk::error::end_of_file`. -/
inductive ChannelError
  | endOfFile
  deriving DecidableEq, Repr

/-- `memchannel_base`: the span `memory`, as the bytes from its start on and its size,
and the two positions. -/
structure MemChannel where
  memory : Memory UInt8
  size : Nat
  readPosition : Nat
  writePosition : Nat

namespace MemChannel

/-- A memory channel that was just opened. -/
def new (memory : Memory UInt8) (size : Nat) : MemChannel :=
  ⟨memory, size, 0, 0⟩

/-- What `read_some_at` and `write_some_at` do before they copy: the length of the span,
limited to what `memory.subspan(loc)` has room for. -/
def transferLength (channel : MemChannel) (loc length : Nat) : Except ChannelError Nat :=
  if channel.size < loc then .error .endOfFile
  else
    let omem := channel.size - loc
    let length := limited omem length
    if length = 0 then .error .endOfFile else .ok length

/-- `read_some_at` on a span of the given length: the bytes copied to its start. -/
def readSomeAt (channel : MemChannel) (loc length : Nat) : Except ChannelError (List UInt8) :=
  match channel.transferLength loc length with
  | .error error => .error error
  | .ok length => .ok (channel.memory.slice loc length)

/-- `write_some_at`. -/
def writeSomeAt (channel : MemChannel) (loc : Nat) (buf : List UInt8) :
    Except ChannelError Nat × MemChannel :=
  match channel.transferLength loc buf.length with
  | .error error => (.error error, channel)
  | .ok length =>
      (.ok length, { channel with memory := channel.memory.store loc (buf.take length) })

/-- `read_some`, on a span of the given length. -/
def readSome (channel : MemChannel) (length : Nat) :
    Except ChannelError (List UInt8) × MemChannel :=
  match channel.readSomeAt channel.readPosition length with
  | .error error => (.error error, channel)
  | .ok bytes =>
      (.ok bytes, { channel with readPosition := channel.readPosition + bytes.length })

/-- `write_some`. -/
def writeSome (channel : MemChannel) (buf : List UInt8) :
    Except ChannelError Nat × MemChannel :=
  match channel.writeSomeAt channel.writePosition buf with
  | (.error error, channel) => (.error error, channel)
  | (.ok count, channel) =>
      (.ok count, { channel with writePosition := channel.writePosition + count })

/-- The calls, each with the contents of its span. -/
inductive Op
  | readSome (buf : List UInt8)
  | writeSome (buf : List UInt8)
  | readSomeAt (loc : Nat) (buf : List UInt8)
  | writeSomeAt (loc : Nat) (buf : List UInt8)
  deriving DecidableEq, Repr

/-- The span of a call. -/
def Op.span : Op → List UInt8
  | .readSome buf => buf
  | .writeSome buf => buf
  | .readSomeAt _ buf => buf
  | .writeSomeAt _ buf => buf

/-- What a call returns, and the contents of its span afterwards. -/
structure Output where
  result : Except ChannelError Nat
  span : List UInt8

/-- What a read that copies bytes to the start of its span leaves for the caller. -/
def Output.ofRead (buf : List UInt8) : Except ChannelError (List UInt8) → Output
  | .error error => ⟨.error error, buf⟩
  | .ok bytes => ⟨.ok bytes.length, bytes ++ buf.drop bytes.length⟩

/-- One call. -/
def step (channel : MemChannel) : Op → Except Fault (Output × MemChannel)
  | .readSome buf =>
      let (result, channel) := channel.readSome buf.length
      .ok (.ofRead buf result, channel)
  | .writeSome buf =>
      let (result, channel) := channel.writeSome buf
      .ok (⟨result, buf⟩, channel)
  | .readSomeAt loc buf => .ok (.ofRead buf (channel.readSomeAt loc buf.length), channel)
  | .writeSomeAt loc buf =>
      let (result, channel) := channel.writeSomeAt loc buf
      .ok (⟨result, buf⟩, channel)

end MemChannel

/-! ## Files of fixed length -/

/-- A file of bytes: what it held at first, the blocks that were written since, the last
one first, and the two positions. -/
structure ByteFile where
  initial : Memory UInt8
  written : List (Nat × List UInt8)
  readPosition : Nat
  writePosition : Nat

namespace ByteFile

/-- A file that nothing was written to. -/
def new (initial : Memory UInt8) : ByteFile :=
  ⟨initial, [], 0, 0⟩

/-- The byte of the last block that covers an offset. -/
def lastOf (initial : Memory UInt8) : List (Nat × List UInt8) → Memory UInt8
  | [], offset => initial offset
  | (position, block) :: earlier, offset =>
      if inside : position ≤ offset ∧ offset < position + block.length then
        block.get ⟨offset - position, by omega⟩
      else
        lastOf initial earlier offset

/-- What was last written at each offset. -/
def lastWritten (file : ByteFile) : Memory UInt8 :=
  lastOf file.initial file.written

/-- The number of bytes a call transfers between a position and the end of the file. -/
def available (size position : Nat) (buf : List UInt8) : Nat :=
  min buf.length (size - position)

/-- What a call on a file of a given size may do.  Reads return what was last written;
sequential calls move their own position. -/
inductive Allows (size : Nat) :
    ByteFile → MemChannel.Op → MemChannel.Output → ByteFile → Prop
  | endOfRead {file : ByteFile} {buf : List UInt8} :
      available size file.readPosition buf = 0 →
      Allows size file (.readSome buf) ⟨.error .endOfFile, buf⟩ file
  | endOfWrite {file : ByteFile} {buf : List UInt8} :
      available size file.writePosition buf = 0 →
      Allows size file (.writeSome buf) ⟨.error .endOfFile, buf⟩ file
  | endOfReadAt {file : ByteFile} {loc : Nat} {buf : List UInt8} :
      available size loc buf = 0 →
      Allows size file (.readSomeAt loc buf) ⟨.error .endOfFile, buf⟩ file
  | endOfWriteAt {file : ByteFile} {loc : Nat} {buf : List UInt8} :
      available size loc buf = 0 →
      Allows size file (.writeSomeAt loc buf) ⟨.error .endOfFile, buf⟩ file
  | read {file : ByteFile} {buf : List UInt8} {k : Nat} :
      available size file.readPosition buf = k → 0 < k →
      Allows size file (.readSome buf)
        ⟨.ok k, file.lastWritten.slice file.readPosition k ++ buf.drop k⟩
        { file with readPosition := file.readPosition + k }
  | write {file : ByteFile} {buf : List UInt8} {k : Nat} :
      available size file.writePosition buf = k → 0 < k →
      Allows size file (.writeSome buf) ⟨.ok k, buf⟩
        { file with
          written := (file.writePosition, buf.take k) :: file.written
          writePosition := file.writePosition + k }
  | readAt {file : ByteFile} {loc : Nat} {buf : List UInt8} {k : Nat} :
      available size loc buf = k → 0 < k →
      Allows size file (.readSomeAt loc buf)
        ⟨.ok k, file.lastWritten.slice loc k ++ buf.drop k⟩ file
  | writeAt {file : ByteFile} {loc : Nat} {buf : List UInt8} {k : Nat} :
      available size loc buf = k → 0 < k →
      Allows size file (.writeSomeAt loc buf) ⟨.ok k, buf⟩
        { file with written := (loc, buf.take k) :: file.written }

/-- Writing a block is storing it. -/
theorem lastOf_cons (initial : Memory UInt8) (position : Nat) (block : List UInt8)
    (earlier : List (Nat × List UInt8)) :
    lastOf initial ((position, block) :: earlier) =
      (lastOf initial earlier).store position block := by
  funext offset
  rw [lastOf, Memory.store]
  split_ifs with inside before before
  · omega
  · rw [List.getElem?_eq_getElem (by omega), Option.getD_some]
    rfl
  · rfl
  · rw [List.getElem?_eq_none (by omega), Option.getD_none]

end ByteFile

namespace MemChannel

/-! ## Refinement -/

/-- The channel holds what was last written to the file, within the span it was given. -/
structure Represents (size : Nat) (channel : MemChannel) (file : ByteFile) : Prop where
  size_eq : channel.size = size
  memory_eq : channel.memory = file.lastWritten
  readPosition_eq : channel.readPosition = file.readPosition
  writePosition_eq : channel.writePosition = file.writePosition
  readPosition_le : channel.readPosition ≤ size
  writePosition_le : channel.writePosition ≤ size
  outside : ∀ offset, size ≤ offset → channel.memory offset = file.initial offset

theorem represents_new (memory : Memory UInt8) (size : Nat) :
    Represents size (new memory size) (.new memory) :=
  ⟨rfl, rfl, rfl, rfl, Nat.zero_le _, Nat.zero_le _, fun _ _ => rfl⟩

/-- The limits of the span and of the memory together leave the smaller of the two. -/
theorem transferLength_eq (channel : MemChannel) (loc : Nat) (buf : List UInt8) :
    channel.transferLength loc buf.length =
      if ByteFile.available channel.size loc buf = 0 then .error .endOfFile
      else .ok (ByteFile.available channel.size loc buf) := by
  have smaller : limited (channel.size - loc) buf.length =
      ByteFile.available channel.size loc buf := by
    unfold limited ByteFile.available
    split_ifs <;> omega
  unfold transferLength
  dsimp only
  rw [smaller]
  split_ifs with beyond nothing nothing
  · rfl
  · unfold ByteFile.available at nothing
    omega
  · rfl
  · rfl

/-- Reading returns what was last written. -/
theorem Represents.readSomeAt {size : Nat} {channel : MemChannel} {file : ByteFile}
    (represents : Represents size channel file) (loc : Nat) (buf : List UInt8) :
    channel.readSomeAt loc buf.length =
      if ByteFile.available size loc buf = 0 then .error .endOfFile
      else .ok (file.lastWritten.slice loc (ByteFile.available size loc buf)) := by
  unfold MemChannel.readSomeAt
  rw [transferLength_eq, represents.size_eq, represents.memory_eq]
  split_ifs
  · rfl
  · rfl

theorem Represents.writeSomeAt {size : Nat} {channel : MemChannel} {file : ByteFile}
    (represents : Represents size channel file) (loc : Nat) (buf : List UInt8) :
    channel.writeSomeAt loc buf =
      if ByteFile.available size loc buf = 0 then (.error .endOfFile, channel)
      else (.ok (ByteFile.available size loc buf),
        { channel with
          memory := channel.memory.store loc (buf.take (ByteFile.available size loc buf)) }) := by
  unfold MemChannel.writeSomeAt
  rw [transferLength_eq, represents.size_eq]
  split_ifs
  · rfl
  · rfl

/-- A block that is written inside the span is the last one at its place. -/
theorem Represents.store {size : Nat} {channel : MemChannel} {file : ByteFile}
    (represents : Represents size channel file) (loc : Nat) (buf : List UInt8) :
    Represents size
      { channel with
        memory := channel.memory.store loc (buf.take (ByteFile.available size loc buf)) }
      { file with
        written := (loc, buf.take (ByteFile.available size loc buf)) :: file.written } := by
  rcases represents with
    ⟨size_eq, memory_eq, readPosition_eq, writePosition_eq, read_le, write_le, outside⟩
  refine ⟨size_eq, ?_, readPosition_eq, writePosition_eq, read_le, write_le, ?_⟩
  · change channel.memory.store loc _ = ByteFile.lastOf file.initial _
    rw [ByteFile.lastOf_cons, memory_eq]
    rfl
  · intro offset beyond
    have inside : (buf.take (ByteFile.available size loc buf)).length ≤ size - loc := by
      rw [List.length_take, ByteFile.available]
      omega
    change channel.memory.store loc _ offset = file.initial offset
    rw [← outside offset beyond]
    rcases Nat.lt_or_ge offset loc with before | behind
    · exact Memory.store_of_outside _ (.inl before)
    · exact Memory.store_of_outside _ (.inr (by omega))

theorem Represents.moveRead {size : Nat} {channel : MemChannel} {file : ByteFile}
    (represents : Represents size channel file) {k : Nat} (inside : k ≤ size - file.readPosition) :
    Represents size { channel with readPosition := channel.readPosition + k }
      { file with readPosition := file.readPosition + k } := by
  rcases represents with
    ⟨size_eq, memory_eq, readPosition_eq, writePosition_eq, read_le, write_le, outside⟩
  refine ⟨size_eq, memory_eq, congrArg (· + k) readPosition_eq, writePosition_eq, ?_, write_le,
    outside⟩
  change channel.readPosition + k ≤ size
  omega

theorem Represents.moveWrite {size : Nat} {channel : MemChannel} {file : ByteFile}
    (represents : Represents size channel file) {k : Nat}
    (inside : k ≤ size - file.writePosition) :
    Represents size { channel with writePosition := channel.writePosition + k }
      { file with writePosition := file.writePosition + k } := by
  rcases represents with
    ⟨size_eq, memory_eq, readPosition_eq, writePosition_eq, read_le, write_le, outside⟩
  refine ⟨size_eq, memory_eq, readPosition_eq, congrArg (· + k) writePosition_eq, read_le, ?_,
    outside⟩
  change channel.writePosition + k ≤ size
  omega

theorem Represents.readSome {size : Nat} {channel : MemChannel} {file : ByteFile}
    (represents : Represents size channel file) (buf : List UInt8) :
    channel.readSome buf.length =
      if ByteFile.available size file.readPosition buf = 0 then (.error .endOfFile, channel)
      else
        (.ok (file.lastWritten.slice file.readPosition
            (ByteFile.available size file.readPosition buf)),
          { channel with
            readPosition :=
              channel.readPosition + ByteFile.available size file.readPosition buf }) := by
  unfold MemChannel.readSome
  rw [represents.readPosition_eq, represents.readSomeAt]
  split_ifs
  · rfl
  · dsimp only
    rw [Memory.length_slice]

theorem Represents.writeSome {size : Nat} {channel : MemChannel} {file : ByteFile}
    (represents : Represents size channel file) (buf : List UInt8) :
    channel.writeSome buf =
      if ByteFile.available size file.writePosition buf = 0 then (.error .endOfFile, channel)
      else
        (.ok (ByteFile.available size file.writePosition buf),
          { channel with
            memory := channel.memory.store file.writePosition
              (buf.take (ByteFile.available size file.writePosition buf))
            writePosition :=
              channel.writePosition + ByteFile.available size file.writePosition buf }) := by
  unfold MemChannel.writeSome
  rw [represents.writePosition_eq, represents.writeSomeAt]
  split_ifs
  · rfl
  · dsimp only
    rw [represents.writePosition_eq]

theorem ofRead_slice (buf : List UInt8) (memory : Memory UInt8) (loc k : Nat) :
    Output.ofRead buf (.ok (memory.slice loc k)) = ⟨.ok k, memory.slice loc k ++ buf.drop k⟩ := by
  rw [Output.ofRead, Memory.length_slice]

/-- Every call is one that the file allows. -/
theorem step_refines (size : Nat) :
    Refines step (ByteFile.Allows size) (Represents size) (fun _ _ => True) where
  step_refines := by
    intro channel file op represents _
    cases op with
    | readSome buf =>
        have called : step channel (.readSome buf) = .ok (.ofRead buf
            (channel.readSome buf.length).1, (channel.readSome buf.length).2) := rfl
        rw [called, represents.readSome]
        split_ifs with nothing
        · exact ⟨_, _, file, rfl, .endOfRead nothing, represents⟩
        · rw [ofRead_slice]
          exact ⟨_, _, _, rfl, .read rfl (Nat.pos_of_ne_zero nothing),
            represents.moveRead (Nat.min_le_right ..)⟩
    | writeSome buf =>
        have called : step channel (.writeSome buf) = .ok
            (⟨(channel.writeSome buf).1, buf⟩, (channel.writeSome buf).2) := rfl
        rw [called, represents.writeSome]
        split_ifs with nothing
        · exact ⟨_, _, file, rfl, .endOfWrite nothing, represents⟩
        · exact ⟨_, _, _, rfl, .write rfl (Nat.pos_of_ne_zero nothing),
            (represents.store file.writePosition buf).moveWrite (Nat.min_le_right ..)⟩
    | readSomeAt loc buf =>
        have called : step channel (.readSomeAt loc buf) = .ok
            (.ofRead buf (channel.readSomeAt loc buf.length), channel) := rfl
        rw [called, represents.readSomeAt]
        split_ifs with nothing
        · exact ⟨_, _, file, rfl, .endOfReadAt nothing, represents⟩
        · rw [ofRead_slice]
          exact ⟨_, _, file, rfl, .readAt rfl (Nat.pos_of_ne_zero nothing), represents⟩
    | writeSomeAt loc buf =>
        have called : step channel (.writeSomeAt loc buf) = .ok
            (⟨(channel.writeSomeAt loc buf).1, buf⟩, (channel.writeSomeAt loc buf).2) := rfl
        rw [called, represents.writeSomeAt]
        split_ifs with nothing
        · exact ⟨_, _, file, rfl, .endOfWriteAt nothing, represents⟩
        · exact ⟨_, _, _, rfl, .writeAt rfl (Nat.pos_of_ne_zero nothing),
            represents.store loc buf⟩

/-- Over any run a memory channel is a file of fixed length: what its calls return is what
the file allows, it holds what was last written, the positions are those of the file and
stay inside it, and nothing outside the span is changed. -/
theorem run_behaves_as_file (memory : Memory UInt8) (size : Nat) (ops : List Op) :
    ∃ outs final file, run step (new memory size) ops = .ok (outs, final) ∧
      Trace (ByteFile.Allows size) (.new memory) ops outs file ∧
      Represents size final file :=
  (step_refines size).run (represents_new memory size) (guarded_true step _ ops)

end MemChannel

end SkAsync.Channel

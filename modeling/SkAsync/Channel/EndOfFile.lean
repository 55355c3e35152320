import SkAsync.Buffer.Circular.Commit
import SkAsync.Buffer.Fixed
import SkAsync.Channel.MemChannel

/-!
# The end of a memory channel

A memory channel answers a read on an empty span by `end_of_file`, wherever its
position is.  `read_some` passes on an empty span if the limit is zero and if the
destination presents an empty range for having no room, as a contiguous range and a
`fixed_buffer` do.  A `circular_buffer` without room presents no range, and then the
channel is not asked.
-/

namespace SkAsync.Channel

open SkAsync.Buffer
open SkAsync.Library

/-- `read_some(channel, range, n)`, on a contiguous range of the given length. -/
def readSomeRange {α ε : Type} (source : Source α ε) (n length : Nat) (channel : source.State) :
    Except ε (List α) × source.State :=
  source.readSome channel (limited n length)

namespace MemChannel

theorem limited_eq_min (n size : Nat) : limited n size = min n size := by
  unfold limited
  split_ifs <;> omega

/-- How many bytes are transferred, and when none are. -/
theorem readSomeAt_eq (channel : MemChannel) (loc length : Nat) :
    channel.readSomeAt loc length =
      if min length (channel.size - loc) = 0 then .error .endOfFile
      else .ok (channel.memory.slice loc (min length (channel.size - loc))) := by
  have span := transferLength_eq channel loc (List.replicate length 0)
  rw [List.length_replicate, ByteFile.available, List.length_replicate] at span
  unfold readSomeAt
  rw [span]
  split_ifs
  · rfl
  · rfl

theorem readSome_fst (channel : MemChannel) (length : Nat) :
    (channel.readSome length).1 = channel.readSomeAt channel.readPosition length := by
  unfold readSome
  cases channel.readSomeAt channel.readPosition length with
  | error error => rfl
  | ok bytes => rfl

theorem readSome_eq_ok {channel : MemChannel} {length : Nat} {bytes : List UInt8}
    (transferred : (channel.readSome length).1 = .ok bytes) :
    bytes.length ≤ length ∧ 0 < bytes.length := by
  rw [readSome_fst, readSomeAt_eq] at transferred
  split_ifs at transferred with nothing
  cases transferred
  rw [Memory.length_slice]
  exact ⟨Nat.min_le_left .., Nat.pos_of_ne_zero nothing⟩

/-- A memory channel as a channel that can be read from sequentially. -/
def source : Source UInt8 ChannelError where
  State := MemChannel
  readSome := readSome
  length_le transferred := (readSome_eq_ok transferred).1
  progress _ transferred := (readSome_eq_ok transferred).2

/-- The end is reported for an empty span, too. -/
theorem readSome_eq_endOfFile_iff {channel : MemChannel} {length : Nat}
    (inside : channel.readPosition ≤ channel.size) :
    (channel.readSome length).1 = .error .endOfFile ↔
      channel.readPosition = channel.size ∨ length = 0 := by
  rw [readSome_fst, readSomeAt_eq]
  split_ifs with nothing
  · exact iff_of_true rfl (by omega)
  · exact iff_of_false (by simp) (by omega)

end MemChannel

/-! ## Destinations -/

/-- What `read_some` reads to: a contiguous range, of which the length matters, or a
buffer. -/
inductive Destination (N M : Nat)
  | range (length : Nat)
  | fixedBuffer (buffer : FixedBuffer UInt8 N)
  | circularBuffer (buffer : CircularBuffer UInt8 M)

namespace Destination

variable {N M : Nat}

/-- `read_some(channel, destination, n)` on a memory channel: what it returns. -/
def readSome (build : Build) (channel : MemChannel) (n : Nat) :
    Destination N M → Except Fault (Except ChannelError Nat)
  | .range length =>
      .ok ((readSomeRange MemChannel.source n length channel).1.map List.length)
  | .fixedBuffer buffer => do
      let (result, _) ← Channel.readSome MemChannel.source FixedBuffer.ranges n channel buffer
      pure result
  | .circularBuffer buffer => do
      let (result, _) ←
        Channel.readSome MemChannel.source (CircularBuffer.ranges build) n channel buffer
      pure result

/-- A range and a `fixed_buffer` are arbitrary; a `circular_buffer` is in a state that some
run leads to, of any calls but commits that leave the array. -/
def Reachable (build : Build) : Destination N M → Prop
  | .range _ => True
  | .fixedBuffer _ => True
  | .circularBuffer buffer => ∃ storage ops outs,
      Guarded (CircularBuffer.rangeStep build) (CircularBuffer.InsideStep build)
        (CircularBuffer.new storage : CircularBuffer UInt8 M) ops ∧
      run (CircularBuffer.rangeStep build) (CircularBuffer.new storage) ops = .ok (outs, buffer)

/-- The space of a destination. -/
def room : Destination N M → Nat
  | .range length => length
  | .fixedBuffer buffer => buffer.writable
  | .circularBuffer buffer => buffer.free

/-- Only a `circular_buffer` has no range to offer when it has no room. -/
def WithoutRange : Destination N M → Prop
  | .range _ => False
  | .fixedBuffer _ => False
  | .circularBuffer buffer => buffer.free = 0

/-- A destination that offers a range passes on the answer of the channel. -/
theorem readSome_of_cons {β ρ : Type} {ops : RangeBuffer β ρ UInt8} (channel : MemChannel)
    (n : Nat) {buffer next : β} {first : ρ} {ranges : List ρ}
    (offered : ops.writableRanges buffer = .ok (first :: ranges, next))
    (commits : ∀ bytes : List UInt8, bytes.length ≤ ops.size first → ∃ count final,
      ops.commit (ops.store next first 0 bytes) bytes.length = .ok (count, final)) :
    ∃ result rest, Channel.readSome MemChannel.source ops n channel buffer = .ok (result, rest) ∧
      (result = .error .endOfFile ↔
        (channel.readSome (limited n (ops.size first))).1 = .error .endOfFile) := by
  have called : MemChannel.source.readSome = MemChannel.readSome := rfl
  unfold Channel.readSome
  rw [offered, ok_bind]
  dsimp only
  rw [called]
  rcases answered : channel.readSome (limited n (ops.size first)) with ⟨answer, channel'⟩
  cases answer with
  | error error =>
      cases error
      exact ⟨_, _, rfl, iff_of_true rfl rfl⟩
  | ok bytes =>
      have length_le := (MemChannel.readSome_eq_ok (congrArg Prod.fst answered)).1
      rcases commits bytes (length_le.trans (limited_le_right ..)) with ⟨count, final, committed⟩
      dsimp only
      rw [committed]
      exact ⟨_, _, rfl, by simp⟩

/-- A destination without ranges does not ask the channel. -/
theorem readSome_of_nil {β ρ : Type} {ops : RangeBuffer β ρ UInt8} {channel : MemChannel}
    {buffer next : β} {n : Nat} (offered : ops.writableRanges buffer = .ok ([], next)) :
    Channel.readSome MemChannel.source ops n channel buffer = .ok (.ok 0, channel, next) := by
  unfold Channel.readSome
  rw [offered]
  rfl

/-- What is offered by a ring: nothing if it is full, else a range with room. -/
theorem circularBuffer_offers (build : Build) {buffer : CircularBuffer UInt8 M}
    (wellFormed : buffer.WellFormed) :
    ∃ spans, (CircularBuffer.ranges build).writableRanges buffer = .ok (spans, buffer) ∧
      (spans = [] ↔ buffer.free = 0) ∧ ∀ span ∈ spans, 0 < span.size := by
  rcases CircularBuffer.writesInPlace build wellFormed with
    ⟨spans, offered, _, nonempty, _, space, _⟩
  refine ⟨spans.items, ?_, ?_, nonempty⟩
  · change (buffer.writableRanges build >>= fun spans => pure (spans.items, buffer)) = _
    rw [offered]
    rfl
  · rw [← space]
    constructor
    · intro empty
      rw [empty]
      rfl
    · intro nothing
      cases items : spans.items with
      | nil => rfl
      | cons first rest =>
          have positive := nonempty first (items ▸ List.mem_cons_self)
          rw [items, List.map_cons, List.sum_cons] at nothing
          omega

/-- What fits in the first range of a ring is committed. -/
theorem circularBuffer_commits (build : Build) {buffer : CircularBuffer UInt8 M}
    (wellFormed : buffer.WellFormed) {first : Span} {spans : List Span}
    (offered : (CircularBuffer.ranges build).writableRanges buffer = .ok (first :: spans, buffer))
    {bytes : List UInt8} (fits : bytes.length ≤ first.size) :
    ∃ count final, (CircularBuffer.ranges build).commit
      ((CircularBuffer.ranges build).store buffer first 0 bytes) bytes.length =
        .ok (count, final) := by
  have lawful := CircularBuffer.ranges_lawful (α := UInt8) (N := M) build
  rcases lawful.writable buffer wellFormed with ⟨ranges, next, offered', _, _, commits⟩
  rw [offered] at offered'
  cases offered'
  rcases commits bytes (fits.trans (Nat.le_add_right ..)) with ⟨final, committed, _⟩
  rw [lawful.fill_cons_of_le buffer spans fits] at committed
  exact ⟨_, final, committed⟩

/-- The answer for a span that is limited, in terms of the limit and the space. -/
theorem limited_endOfFile_iff {channel : MemChannel} (inside : channel.readPosition ≤ channel.size)
    (n size : Nat) :
    (channel.readSome (limited n size)).1 = .error .endOfFile ↔
      channel.readPosition = channel.size ∨ n = 0 ∨ size = 0 := by
  rw [MemChannel.readSome_eq_endOfFile_iff inside, MemChannel.limited_eq_min]
  omega

/-- `read_some` reports the end exactly if the destination offers a range, and the channel
is at its end, the limit is zero or there is no room. -/
theorem readSome_endOfFile_iff {build : Build} {channel : MemChannel} (n : Nat)
    {destination : Destination N M} (inside : channel.readPosition ≤ channel.size)
    (reachable : destination.Reachable build) :
    ∃ result, destination.readSome build channel n = .ok result ∧
      (result = .error .endOfFile ↔ ¬ destination.WithoutRange ∧
        (channel.readPosition = channel.size ∨ n = 0 ∨ destination.room = 0)) := by
  cases destination with
  | range length =>
      refine ⟨_, rfl, ?_⟩
      have answer := limited_endOfFile_iff inside n length
      change ((channel.readSome (limited n length)).1.map List.length = _) ↔
        ¬ False ∧ (_ ∨ _ ∨ length = 0)
      rw [← answer]
      cases (channel.readSome (limited n length)).1 with
      | error error => simp [Except.map]
      | ok bytes => simp [Except.map]
  | fixedBuffer buffer =>
      have offered : FixedBuffer.ranges.writableRanges buffer =
          .ok ([⟨buffer.writePointer, buffer.writable⟩], buffer) := rfl
      rcases readSome_of_cons channel n offered (fun bytes _ => ⟨_, _, rfl⟩) with
        ⟨result, rest, read, answer⟩
      refine ⟨result, ?_, answer.trans ?_⟩
      · rw [Destination.readSome, read]
        rfl
      · rw [limited_endOfFile_iff inside]
        exact (and_iff_right id).symm
  | circularBuffer buffer =>
      rcases reachable with ⟨storage, ops, outs, guarded, ran⟩
      have wellFormed := (exists_run_iff ran CircularBuffer.WellFormed).mp
        (guarded.exists_run CircularBuffer.exists_rangeStep
          (CircularBuffer.wellFormed_new storage))
      rcases circularBuffer_offers build wellFormed with ⟨spans, offered, full, nonempty⟩
      cases spans with
      | nil =>
          refine ⟨.ok 0, ?_, iff_of_false (by simp) (fun both => both.1 (full.mp rfl))⟩
          rw [Destination.readSome, readSome_of_nil offered]
          rfl
      | cons first spans =>
          rcases readSome_of_cons channel n offered
            (fun bytes => circularBuffer_commits build wellFormed offered) with
            ⟨result, rest, read, answer⟩
          have notFull : buffer.free ≠ 0 := fun isFull => by
            cases full.mpr isFull
          have positive : first.size ≠ 0 :=
            Nat.ne_of_gt (nonempty first List.mem_cons_self)
          refine ⟨result, ?_, answer.trans ?_⟩
          · rw [Destination.readSome, read]
            rfl
          · change (channel.readSome (limited n first.size)).1 = _ ↔
              ¬ buffer.free = 0 ∧ (_ ∨ _ ∨ buffer.free = 0)
            rw [limited_endOfFile_iff inside]
            simp [notFull, positive]

/-- `read_some` completes, and reports the end only at the end of the channel, exactly if
the channel is at its end, or there is a limit to reach and room for it, or the destination
is a full ring. -/
theorem readSome_endOfFile_only_iff {build : Build} {channel : MemChannel} (n : Nat)
    {destination : Destination N M} (inside : channel.readPosition ≤ channel.size)
    (reachable : destination.Reachable build) :
    ∃ result, destination.readSome build channel n = .ok result ∧
      ((result = .error .endOfFile → channel.readPosition = channel.size) ↔
        channel.readPosition = channel.size ∨ (0 < n ∧ 0 < destination.room) ∨
          destination.WithoutRange) := by
  rcases readSome_endOfFile_iff n inside reachable with ⟨result, read, reported⟩
  refine ⟨result, read, ?_⟩
  rw [reported]
  by_cases withoutRange : destination.WithoutRange
  · exact iff_of_true (fun both => absurd withoutRange both.1) (.inr (.inr withoutRange))
  · constructor
    · intro only
      by_cases atEnd : channel.readPosition = channel.size
      · exact .inl atEnd
      · right
        left
        constructor
        · exact Nat.pos_of_ne_zero fun isZero =>
            atEnd (only ⟨withoutRange, .inr (.inl isZero)⟩)
        · exact Nat.pos_of_ne_zero fun isZero =>
            atEnd (only ⟨withoutRange, .inr (.inr isZero)⟩)
    · rintro (atEnd | ⟨limit, space⟩ | impossible) ⟨_, atEnd' | isZero | isZero⟩
      · exact atEnd
      · exact atEnd
      · exact atEnd
      · exact atEnd'
      · exact absurd isZero (Nat.ne_of_gt limit)
      · exact absurd isZero (Nat.ne_of_gt space)
      · exact absurd impossible withoutRange
      · exact absurd impossible withoutRange
      · exact absurd impossible withoutRange

/-- A `fixed_buffer` of one byte that was written to. -/
def fullFixedBuffer : FixedBuffer UInt8 1 :=
  ((FixedBuffer.new fun _ => 0 : FixedBuffer UInt8 1).write [5]).2

theorem readSome_endOfFile_only_iff_of_room :
    ∃ result, readSome .debug (MemChannel.new (fun _ => 7) 2) 1
        (.fixedBuffer (.new fun _ => 0) : Destination 1 1) = .ok result ∧
      ((result = .error .endOfFile → (0 : Nat) = 2) ↔
        (0 : Nat) = 2 ∨ (0 < 1 ∧ 0 < (.fixedBuffer (.new fun _ => 0) : Destination 1 1).room) ∨
          (.fixedBuffer (.new fun _ => 0) : Destination 1 1).WithoutRange) :=
  readSome_endOfFile_only_iff 1 (by decide) trivial

/-- A full `fixed_buffer` is told that the file has ended, with two bytes left. -/
theorem not_readSome_endOfFile_only_of_full :
    ¬ ∀ (N M : Nat) (build : Build) (channel : MemChannel) (n : Nat)
      (destination : Destination N M), channel.readPosition ≤ channel.size →
        destination.Reachable build →
          destination.readSome build channel n = .ok (.error .endOfFile) →
            channel.readPosition = channel.size := by
  intro only
  have atEnd := only 1 1 .debug (MemChannel.new (fun _ => 7) 2) 1 (.fixedBuffer fullFixedBuffer)
    (by decide) trivial rfl
  cases atEnd

end Destination

end SkAsync.Channel

import SkAsync.Library.Memory
import SkAsync.Net.Inet
import SkAsync.StaticVector

/-!
# `inet6_family::from_string`

One loop reads the segments of an IPv6 literal into two vectors, one for the
segments before an empty segment and one for those after it.  The counter `n`
counts segments and the empty segment alike; here the loop runs on the number
of iterations left, `8 - n`.

Segments are kept as the 16-bit numbers the source stores, whose bytes in
memory are the bytes of the address on a little-endian host.
-/

namespace SkAsync.Net.Inet6

open SkAsync.Library

/-- `':'`. -/
abbrev colon : UInt8 := 58

/-- The largest segment. -/
abbrev segmentMax : Nat := 65535

/-- The two vectors of segments and which of them `cur` points to. -/
structure Segments where
  startSegments : StaticVector Nat 8
  endSegments : StaticVector Nat 8
  inEnd : Bool

namespace Segments

/-- Both vectors are empty and `cur` points to `start`. -/
def new : Segments :=
  ⟨.empty, .empty, false⟩

/-- `cur->push_back(segment)`. -/
def pushBack (build : Build) (segments : Segments) (segment : Nat) : Except Fault Segments :=
  if segments.inEnd then do
    let pushed ← segments.endSegments.pushBack build segment
    pure { segments with endSegments := pushed }
  else do
    let pushed ← segments.startSegments.pushBack build segment
    pure { segments with startSegments := pushed }

end Segments

/-- `(seg << 8) | (seg >> 8)`, as a `uint16_t`. -/
def swap (seg : Nat) : Nat :=
  ((seg <<< 8) ||| (seg >>> 8)) % 65536

/-- `bytes[high] << 8 | bytes[low]`, as a `uint16_t`. -/
def join (high low : UInt8) : Nat :=
  (high.toNat <<< 8 ||| low.toNat) % 65536

/-- The bytes of a `uint16_t` in memory. -/
def segmentBytes (segment : Nat) : Text :=
  [UInt8.ofNat (segment % 256), UInt8.ofNat (segment / 256)]

/-- The segments of the two halves of an IPv4 address. -/
def v4Segments (v4 : Address 4) : Nat × Nat :=
  (join (v4.get 1) (v4.get 0), join (v4.get 3) (v4.get 2))

/-- What is left of an iteration once the embedded IPv4 address was ruled out:
the empty segment, or a segment and the colon after it. -/
inductive Step
  /-- Leave the loop with this text unread. -/
  | done (segments : Segments) (rest : Text)
  /-- Go on with the next iteration. -/
  | next (segments : Segments) (rest : Text)

/-- The body of the loop after the test for an IPv4 address. -/
def segmentStep (build : Build) (segments : Segments) (s : Text) :
    Except Fault (Except AddressError Step) :=
  match s with
  | [] =>
      if segments.inEnd then .ok (.ok (.done segments []))
      else .ok (.error .invalidAddressFormat)
  | c :: rest =>
      if c = colon then
        if segments.inEnd then .ok (.error .invalidAddressFormat)
        else .ok (.ok (.next { segments with inEnd := true } rest))
      else
        match spanNumber segmentMax 16 (c :: rest) with
        | (none, _) => .ok (.error .invalidAddressFormat)
        | (some seg, after) => do
            let segments ← segments.pushBack build (swap seg)
            match after with
            | [] => pure (.ok (.done segments []))
            | c :: rest =>
                if c = colon then pure (.ok (.next segments rest))
                else pure (.error .invalidAddressFormat)

/-- The IPv4 address that the rest of the text is, looked for with `left`
iterations left.  The counter `n` is `8 - left` and has to be from 1 to 6. -/
def embedded (left : Nat) (s : Text) : Except AddressError (Address 4) :=
  if 2 ≤ left ∧ left ≤ 7 then Inet.fromString s else .error .invalidAddressFormat

/-- The loop of `from_string`, with `left` iterations left. -/
def parseLoop (build : Build) : (left : Nat) → Segments → Text →
    Except Fault (Except AddressError (Segments × Text))
  | 0, segments, s => .ok (.ok (segments, s))
  | left + 1, segments, s => do
      match embedded (left + 1) s with
      | .ok v4 =>
          let (first, second) := v4Segments v4
          let segments ← segments.pushBack build first
          let segments ← segments.pushBack build second
          pure (.ok (segments, []))
      | .error _ =>
          match ← segmentStep build segments s with
          | .error error => pure (.error error)
          | .ok (.done segments rest) => pure (.ok (segments, rest))
          | .ok (.next segments rest) => parseLoop build left segments rest

/-- The start of `from_string`: a leading `::` is skipped and counts as one iteration. -/
def parse (build : Build) (s : Text) : Except Fault (Except AddressError (Segments × Text)) :=
  match s with
  | first :: second :: rest =>
      if first = colon ∧ second = colon then
        parseLoop build 7 { Segments.new with inEnd := true } rest
      else
        parseLoop build 8 .new s
  | _ => parseLoop build 8 .new s

/-- The copies into the address: `start` at its beginning, `end` at its end. -/
def assemble (segments : Segments) : Address 16 :=
  let startBytes := segments.startSegments.items.flatMap segmentBytes
  let endBytes := segments.endSegments.items.flatMap segmentBytes
  let zero : Memory UInt8 := fun _ => 0
  ⟨((zero.store 0 startBytes).store (16 - segments.endSegments.items.length * 2) endBytes).slice
    0 16, Memory.length_slice ..⟩

/-- `inet6_family::from_string`. -/
def fromString (build : Build) (s : Text) : Except Fault (Except AddressError (Address 16)) := do
  match ← parse build s with
  | .error error => pure (.error error)
  | .ok (segments, rest) =>
      if rest = [] then pure (.ok (assemble segments))
      else pure (.error .invalidAddressFormat)

end SkAsync.Net.Inet6

import SkAsync.Buffer.Range
import SkAsync.Channel.Core

/-!
# `read_some`, `read_all`, `write_some` and `write_all`

The functions that move elements between a channel and a buffer.  The `*_all`
functions work through the ranges of the buffer in turn with a shrinking limit
and settle the buffer by a single `commit` or `discard` at the end, so what
they do when a call fails in the middle of a range matters.

`async_write_some` is the function modelled for single writes; `async_read_some`,
`async_read_all` and `async_write_all` run the same statements with `co_await`.
-/

namespace SkAsync.Channel

open SkAsync.Buffer
open SkAsync.Library

variable {α β ρ ε : Type}

/-- `if (n < span.size()) span = span.first(n)`, for the length of the span. -/
def limited (n size : Nat) : Nat :=
  if n < size then n else size

theorem limited_le_left (n size : Nat) : limited n size ≤ n := by
  unfold limited
  split <;> omega

theorem limited_le_right (n size : Nat) : limited n size ≤ size := by
  unfold limited
  split <;> omega

/-- `read_some(channel, buffer, n)`. -/
def readSome (source : Source α ε) (ops : RangeBuffer β ρ α) (n : Nat)
    (channel : source.State) (buffer : β) :
    Except Fault (Except ε Nat × source.State × β) := do
  let (ranges, buffer) ← ops.writableRanges buffer
  match ranges with
  | [] => pure (.ok 0, channel, buffer)
  | firstRange :: _ =>
      match source.readSome channel (limited n (ops.size firstRange)) with
      | (.error error, channel) => pure (.error error, channel, buffer)
      | (.ok elements, channel) => do
          let (_, buffer) ← ops.commit (ops.store buffer firstRange 0 elements) elements.length
          pure (.ok elements.length, channel, buffer)

/-- The loop of `read_all(channel, range, n)` over what is left of the range.
Every call transfers something, so `fuel` of the length of the span suffices. -/
def readAllLoop (source : Source α ε) (ops : RangeBuffer β ρ α) (range : ρ) :
    (fuel : Nat) → (nread left : Nat) → source.State → β →
      Except Fault ((Nat × Option ε) × source.State × β)
  | fuel, nread, left, channel, buffer =>
      if left = 0 then
        .ok ((nread, none), channel, buffer)
      else
        match fuel with
        | 0 => .error .diverged
        | fuel + 1 =>
            match source.readSome channel left with
            | (.error error, channel) => .ok ((nread, some error), channel, buffer)
            | (.ok elements, channel) =>
                readAllLoop source ops range fuel (nread + elements.length)
                  (left - elements.length) channel (ops.store buffer range nread elements)

/-- `read_all(channel, range, n)`. -/
def readAllRange (source : Source α ε) (ops : RangeBuffer β ρ α) (range : ρ) (n : Nat)
    (channel : source.State) (buffer : β) :
    Except Fault ((Nat × Option ε) × source.State × β) :=
  let span := limited n (ops.size range)
  readAllLoop source ops range span 0 span channel buffer

/-- The loop of `read_all(channel, buffer, n)` over the writable ranges.  `last`
is the error code of the previous range. -/
def readAllRanges (source : Source α ε) (ops : RangeBuffer β ρ α) (n : Nat) :
    List ρ → (nread : Nat) → (last : Option ε) → source.State → β →
      Except Fault ((Nat × Option ε) × source.State × β)
  | [], nread, last, channel, buffer => .ok ((nread, last), channel, buffer)
  | range :: ranges, nread, _, channel, buffer => do
      let ((first, second), channel, buffer) ←
        readAllRange source ops range (n - nread) channel buffer
      if first = 0 ∨ second.isSome ∨ nread + first = n then
        pure ((nread + first, second), channel, buffer)
      else
        readAllRanges source ops n ranges (nread + first) second channel buffer

/-- `read_all(channel, buffer, n)`. -/
def readAll (source : Source α ε) (ops : RangeBuffer β ρ α) (n : Nat)
    (channel : source.State) (buffer : β) :
    Except Fault ((Nat × Option ε) × source.State × β) := do
  let (ranges, buffer) ← ops.writableRanges buffer
  let ((nread, error), channel, buffer) ← readAllRanges source ops n ranges 0 none channel buffer
  let (_, buffer) ← ops.commit buffer nread
  pure ((nread, error), channel, buffer)

/-- `async_write_some(channel, buffer, n)`. -/
def asyncWriteSome (sink : Sink α ε) (ops : RangeBuffer β ρ α) (n : Nat)
    (channel : sink.State) (buffer : β) :
    Except Fault (Except ε Nat × sink.State × β) := do
  let ranges ← ops.readableRanges buffer
  match ranges with
  | [] => pure (.ok 0, channel, buffer)
  | firstRange :: _ =>
      match sink.writeSome channel (firstRange.take (limited n firstRange.length)) with
      | (.error error, channel) => pure (.error error, channel, buffer)
      | (.ok nwritten, channel) => do
          let (_, buffer) ← ops.discard buffer nwritten
          pure (.ok nwritten, channel, buffer)

/-- The loop of `write_all(channel, range, n)` over what is left of the span. -/
def writeAllLoop (sink : Sink α ε) :
    (fuel : Nat) → (nwritten : Nat) → (span : List α) → sink.State →
      Except Fault ((Nat × Option ε) × sink.State)
  | fuel, nwritten, span, channel =>
      if span.length = 0 then
        .ok ((nwritten, none), channel)
      else
        match fuel with
        | 0 => .error .diverged
        | fuel + 1 =>
            match sink.writeSome channel span with
            | (.error error, channel) => .ok ((nwritten, some error), channel)
            | (.ok count, channel) =>
                writeAllLoop sink fuel (nwritten + count) (span.drop count) channel

/-- `write_all(channel, range, n)`. -/
def writeAllRange (sink : Sink α ε) (range : List α) (n : Nat) (channel : sink.State) :
    Except Fault ((Nat × Option ε) × sink.State) :=
  let span := range.take (limited n range.length)
  writeAllLoop sink span.length 0 span channel

/-- The loop of `write_all(channel, buffer, n)` over the readable ranges. -/
def writeAllRanges (sink : Sink α ε) (n : Nat) :
    List (List α) → (nwritten : Nat) → (last : Option ε) → sink.State →
      Except Fault ((Nat × Option ε) × sink.State)
  | [], nwritten, last, channel => .ok ((nwritten, last), channel)
  | range :: ranges, nwritten, _, channel => do
      let ((first, second), channel) ← writeAllRange sink range (n - nwritten) channel
      if first = 0 ∨ second.isSome ∨ nwritten + first = n then
        pure ((nwritten + first, second), channel)
      else
        writeAllRanges sink n ranges (nwritten + first) second channel

/-- `write_all(channel, buffer, n)`. -/
def writeAll (sink : Sink α ε) (ops : RangeBuffer β ρ α) (n : Nat)
    (channel : sink.State) (buffer : β) :
    Except Fault ((Nat × Option ε) × sink.State × β) := do
  let ranges ← ops.readableRanges buffer
  let ((nwritten, error), channel) ← writeAllRanges sink n ranges 0 none channel
  let (_, buffer) ← ops.discard buffer nwritten
  pure ((nwritten, error), channel, buffer)

end SkAsync.Channel

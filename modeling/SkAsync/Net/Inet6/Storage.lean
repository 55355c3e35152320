import SkAsync.Net.Inet6.Soundness
import Mathlib.Data.List.Lattice

/-!
# The segments fit into their vectors

`from_string` pushes segments without looking at the vectors.  What keeps it
inside them is the counter of its loop: an iteration stores at most one segment,
the empty segment takes an iteration as well, and an IPv4 address, which stores
two segments and ends the loop, is only looked for with two iterations left.  So
the segments stored, the empty segment and the iterations left are never more
than eight, whatever the text is.
-/

namespace SkAsync.Net.Inet6

open SkAsync.Library

/-- The segments stored so far, and the empty segment if there was one. -/
def Segments.count (segments : Segments) : Nat :=
  segments.startSegments.items.length + segments.endSegments.items.length +
    if segments.inEnd then 1 else 0

/-- What an iteration leaves in the vectors. -/
def Step.segments : Step → Segments
  | .done segments _ => segments
  | .next segments _ => segments

theorem Appends.count_eq {segments final : Segments} {values : List Nat}
    (appends : Appends segments final values) : final.count = segments.count + values.length := by
  unfold Segments.count
  rw [appends.inEnd_eq, appends.start_items, appends.end_items]
  cases segments.inEnd with
  | false =>
      simp only [Bool.false_eq_true, if_false, List.append_nil, List.length_append]
      omega
  | true =>
      simp only [if_true, List.append_nil, List.length_append]
      omega

theorem room_of_count {segments : Segments} {left : Nat} (fits : segments.count + left ≤ 8) :
    Room segments left := by
  unfold Segments.count at fits
  constructor
  · omega
  · omega

/-- With an iteration left there is room for a segment. -/
theorem exists_pushBack_of_count (build : Build) {segments : Segments} {left : Nat} (value : Nat)
    (fits : segments.count + (left + 1) ≤ 8) :
    ∃ pushed, segments.pushBack build value = .ok pushed ∧ pushed.count = segments.count + 1 := by
  rcases exists_pushBack build value (room_of_count fits) with ⟨pushed, pushed_eq, appends, _⟩
  exact ⟨pushed, pushed_eq, appends.count_eq⟩

/-- An iteration runs through, also where it finds an error. -/
theorem exists_segmentStep (build : Build) {segments : Segments} {left : Nat} (s : Text)
    (fits : segments.count + (left + 1) ≤ 8) :
    ∃ outcome, segmentStep build segments s = .ok outcome := by
  unfold segmentStep
  cases s with
  | nil =>
      dsimp only
      split
      · exact ⟨_, rfl⟩
      · exact ⟨_, rfl⟩
  | cons c rest =>
      dsimp only
      split
      · split
        · exact ⟨_, rfl⟩
        · exact ⟨_, rfl⟩
      · split
        · exact ⟨_, rfl⟩
        · rename_i seg after _
          rcases exists_pushBack_of_count build (swap seg) fits with ⟨pushed, pushed_eq, _⟩
          rw [pushed_eq, ok_bind]
          cases after with
          | nil => exact ⟨_, rfl⟩
          | cons c' rest' =>
              dsimp only
              split
              · exact ⟨_, rfl⟩
              · exact ⟨_, rfl⟩

/-- An iteration stores a segment or passes the empty segment, but not both. -/
theorem count_segmentStep {build : Build} {segments : Segments} {s : Text} {step : Step}
    (stepped : segmentStep build segments s = .ok (.ok step)) :
    step.segments.count ≤ segments.count + 1 := by
  rcases (segmentStep_eq_ok_iff build).mp stepped with
    ⟨_, _, rfl⟩ | ⟨_, _, notInEnd, rfl⟩ | ⟨_, _, _, pushed_eq, rfl⟩ |
    ⟨_, _, _, _, _, _, pushed_eq, rfl⟩
  · exact Nat.le_succ _
  · simp [Step.segments, Segments.count, notInEnd]
  · exact (appends_of_pushBack pushed_eq).count_eq.le
  · exact (appends_of_pushBack pushed_eq).count_eq.le

/-- If a text was read, the vectors count for no more than a bound. -/
def Within (bound : Nat) : Except AddressError (Segments × Text) → Prop
  | .error _ => True
  | .ok (final, _) => final.count ≤ bound

theorem Within.mono {bound bound' : Nat} {outcome : Except AddressError (Segments × Text)}
    (within : Within bound outcome) (le : bound ≤ bound') : Within bound' outcome := by
  cases outcome with
  | error error => trivial
  | ok pair => exact Nat.le_trans within le

/-- The loop runs through on every text, and stores no more than it has iterations for. -/
theorem parseLoop_count (build : Build) {left : Nat} {segments : Segments} (s : Text)
    (fits : segments.count + left ≤ 8) :
    ∃ outcome, parseLoop build left segments s = .ok outcome ∧
      Within (segments.count + left) outcome := by
  induction left generalizing segments s with
  | zero => exact ⟨_, rfl, Nat.le_refl _⟩
  | succ left ih =>
      rw [parseLoop]
      cases lookup : embedded (left + 1) s with
      | ok v4 =>
          have two_le := (embedded_eq_ok_iff.mp lookup).1
          rcases exists_pushBack_of_count build (v4Segments v4).1 fits with
            ⟨middle, pushed, middleCount⟩
          have fits' : middle.count + (0 + 1) ≤ 8 := by omega
          rcases exists_pushBack_of_count build (v4Segments v4).2 fits' with
            ⟨final, pushed', finalCount⟩
          have within : final.count ≤ segments.count + (left + 1) := by omega
          dsimp only
          rw [pushed, ok_bind, pushed', ok_bind]
          exact ⟨_, rfl, within⟩
      | error error =>
          rcases exists_segmentStep build s fits with ⟨outcome, stepped⟩
          dsimp only
          rw [stepped, ok_bind]
          cases outcome with
          | error error => exact ⟨_, rfl, trivial⟩
          | ok step =>
              have stored := count_segmentStep stepped
              cases step with
              | done final rest =>
                  have within : final.count ≤ segments.count + (left + 1) :=
                    Nat.le_trans stored (by omega)
                  exact ⟨_, rfl, within⟩
              | next middle rest =>
                  have middleCount : middle.count ≤ segments.count + 1 := stored
                  have fits' : middle.count + left ≤ 8 := by omega
                  rcases ih rest fits' with ⟨outcome, looped, within⟩
                  exact ⟨outcome, looped, within.mono (by omega)⟩

/-- The same from the start of the text; a leading `::` has taken an iteration. -/
theorem parse_count (build : Build) (s : Text) :
    ∃ outcome, parse build s = .ok outcome ∧ Within 8 outcome := by
  by_cases isEmpty : ∃ rest, s = colon :: colon :: rest
  · rcases isEmpty with ⟨rest, rfl⟩
    rw [parse_of_empty]
    exact parseLoop_count build rest (Nat.le_refl 8)
  · push Not at isEmpty
    rw [parse_of_start build isEmpty]
    exact parseLoop_count build s (Nat.le_refl 8)

/-! ## The copies -/

/-- The bytes of the address that the copy of `start` writes. -/
def startPositions (segments : Segments) : List Nat :=
  List.range' 0 (segments.startSegments.items.length * 2)

/-- The bytes of the address that the copy of `end` writes. -/
def endPositions (segments : Segments) : List Nat :=
  List.range' (16 - segments.endSegments.items.length * 2)
    (segments.endSegments.items.length * 2)

/-- The copies stay inside the address and do not overlap, so that it holds both. -/
structure CopiesFit (segments : Segments) : Prop where
  /-- The subtraction that gives the position of the second copy does not wrap around. -/
  position : segments.endSegments.items.length * 2 ≤ 16
  inside : ∀ i ∈ startPositions segments ++ endPositions segments, i < 16
  apart : (startPositions segments).Disjoint (endPositions segments)
  bytes_eq : (assemble segments).bytes =
    segments.startSegments.items.flatMap segmentBytes ++
      List.replicate (16 -
        (segments.startSegments.items.length + segments.endSegments.items.length) * 2) 0 ++
      segments.endSegments.items.flatMap segmentBytes

theorem copiesFit_of_le {segments : Segments}
    (total : segments.startSegments.items.length + segments.endSegments.items.length ≤ 8) :
    CopiesFit segments where
  position := by omega
  inside := by
    intro i member
    rw [startPositions, endPositions, List.mem_append, List.mem_range'_1, List.mem_range'_1]
      at member
    omega
  apart := by
    intro i inStart inEnd
    rw [startPositions, List.mem_range'_1] at inStart
    rw [endPositions, List.mem_range'_1] at inEnd
    omega
  bytes_eq := assemble_eq total

/-- What `from_string` stores while it reads a text fits. -/
structure StorageFits (build : Build) (s : Text) : Prop where
  /-- No segment is pushed to a full vector: in a debug build no check fires, and in a
  release build nothing is written behind the storage. -/
  completes : ∃ outcome, fromString build s = .ok outcome
  together_le : ∀ segments rest, parse build s = .ok (.ok (segments, rest)) →
    segments.startSegments.items.length + segments.endSegments.items.length ≤ 8
  /-- The address is assembled where no text is left. -/
  copiesFit : ∀ segments, parse build s = .ok (.ok (segments, [])) → CopiesFit segments

/-- For every text, in either build, the segments fit into their vectors and the
vectors into the address. -/
theorem fromString_storageFits (build : Build) (s : Text) : StorageFits build s := by
  rcases parse_count build s with ⟨outcome, parsed, within⟩
  have together_le : ∀ segments rest, parse build s = .ok (.ok (segments, rest)) →
      segments.startSegments.items.length + segments.endSegments.items.length ≤ 8 := by
    intro segments rest reached
    have same := parsed.symm.trans reached
    cases same
    exact Nat.le_trans (Nat.le_add_right _ _) within
  have completes : ∃ outcome, fromString build s = .ok outcome := by
    rw [fromString, parsed, ok_bind]
    cases outcome with
    | error error => exact ⟨_, rfl⟩
    | ok pair =>
        dsimp only
        split
        · exact ⟨_, rfl⟩
        · exact ⟨_, rfl⟩
  exact ⟨completes, together_le, fun segments reached => copiesFit_of_le (together_le _ _ reached)⟩

end SkAsync.Net.Inet6

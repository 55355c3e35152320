import Mathlib.Data.List.Infix
import Mathlib.Order.Bounds.Defs
import Mathlib.Tactic.Common

/-!
# Bit strings

Bit strings are lists of bits, the most significant bit of a byte first.  The
length of a common prefix is computed bit by bit; for the bits of two byte
strings it can be found byte by byte.
-/

namespace SkAsync.Library

universe u

variable {α : Type u} [DecidableEq α]

/-! ## Common prefixes -/

/-- The length of the longest common prefix. -/
def commonLength : List α → List α → Nat
  | a :: s, b :: t => if a = b then commonLength s t + 1 else 0
  | _, _ => 0

@[simp]
theorem commonLength_nil_left (t : List α) : commonLength [] t = 0 := by
  cases t <;> rfl

@[simp]
theorem commonLength_nil_right (s : List α) : commonLength s [] = 0 := by
  cases s <;> rfl

theorem commonLength_cons_cons (a b : α) (s t : List α) :
    commonLength (a :: s) (b :: t) = if a = b then commonLength s t + 1 else 0 :=
  rfl

/-- Two lists agree on their first bits as far as the common prefix reaches. -/
theorem le_commonLength_iff {s t : List α} {n : Nat} :
    n ≤ commonLength s t ↔ n ≤ s.length ∧ n ≤ t.length ∧ s.take n = t.take n := by
  induction s generalizing t n with
  | nil =>
      constructor
      · intro bound
        rw [commonLength_nil_left, Nat.le_zero] at bound
        subst bound
        simp
      · rintro ⟨bound, _⟩
        simpa using bound
  | cons a s ih =>
      cases t with
      | nil =>
          constructor
          · intro bound
            rw [commonLength_nil_right, Nat.le_zero] at bound
            subst bound
            simp
          · rintro ⟨_, bound, _⟩
            simpa using bound
      | cons b t =>
          rw [commonLength_cons_cons]
          cases n with
          | zero => simp
          | succ n =>
              by_cases same : a = b
              · subst same
                simpa using ih
              · simp [same]

theorem commonLength_le_left (s t : List α) : commonLength s t ≤ s.length :=
  (le_commonLength_iff.mp le_rfl).1

theorem commonLength_le_right (s t : List α) : commonLength s t ≤ t.length :=
  (le_commonLength_iff.mp le_rfl).2.1

theorem take_commonLength (s t : List α) :
    s.take (commonLength s t) = t.take (commonLength s t) :=
  (le_commonLength_iff.mp le_rfl).2.2

/-- Behind the common prefix the lists differ. -/
theorem getElem?_commonLength_ne {s t : List α} (inLeft : commonLength s t < s.length)
    (inRight : commonLength s t < t.length) :
    s[commonLength s t]? ≠ t[commonLength s t]? := by
  intro same
  have longer : commonLength s t + 1 ≤ commonLength s t := by
    rw [le_commonLength_iff]
    refine ⟨inLeft, inRight, ?_⟩
    rw [List.take_add_one, List.take_add_one, same, take_commonLength]
  exact absurd longer (Nat.not_succ_le_self _)

/-- The common prefix of two beginnings. -/
theorem commonLength_take (s t : List α) (m n : Nat) :
    commonLength (s.take m) (t.take n) = min (commonLength s t) (min m n) := by
  induction s generalizing t m n with
  | nil => simp
  | cons a s ih =>
      cases t with
      | nil => simp
      | cons b t =>
          cases m with
          | zero => simp
          | succ m =>
              cases n with
              | zero => simp
              | succ n =>
                  rw [List.take_succ_cons, List.take_succ_cons, commonLength_cons_cons,
                    commonLength_cons_cons, ih]
                  by_cases same : a = b
                  · rw [if_pos same, if_pos same]
                    omega
                  · rw [if_neg same, if_neg same, Nat.zero_min]

theorem commonLength_append_left (s t t' : List α) :
    commonLength (s ++ t) (s ++ t') = s.length + commonLength t t' := by
  induction s with
  | nil => simp
  | cons a s ih =>
      rw [List.cons_append, List.cons_append, commonLength_cons_cons, if_pos rfl, ih,
        List.length_cons]
      omega

/-- Different blocks of the same length decide the common prefix. -/
theorem commonLength_append_of_ne {s t : List α} (s' t' : List α) (sameLength : s.length = t.length)
    (different : s ≠ t) : commonLength (s ++ s') (t ++ t') = commonLength s t := by
  induction s generalizing t with
  | nil =>
      rw [List.length_nil, eq_comm, List.length_eq_zero_iff] at sameLength
      exact absurd sameLength.symm different
  | cons a s ih =>
      cases t with
      | nil => cases sameLength
      | cons b t =>
          rw [List.cons_append, List.cons_append, commonLength_cons_cons, commonLength_cons_cons]
          by_cases same : a = b
          · subst same
            have rest : s ≠ t := by
              rintro rfl
              exact different rfl
            rw [if_pos rfl, if_pos rfl, ih (Nat.succ.inj sameLength) rest]
          · rw [if_neg same, if_neg same]

/-- The common prefix is where two lists first differ. -/
theorem commonLength_eq_takeWhile {ι : Type u} (f g : ι → α) (indices : List ι) :
    commonLength (indices.map f) (indices.map g) =
      (indices.takeWhile fun i => f i = g i).length := by
  induction indices with
  | nil => rfl
  | cons i indices ih =>
      rw [List.map_cons, List.map_cons, commonLength_cons_cons, ih, List.takeWhile_cons]
      by_cases same : f i = g i
      · simp [same]
      · simp [same]

/-! ## Bits of a string -/

/-- The bit at a position, and 0 behind the end. -/
def bitAt (s : List Bool) (i : Nat) : Bool :=
  s.getD i false

theorem bitAt_eq_of_getElem? {s : List Bool} {i : Nat} {bit : Bool} (found : s[i]? = some bit) :
    bitAt s i = bit := by
  rw [bitAt, List.getD_eq_getElem?_getD, found]
  rfl

theorem getElem?_eq_bitAt {s : List Bool} {i : Nat} (bound : i < s.length) :
    s[i]? = some (bitAt s i) := by
  rw [bitAt, List.getD_eq_getElem?_getD, List.getElem?_eq_getElem bound]
  rfl

/-- Behind the common prefix the next bits differ. -/
theorem bitAt_commonLength_ne {s t : List Bool} (inLeft : commonLength s t < s.length)
    (inRight : commonLength s t < t.length) :
    bitAt s (commonLength s t) ≠ bitAt t (commonLength s t) := by
  intro same
  apply getElem?_commonLength_ne inLeft inRight
  rw [getElem?_eq_bitAt inLeft, getElem?_eq_bitAt inRight, same]

/-- Extending a prefix by one bit. -/
theorem append_singleton_prefix_iff {s t : List Bool} {bit : Bool} :
    s ++ [bit] <+: t ↔ s <+: t ∧ s.length < t.length ∧ bitAt t s.length = bit := by
  constructor
  · rintro ⟨rest, rfl⟩
    refine ⟨⟨[bit] ++ rest, by simp⟩, by simp, ?_⟩
    exact bitAt_eq_of_getElem? (by simp)
  · rintro ⟨⟨rest, rfl⟩, longer, bit_eq⟩
    cases rest with
    | nil => simp at longer
    | cons first rest =>
        have first_eq : bitAt (s ++ first :: rest) s.length = first :=
          bitAt_eq_of_getElem? (by simp)
        rw [first_eq] at bit_eq
        subst bit_eq
        exact ⟨rest, by simp⟩

/-- Two beginnings are the same if their bits are. -/
theorem take_eq_take_iff_bitAt {s t : List Bool} {n : Nat} (inLeft : n ≤ s.length)
    (inRight : n ≤ t.length) : s.take n = t.take n ↔ ∀ i < n, bitAt s i = bitAt t i := by
  constructor
  · intro same i inside
    have bits : (s.take n)[i]? = (t.take n)[i]? := by rw [same]
    rw [List.getElem?_take_of_lt inside, List.getElem?_take_of_lt inside,
      getElem?_eq_bitAt (inside.trans_le inLeft),
      getElem?_eq_bitAt (inside.trans_le inRight)] at bits
    exact Option.some.inj bits
  · intro agree
    apply List.ext_getElem?
    intro i
    by_cases inside : i < n
    · rw [List.getElem?_take_of_lt inside, List.getElem?_take_of_lt inside,
        getElem?_eq_bitAt (inside.trans_le inLeft), getElem?_eq_bitAt (inside.trans_le inRight),
        agree i inside]
    · have outside : n ≤ i := Nat.le_of_not_lt inside
      rw [List.getElem?_take_eq_none outside, List.getElem?_take_eq_none outside]

/-- Bit strings of one length are the same if their bits are. -/
theorem eq_iff_bitAt {s t : List Bool} :
    s = t ↔ s.length = t.length ∧ ∀ i < s.length, bitAt s i = bitAt t i := by
  constructor
  · rintro rfl
    exact ⟨rfl, fun _ _ => rfl⟩
  · rintro ⟨sameLength, agree⟩
    have same := (take_eq_take_iff_bitAt le_rfl sameLength.le).mpr agree
    rwa [List.take_length, sameLength, List.take_length] at same

/-- A prefix is no longer than the whole and has its bits. -/
theorem isPrefix_iff_bitAt {s t : List Bool} :
    s <+: t ↔ s.length ≤ t.length ∧ ∀ i < s.length, bitAt s i = bitAt t i := by
  constructor
  · intro isPrefix
    refine ⟨isPrefix.length_le, (take_eq_take_iff_bitAt le_rfl isPrefix.length_le).mp ?_⟩
    rw [List.take_length]
    exact List.prefix_iff_eq_take.mp isPrefix
  · rintro ⟨shorter, agree⟩
    have same := (take_eq_take_iff_bitAt le_rfl shorter).mpr agree
    rw [List.take_length] at same
    exact List.prefix_iff_eq_take.mpr same

theorem bitAt_of_isPrefix {s t : List Bool} {i : Nat} (isPrefix : s <+: t) (bound : i < s.length) :
    bitAt s i = bitAt t i :=
  (isPrefix_iff_bitAt.mp isPrefix).2 i bound

/-- The common prefix is the longest beginning whose bits agree. -/
theorem isGreatest_commonLength (s t : List Bool) :
    IsGreatest {n | n ≤ s.length ∧ n ≤ t.length ∧ ∀ i < n, bitAt s i = bitAt t i}
      (commonLength s t) := by
  constructor
  · rcases le_commonLength_iff.mp (le_refl (commonLength s t)) with ⟨inLeft, inRight, same⟩
    exact ⟨inLeft, inRight, (take_eq_take_iff_bitAt inLeft inRight).mp same⟩
  · rintro n ⟨inLeft, inRight, agree⟩
    exact le_commonLength_iff.mpr
      ⟨inLeft, inRight, (take_eq_take_iff_bitAt inLeft inRight).mpr agree⟩

/-- A bit string comes before those that extend it. -/
theorem lt_of_append_prefix {s t : List Bool} {bit : Bool} (isPrefix : s ++ [bit] <+: t) :
    s < t := by
  rcases isPrefix with ⟨rest, rfl⟩
  rw [List.append_assoc, List.singleton_append]
  calc
    s = s ++ [] := (List.append_nil s).symm
    _ < s ++ bit :: rest := List.append_left_lt (List.nil_lt_cons bit rest)

/-- What goes on with 0 comes before what goes on with 1. -/
theorem lt_of_branches {s t t' : List Bool} (goesLeft : s ++ [false] <+: t)
    (goesRight : s ++ [true] <+: t') : t < t' := by
  rcases goesLeft with ⟨rest, rfl⟩
  rcases goesRight with ⟨rest', rfl⟩
  rw [List.append_assoc, List.append_assoc]
  apply List.append_left_lt
  exact List.cons_lt_cons_iff.mpr (Or.inl (by decide))

/-- Two bits decide which edge is taken. -/
theorem eq_not_of_ne {a b : Bool} (different : a ≠ b) : a = !b := by
  cases a <;> cases b <;> simp_all

/-! ## Bits of bytes -/

/-- The bits of a byte, the most significant bit first. -/
def byteBits (byte : UInt8) : List Bool :=
  (List.range 8).map fun i => byte.toBitVec.getMsbD i

@[simp]
theorem length_byteBits (byte : UInt8) : (byteBits byte).length = 8 := by
  simp [byteBits]

theorem byteBits_injective : Function.Injective byteBits := by
  intro a b same
  apply UInt8.toBitVec_inj.mp
  apply BitVec.eq_of_getMsbD_eq
  intro i bound
  have bits := List.map_inj_left.mp same i (List.mem_range.mpr bound)
  simpa using bits

/-- The bits of a byte string. -/
def bitsOf (bytes : List UInt8) : List Bool :=
  bytes.flatMap byteBits

@[simp]
theorem bitsOf_nil : bitsOf [] = [] :=
  rfl

theorem bitsOf_cons (byte : UInt8) (bytes : List UInt8) :
    bitsOf (byte :: bytes) = byteBits byte ++ bitsOf bytes :=
  rfl

theorem bitsOf_append (s t : List UInt8) : bitsOf (s ++ t) = bitsOf s ++ bitsOf t :=
  List.flatMap_append

@[simp]
theorem length_bitsOf (bytes : List UInt8) : (bitsOf bytes).length = 8 * bytes.length := by
  induction bytes with
  | nil => rfl
  | cons byte bytes ih =>
      rw [bitsOf_cons, List.length_append, ih, length_byteBits, List.length_cons]
      omega

theorem bitsOf_injective : Function.Injective bitsOf := by
  intro s
  induction s with
  | nil =>
      intro t same
      have lengths := congrArg List.length same
      rw [length_bitsOf, length_bitsOf] at lengths
      cases t with
      | nil => rfl
      | cons b t => simp at lengths
  | cons a s ih =>
      intro t same
      cases t with
      | nil =>
          have lengths := congrArg List.length same
          simp at lengths
      | cons b t =>
          rw [bitsOf_cons, bitsOf_cons] at same
          rcases List.append_inj same (by simp) with ⟨first, rest⟩
          rw [byteBits_injective first, ih rest]

/-- Whole bytes at the beginning of a byte string. -/
theorem take_bitsOf (bytes : List UInt8) (n : Nat) :
    (bitsOf bytes).take (8 * n) = bitsOf (bytes.take n) := by
  by_cases bound : n ≤ bytes.length
  · conv_lhs => rw [← List.take_append_drop n bytes, bitsOf_append]
    exact List.take_left' (by rw [length_bitsOf, List.length_take, min_eq_left bound])
  · rw [List.take_of_length_le (by rw [length_bitsOf]; omega), List.take_of_length_le (by omega)]

/-- Bit `i` of a byte string is in byte `i / 8`. -/
theorem getElem?_bitsOf (bytes : List UInt8) (i : Nat) :
    (bitsOf bytes)[i]? = bytes[i / 8]?.map fun byte => byte.toBitVec.getMsbD (i % 8) := by
  induction bytes generalizing i with
  | nil => rfl
  | cons byte bytes ih =>
      rw [bitsOf_cons]
      by_cases first : i < 8
      · rw [List.getElem?_append_left (by simpa using first), Nat.div_eq_of_lt first,
          Nat.mod_eq_of_lt first]
        simp [byteBits, List.getElem?_range first]
      · have quotient : i / 8 = (i - 8) / 8 + 1 := by omega
        have remainder : i % 8 = (i - 8) % 8 := by omega
        rw [List.getElem?_append_right (by simpa using first), length_byteBits, ih, quotient,
          remainder, List.getElem?_cons_succ]

end SkAsync.Library

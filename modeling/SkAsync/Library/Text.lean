import Mathlib.Data.List.Basic
import Mathlib.Data.List.TakeWhile
import Mathlib.Tactic.Common
import Mathlib.Algebra.Order.Ring.Int

/-!
# Text and numerals

Text is a list of bytes, as in a `std::string_view`.  This file has what the
parsers need: reading the longest numeral a text starts with, what it means for
a text to be a numeral, and sequences of items with a separator between them.
-/

namespace SkAsync.Library

universe u

/-- A string of bytes. -/
abbrev Text := List UInt8

/-- The bytes of an ASCII string. -/
def ascii (s : String) : Text :=
  s.toList.map fun c => UInt8.ofNat c.toNat

/-! ## Splitting a text -/

/-- The first byte of a text, if any, is not of a kind. -/
def Stops (kind : UInt8 → Bool) (rest : Text) : Prop :=
  ∀ c ∈ rest.head?, kind c = false

@[simp]
theorem stops_nil (kind : UInt8 → Bool) : Stops kind [] := by
  simp [Stops]

@[simp]
theorem stops_cons (kind : UInt8 → Bool) (c : UInt8) (rest : Text) :
    Stops kind (c :: rest) ↔ kind c = false := by
  simp [Stops]

/-- The longest start of a text with bytes of one kind, and what follows it. -/
theorem split_eq_iff {kind : UInt8 → Bool} {s first rest : Text} :
    (s.takeWhile kind = first ∧ s.dropWhile kind = rest) ↔
      s = first ++ rest ∧ (∀ c ∈ first, kind c = true) ∧ Stops kind rest := by
  constructor
  · rintro ⟨rfl, rfl⟩
    refine ⟨List.takeWhile_append_dropWhile.symm, fun c => List.mem_takeWhile_imp, ?_⟩
    intro c isFirst
    have stopped := List.head?_dropWhile_not kind s
    rw [Option.mem_def] at isFirst
    rw [isFirst] at stopped
    simpa using stopped
  · rintro ⟨rfl, all, stops⟩
    rw [List.takeWhile_append_of_pos all, List.dropWhile_append_of_pos all]
    cases rest with
    | nil => simp
    | cons c rest =>
        rw [stops_cons] at stops
        simp [stops]

/-! ## Numerals -/

/-- The value of a byte as a digit: decimal digits, then letters in either case.
Any other byte gets a value that is no digit in any base up to 36. -/
def digitValue (c : UInt8) : Nat :=
  if 48 ≤ c ∧ c ≤ 57 then c.toNat - 48
  else if 97 ≤ c ∧ c ≤ 122 then c.toNat - 87
  else if 65 ≤ c ∧ c ≤ 90 then c.toNat - 55
  else 36

/-- A byte is a digit of a base. -/
def IsDigit (base : Nat) (c : UInt8) : Prop :=
  digitValue c < base

instance (base : Nat) (c : UInt8) : Decidable (IsDigit base c) :=
  inferInstanceAs (Decidable (_ < _))

/-- The decimal digits are the bytes from `0` to `9`. -/
theorem isDigit_ten_iff {c : UInt8} : IsDigit 10 c ↔ 48 ≤ c ∧ c ≤ 57 := by
  unfold IsDigit digitValue
  simp only [UInt8.le_iff_toNat_le, UInt8.reduceToNat]
  split_ifs <;> omega

/-- The number a string of digits denotes. -/
def valueOf (base : Nat) (digits : Text) : Nat :=
  digits.foldl (fun value c => value * base + digitValue c) 0

/-- `std::from_chars` for an unsigned integer with maximum `max`: the value of
the longest string of digits at the start and the text after it.  It fails
without digits and when the value is out of range. -/
def fromChars (base max : Nat) (s : Text) : Option (Nat × Text) :=
  let digits := s.takeWhile fun c => IsDigit base c
  if digits = [] then none
  else if max < valueOf base digits then none
  else some (valueOf base digits, s.dropWhile fun c => IsDigit base c)

/-- A text is a numeral of a base with a value in range.  Leading zeros are allowed. -/
structure Numeral (base max : Nat) (text : Text) (value : Nat) : Prop where
  nonempty : text ≠ []
  digits : ∀ c ∈ text, IsDigit base c
  value_eq : valueOf base text = value
  le_max : value ≤ max

/-- The first byte of a text, if any, is no digit. -/
def EndsNumeral (base : Nat) (rest : Text) : Prop :=
  Stops (fun c => IsDigit base c) rest

@[simp]
theorem endsNumeral_nil (base : Nat) : EndsNumeral base [] :=
  stops_nil _

@[simp]
theorem endsNumeral_cons (base : Nat) (c : UInt8) (rest : Text) :
    EndsNumeral base (c :: rest) ↔ ¬ IsDigit base c := by
  simp [EndsNumeral]

/-- Reading succeeds exactly on a numeral followed by something else, and
returns its value and what follows. -/
theorem fromChars_eq_some_iff {base max value : Nat} {s rest : Text} :
    fromChars base max s = some (value, rest) ↔
      ∃ text, s = text ++ rest ∧ Numeral base max text value ∧ EndsNumeral base rest := by
  unfold fromChars
  dsimp only
  constructor
  · intro parsed
    split at parsed
    · cases parsed
    · rename_i nonempty
      split at parsed
      · cases parsed
      · rename_i inRange
        rw [Option.some.injEq, Prod.mk.injEq] at parsed
        rcases parsed with ⟨value_eq, rest_eq⟩
        rcases split_eq_iff.mp ⟨rfl, rest_eq⟩ with ⟨text_eq, digits, stops⟩
        refine ⟨_, text_eq, ⟨nonempty, by simpa using digits, value_eq, ?_⟩, stops⟩
        rw [← value_eq]
        exact Nat.not_lt.mp inRange
  · rintro ⟨text, rfl, numeral, ends⟩
    have inRange : ¬ max < valueOf base text := by
      rw [numeral.value_eq]
      exact Nat.not_lt.mpr numeral.le_max
    have split : (text ++ rest).takeWhile (fun c => IsDigit base c) = text ∧
        (text ++ rest).dropWhile (fun c => IsDigit base c) = rest :=
      split_eq_iff.mpr ⟨rfl, by simpa using numeral.digits, ends⟩
    rw [split.1, split.2, if_neg numeral.nonempty, if_neg inRange, numeral.value_eq]

/-- The digits of a number, by repeated division.  The fuel bounds their count. -/
def digitsLoop : (fuel : Nat) → Nat → Text
  | 0, _ => []
  | fuel + 1, n =>
      if n < 10 then [UInt8.ofNat (48 + n)]
      else digitsLoop fuel (n / 10) ++ [UInt8.ofNat (48 + n % 10)]

/-- The decimal text of a number, as `std::to_chars` and a stream write it. -/
def toChars (n : Nat) : Text :=
  digitsLoop (n + 1) n

theorem digitValue_ofNat {digit : Nat} (bound : digit < 10) :
    digitValue (UInt8.ofNat (48 + digit)) = digit := by
  revert bound digit
  decide

theorem valueOf_append_singleton (base : Nat) (digits : Text) (c : UInt8) :
    valueOf base (digits ++ [c]) = valueOf base digits * base + digitValue c := by
  simp [valueOf]

/-- With enough fuel the digits of a number denote it. -/
theorem digitsLoop_spec {fuel n : Nat} (enough : n < fuel) :
    digitsLoop fuel n ≠ [] ∧ (∀ c ∈ digitsLoop fuel n, IsDigit 10 c) ∧
      valueOf 10 (digitsLoop fuel n) = n := by
  induction fuel generalizing n with
  | zero => exact absurd enough (Nat.not_lt_zero n)
  | succ fuel ih =>
      unfold digitsLoop
      by_cases single : n < 10
      · rw [if_pos single]
        refine ⟨List.cons_ne_nil _ _, ?_, ?_⟩
        · intro c member
          rw [List.mem_singleton.mp member, IsDigit, digitValue_ofNat single]
          exact single
        · exact (valueOf_append_singleton 10 [] _).trans (by
            rw [digitValue_ofNat single]
            exact Nat.zero_add n)
      · rw [if_neg single]
        have smaller : n / 10 < fuel := by omega
        have last : n % 10 < 10 := Nat.mod_lt n (by decide)
        rcases ih smaller with ⟨_, digits, value_eq⟩
        refine ⟨List.append_ne_nil_of_right_ne_nil _ (List.cons_ne_nil _ _), ?_, ?_⟩
        · intro c member
          rcases List.mem_append.mp member with inFront | isLast
          · exact digits c inFront
          · rw [List.mem_singleton.mp isLast, IsDigit, digitValue_ofNat last]
            exact last
        · rw [valueOf_append_singleton, value_eq, digitValue_ofNat last]
          exact Nat.div_add_mod' n 10

/-- The decimal text of a number in range is a numeral for it. -/
theorem numeral_toChars {max n : Nat} (bound : n ≤ max) : Numeral 10 max (toChars n) n := by
  rcases digitsLoop_spec (Nat.lt_succ_self n) with ⟨nonempty, digits, value_eq⟩
  exact ⟨nonempty, digits, value_eq, bound⟩

/-! ## Separated sequences -/

/-- A text is a non-empty sequence of items with a separator between them. -/
inductive Separated {ν : Type u} (separator : UInt8) (item : Text → ν → Prop) :
    Text → List ν → Prop
  | last {text : Text} {value : ν} : item text value → Separated separator item text [value]
  | cons {text rest : Text} {value : ν} {values : List ν} : item text value →
      Separated separator item rest values →
      Separated separator item (text ++ separator :: rest) (value :: values)

theorem separated_singleton_iff {ν : Type u} {separator : UInt8} {item : Text → ν → Prop}
    {text : Text} {value : ν} :
    Separated separator item text [value] ↔ item text value := by
  constructor
  · intro separated
    cases separated with
    | last only => exact only
    | cons _ rest => cases rest
  · exact .last

theorem separated_cons_iff {ν : Type u} {separator : UInt8} {item : Text → ν → Prop}
    {text : Text} {value next : ν} {values : List ν} :
    Separated separator item text (value :: next :: values) ↔
      ∃ first rest, text = first ++ separator :: rest ∧ item first value ∧
        Separated separator item rest (next :: values) := by
  constructor
  · intro separated
    cases separated with
    | cons first rest => exact ⟨_, _, rfl, first, rest⟩
  · rintro ⟨first, rest, rfl, isItem, separated⟩
    exact .cons isItem separated

/-- Every byte of a separated sequence is the separator or a byte of an item. -/
theorem Separated.mem_imp {ν : Type u} {separator : UInt8} {item : Text → ν → Prop}
    {text : Text} {values : List ν} {allowed : UInt8 → Prop}
    (separated : Separated separator item text values)
    (items : ∀ text value, item text value → ∀ c ∈ text, allowed c) :
    ∀ c ∈ text, c = separator ∨ allowed c := by
  induction separated with
  | last first =>
      intro c member
      exact Or.inr (items _ _ first c member)
  | cons first _ ih =>
      intro c member
      rcases List.mem_append.mp member with inFirst | inRest
      · exact Or.inr (items _ _ first c inFirst)
      · rcases List.mem_cons.mp inRest with isSeparator | later
        · exact Or.inl isSeparator
        · exact ih c later

/-- A sequence of more than one item contains the separator. -/
theorem Separated.separator_mem {ν : Type u} {separator : UInt8} {item : Text → ν → Prop}
    {text : Text} {first second : ν} {values : List ν}
    (separated : Separated separator item text (first :: second :: values)) :
    separator ∈ text := by
  cases separated with
  | cons _ _ => exact List.mem_append_right _ List.mem_cons_self

end SkAsync.Library

import SkAsync.Library.BitString
import Mathlib.Algebra.Order.Ring.Nat
import Mathlib.Data.Nat.ModEq
import Mathlib.Data.List.Lex

/-!
# Numbers as digits, most significant first

The order of digits as a text is the order of the numbers that they stand for.
For bytes this is also the order of their bits.
-/

namespace SkAsync.Library

universe u

/-! ## Positional numbers -/

section Positional

variable {α : Type u} {base : Nat} {digit : α → Nat}

/-- The number that a text of digits stands for. -/
def positional (base : Nat) (digit : α → Nat) : List α → Nat
  | [] => 0
  | a :: s => digit a * base ^ s.length + positional base digit s

@[simp]
theorem positional_nil : positional base digit [] = 0 :=
  rfl

theorem positional_cons (a : α) (s : List α) :
    positional base digit (a :: s) = digit a * base ^ s.length + positional base digit s :=
  rfl

theorem positional_append (s t : List α) :
    positional base digit (s ++ t) =
      positional base digit s * base ^ t.length + positional base digit t := by
  induction s with
  | nil => simp
  | cons a s ih =>
      rw [List.cons_append, positional_cons, positional_cons, ih, List.length_append, Nat.pow_add,
        Nat.add_mul, Nat.mul_assoc, Nat.add_assoc]

theorem positional_lt (bounded : ∀ a, digit a < base) (s : List α) :
    positional base digit s < base ^ s.length := by
  induction s with
  | nil => simp
  | cons a s ih =>
      calc positional base digit (a :: s)
          < digit a * base ^ s.length + base ^ s.length := Nat.add_lt_add_left ih _
        _ = (digit a + 1) * base ^ s.length := by rw [Nat.add_mul, Nat.one_mul]
        _ ≤ base * base ^ s.length := Nat.mul_le_mul_right _ (bounded a)
        _ = base ^ (a :: s).length := by rw [List.length_cons, Nat.pow_succ, Nat.mul_comm]

/-- The first digits decide, if they are different. -/
theorem positional_cons_lt {a b : α} {s t : List α} (bounded : ∀ a, digit a < base)
    (sameLength : s.length = t.length) (less : digit a < digit b) :
    positional base digit (a :: s) < positional base digit (b :: t) := by
  have below := positional_lt bounded s
  have steps : (digit a + 1) * base ^ s.length ≤ digit b * base ^ s.length :=
    Nat.mul_le_mul_right _ less
  rw [Nat.add_mul, Nat.one_mul] at steps
  rw [positional_cons, positional_cons, ← sameLength]
  omega

/-- The order as texts is the order as numbers. -/
theorem lt_iff_positional_lt [LT α] {s t : List α} (bounded : ∀ a, digit a < base)
    (injective : Function.Injective digit) (ordered : ∀ a b, a < b ↔ digit a < digit b)
    (sameLength : s.length = t.length) :
    s < t ↔ positional base digit s < positional base digit t := by
  induction s generalizing t with
  | nil =>
      rw [List.length_nil, eq_comm, List.length_eq_zero_iff] at sameLength
      subst sameLength
      simp
  | cons a s ih =>
      cases t with
      | nil => cases sameLength
      | cons b t =>
          have tails : s.length = t.length := Nat.succ_injective sameLength
          rw [List.cons_lt_cons_iff, ih tails, ordered]
          constructor
          · rintro (less | ⟨rfl, less⟩)
            · exact positional_cons_lt bounded tails less
            · rw [positional_cons, positional_cons, tails]
              exact Nat.add_lt_add_left less _
          · intro less
            rcases Nat.lt_trichotomy (digit a) (digit b) with first | same | first
            · exact Or.inl first
            · rw [positional_cons, positional_cons, tails, same] at less
              exact Or.inr ⟨injective same, Nat.lt_of_add_lt_add_left less⟩
            · exact absurd (positional_cons_lt bounded tails.symm first) (Nat.lt_asymm less)

end Positional

/-! ## Bytes -/

/-- The number that bytes stand for. -/
def bytesValue (bytes : List UInt8) : Nat :=
  positional 256 UInt8.toNat bytes

theorem bytes_lt_iff {s t : List UInt8} (sameLength : s.length = t.length) :
    s < t ↔ bytesValue s < bytesValue t :=
  lt_iff_positional_lt UInt8.toNat_lt (fun _ _ => UInt8.toNat_inj.mp)
    (fun _ _ => UInt8.lt_iff_toNat_lt) sameLength

/-- The lowest `width` bytes of a number. -/
def bigEndian (width n : Nat) : List UInt8 :=
  (List.range width).map fun i => UInt8.ofNat ((n >>> (8 * (width - (i + 1)))) &&& 0xFF)

@[simp]
theorem length_bigEndian (width n : Nat) : (bigEndian width n).length = width := by
  rw [bigEndian, List.length_map, List.length_range]

theorem bigEndian_succ (width n : Nat) :
    bigEndian (width + 1) n = UInt8.ofNat ((n >>> (8 * width)) &&& 0xFF) :: bigEndian width n := by
  rw [bigEndian, List.range_succ_eq_map, List.map_cons, List.map_map]
  congr 1
  unfold bigEndian
  apply List.map_congr_left
  intro i _
  have shift : width + 1 - (i + 1 + 1) = width - (i + 1) := by omega
  rw [Function.comp_apply, Nat.succ_eq_add_one, shift]

theorem bytesValue_bigEndian (width n : Nat) :
    bytesValue (bigEndian width n) = n % 256 ^ width := by
  induction width with
  | zero =>
      rw [Nat.pow_zero, Nat.mod_one]
      rfl
  | succ width ih =>
      have mask : (n >>> (8 * width)) &&& 0xFF = n / 256 ^ width % 256 := by
        have power : 2 ^ (8 * width) = 256 ^ width := Nat.pow_mul 2 8 width
        rw [Nat.shiftRight_eq_div_pow, power]
        exact Nat.and_two_pow_sub_one_eq_mod _ 8
      rw [bytesValue] at ih
      rw [bigEndian_succ, bytesValue, positional_cons, length_bigEndian, ih, UInt8.toNat_ofNat',
        mask, Nat.mod_mod, Nat.mod_pow_succ, Nat.add_comm, Nat.mul_comm]

/-! ## Bits -/

theorem positional_byteBits (byte : UInt8) :
    positional 2 Bool.toNat (byteBits byte) = byte.toNat := by
  have all : ∀ n < 256, positional 2 Bool.toNat (byteBits (UInt8.ofNat n)) = n := by decide +kernel
  have same := all byte.toNat byte.toNat_lt
  rwa [UInt8.ofNat_toNat] at same

/-- Bytes and their bits stand for the same number. -/
theorem positional_bitsOf (bytes : List UInt8) :
    positional 2 Bool.toNat (bitsOf bytes) = bytesValue bytes := by
  induction bytes with
  | nil => rfl
  | cons byte bytes ih =>
      have power : 2 ^ (8 * bytes.length) = 256 ^ bytes.length := Nat.pow_mul 2 8 _
      rw [bitsOf_cons, positional_append, positional_byteBits, ih, length_bitsOf, power]
      rfl

/-- The order of bytes is the order of their bits. -/
theorem bitsOf_lt_iff {s t : List UInt8} (sameLength : s.length = t.length) :
    bitsOf s < bitsOf t ↔ s < t := by
  have bounded : ∀ b : Bool, b.toNat < 2 := by decide
  have injective : ∀ a b : Bool, a.toNat = b.toNat → a = b := by decide
  have ordered : ∀ a b : Bool, a < b ↔ a.toNat < b.toNat := by decide
  rw [lt_iff_positional_lt bounded (fun a b => injective a b) ordered, positional_bitsOf,
    positional_bitsOf,
    bytes_lt_iff sameLength]
  rw [length_bitsOf, length_bitsOf, sameLength]

end SkAsync.Library

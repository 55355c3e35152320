import SkAsync.Library.BigEndian
import SkAsync.Net.Inet
import SkAsync.Patricia.Key

/-!
# Key makers

`patricia_key_maker` for the integer types and for the addresses: different
values have different keys, of one number of whole bytes, and the order of the
keys is the order of the values.
-/

namespace SkAsync.Patricia

open SkAsync.Library SkAsync.Net

/-- A key maker for keys of `width` bytes, with the order of the values that the
order of the keys is. -/
structure KeyMaker (T : Type) where
  width : Nat
  bytes : T → List UInt8
  less : T → T → Prop
  width_pos : 0 < width
  length_eq : ∀ value, (bytes value).length = width
  injective : Function.Injective bytes
  less_iff : ∀ value other, less value other ↔ bytes value < bytes other

namespace KeyMaker

section Keys

variable {T : Type} (keys : KeyMaker T)

/-- `operator()`: the key is all of the bytes. -/
def make (value : T) : PatriciaKey :=
  ⟨keys.bytes value, 8 * keys.width⟩

/-- The constructor of the key keeps the bytes, whether it is told their number or not. -/
theorem make_eq (build : Build) (value : T) {bits : Nat}
    (bits_eq : bits = 0 ∨ bits = 8 * keys.width) :
    PatriciaKey.make build (keys.bytes value) bits = .ok (keys.make value) := by
  have positive := keys.width_pos
  have size := keys.length_eq value
  have all : (if 0 < bits then bits else (keys.bytes value).length * 8) = 8 * keys.width := by
    rcases bits_eq with rfl | rfl
    · rw [if_neg (Nat.lt_irrefl 0), size, Nat.mul_comm]
    · rw [if_pos (by omega)]
  have needed : 1 + (8 * keys.width - 1) / 8 = (keys.bytes value).length := by omega
  unfold PatriciaKey.make
  rw [all]
  dsimp only
  rw [if_pos (by omega), needed, List.take_length, skCheck_of le_rfl]
  rfl

theorem make_sized (value : T) : (keys.make value).Sized := by
  have size := keys.length_eq value
  unfold PatriciaKey.Sized make
  dsimp only
  omega

@[simp]
theorem make_bits (value : T) : (keys.make value).bits = 8 * keys.width :=
  rfl

@[simp]
theorem make_content (value : T) : (keys.make value).content = bitsOf (keys.bytes value) := by
  rw [PatriciaKey.content, make, List.take_of_length_le]
  rw [length_bitsOf, keys.length_eq]

theorem length_content (value : T) : (keys.make value).content.length = 8 * keys.width :=
  (keys.make_sized value).length_content

theorem content_injective {value other : T}
    (same : (keys.make value).content = (keys.make other).content) : value = other := by
  rw [make_content, make_content] at same
  exact keys.injective (bitsOf_injective same)

/-- The order of the values is that of their bit strings. -/
theorem less_iff_content {value other : T} :
    keys.less value other ↔ (keys.make value).content < (keys.make other).content := by
  rw [make_content, make_content, keys.less_iff, bitsOf_lt_iff]
  rw [keys.length_eq, keys.length_eq]

end Keys

/-! ## The key makers of the source -/

theorem pow_width (width : Nat) : 256 ^ width = 2 ^ (8 * width) :=
  (Nat.pow_mul 2 8 width).symm

/-- `patricia_key_maker` for an unsigned integer type of `width` bytes. -/
def unsigned (width : Nat) (positive : 0 < width) : KeyMaker (BitVec (8 * width)) where
  width := width
  bytes v := bigEndian width v.toNat
  less v w := v.toNat < w.toNat
  width_pos := positive
  length_eq v := length_bigEndian width v.toNat
  injective v w same := by
    have values := congrArg bytesValue same
    rw [bytesValue_bigEndian, bytesValue_bigEndian, pow_width, Nat.mod_eq_of_lt v.isLt,
      Nat.mod_eq_of_lt w.isLt] at values
    exact BitVec.eq_of_toNat_eq values
  less_iff v w := by
    rw [bytes_lt_iff (by simp), bytesValue_bigEndian, bytesValue_bigEndian, pow_width,
      Nat.mod_eq_of_lt v.isLt, Nat.mod_eq_of_lt w.isLt]

/-- The sorted unsigned number of a signed one. -/
def toUnsigned {width : Nat} (v : BitVec width) : BitVec width :=
  if v.toInt < 0 then -BitVec.intMin width + v else v + -BitVec.intMin width

/-- The numbers are shifted so that the least one becomes 0. -/
theorem toNat_toUnsigned {width : Nat} (positive : 0 < width) (v : BitVec width) :
    ((toUnsigned v).toNat : Int) = v.toInt + 2 ^ (width - 1) := by
  have double : 2 ^ width = 2 * 2 ^ (width - 1) := by
    rw [← Nat.pow_succ', Nat.succ_eq_add_one, Nat.sub_one_add_one (Nat.ne_of_gt positive)]
  have shifted : toUnsigned v = v + BitVec.intMin width := by
    unfold toUnsigned
    rw [BitVec.neg_intMin, BitVec.add_comm]
    split <;> rfl
  have cast : ((2 ^ (width - 1) : Nat) : Int) = 2 ^ (width - 1) := by norm_cast
  have bound := v.isLt
  rw [shifted, BitVec.toNat_add, BitVec.toNat_intMin_of_pos positive, BitVec.toInt_eq_toNat_cond,
    ← cast, double]
  rw [double] at bound
  generalize 2 ^ (width - 1) = half at bound
  generalize v.toNat = n at bound
  split
  · rename_i small
    rw [Nat.mod_eq_of_lt (by omega)]
    omega
  · rename_i large
    have wrapped : n + half = n - half + 2 * half := by omega
    rw [wrapped, Nat.add_mod_right, Nat.mod_eq_of_lt (by omega)]
    omega

/-- `patricia_key_maker` for a signed integer type of `width` bytes. -/
def signed (width : Nat) (positive : 0 < width) : KeyMaker (BitVec (8 * width)) where
  width := width
  bytes v := (unsigned width positive).bytes (toUnsigned v)
  less v w := v.toInt < w.toInt
  width_pos := positive
  length_eq v := (unsigned width positive).length_eq (toUnsigned v)
  injective v w same := by
    have values := (unsigned width positive).injective same
    have value := toNat_toUnsigned (Nat.mul_pos (by decide) positive) v
    have other := toNat_toUnsigned (Nat.mul_pos (by decide) positive) w
    rw [values, other] at value
    exact BitVec.eq_of_toInt_eq (add_right_cancel value.symm)
  less_iff v w := by
    have value := toNat_toUnsigned (Nat.mul_pos (by decide) positive) v
    have other := toNat_toUnsigned (Nat.mul_pos (by decide) positive) w
    rw [← (unsigned width positive).less_iff, unsigned]
    dsimp only
    omega

/-- `patricia_key_maker` for the addresses of a family, which are compared byte by byte. -/
def address (size : Nat) (positive : 0 < size) : KeyMaker (Address size) where
  width := size
  bytes := Address.bytes
  less addr other := addr.bytes < other.bytes
  width_pos := positive
  length_eq := Address.size_eq
  injective := by
    rintro ⟨bytes, _⟩ ⟨_, _⟩ rfl
    rfl
  less_iff _ _ := Iff.rfl

/-- For `inet_address`. -/
def inet : KeyMaker (Address 4) :=
  address 4 (by decide)

/-- For `inet6_address`. -/
def inet6 : KeyMaker (Address 16) :=
  address 16 (by decide)

end KeyMaker

end SkAsync.Patricia

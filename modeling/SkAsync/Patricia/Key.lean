import SkAsync.Check
import SkAsync.Library.BitString
import Mathlib.Data.Nat.Bitwise

/-!
# Patricia keys

`patricia_key` is a byte span with a length in bits; the bits of the last byte
behind that length are arbitrary.  The comparisons of the source work byte by
byte.  The lemmas say what they compute on the bit string that a key stands for.
-/

namespace SkAsync.Patricia

open SkAsync.Library

/-- `patricia_key`. -/
structure PatriciaKey where
  key : List UInt8
  bits : Nat
  deriving DecidableEq, Repr

namespace PatriciaKey

/-- The default constructor. -/
def empty : PatriciaKey :=
  ⟨[], 0⟩

/-- The constructor from a span and a number of bits, which is that of all bytes if it is 0. -/
def make (build : Build) (key : List UInt8) (bits : Nat) : Except Fault PatriciaKey := do
  let bits := if 0 < bits then bits else key.length * 8
  if 0 < bits then
    let needBytes := 1 + (bits - 1) / 8
    let key := key.take needBytes
    skCheck build (needBytes ≤ key.length) "key.size() >= need_bytes"
    pure ⟨key, bits⟩
  else
    pure ⟨key, bits⟩

def sizeBytes (k : PatriciaKey) : Nat :=
  k.key.length

def sizeBits (k : PatriciaKey) : Nat :=
  k.bits

def isEmpty (k : PatriciaKey) : Bool :=
  k.bits = 0

/-- `test_bit`. -/
def testBit (k : PatriciaKey) (bit : Nat) : Bool :=
  match k.key[bit / 8]? with
  | none => false
  | some byte => (byte.toNat >>> (8 - (bit % 8 + 1))) &&& 1 = 1

/-- The bit string that a key stands for. -/
def content (k : PatriciaKey) : List Bool :=
  (bitsOf k.key).take k.bits

/-- The bytes of the key are exactly those that hold its bits. -/
def Sized (k : PatriciaKey) : Prop :=
  k.key.length = (k.bits + 7) / 8

instance (k : PatriciaKey) : Decidable k.Sized :=
  inferInstanceAs (Decidable (_ = _))

end PatriciaKey

/-! ## Comparing bytes -/

/-- `std::countl_zero` of a byte. -/
def countlZero (byte : UInt8) : Nat :=
  ((List.range 8).takeWhile fun i => byte.toBitVec.getMsbD i = false).length

/-- `bit_diff`. -/
def bitDiff (a b : PatriciaKey) : Nat :=
  let byte := commonLength a.key b.key
  match a.key[byte]?, b.key[byte]? with
  | some first, some second => byte * 8 + countlZero (first ^^^ second)
  | _, _ => byte * 8

/-- `memcmp(a, b, n) == 0`. -/
def memcmpEqual (a b : List UInt8) (n : Nat) : Except Fault Bool :=
  if n ≤ a.length ∧ n ≤ b.length then .ok (a.take n = b.take n) else .error .outOfBounds

def byteAt (bytes : List UInt8) (i : Nat) : Except Fault UInt8 :=
  match bytes[i]? with
  | none => .error .outOfBounds
  | some byte => .ok byte

/-- The bits of the last byte that belong to the key. -/
def lastMask (bits : Nat) : UInt8 :=
  0xFF <<< UInt8.ofNat (8 - bits % 8)

/-- The loop over the bytes before the last, from byte `i` on, and the
comparison of the last byte under the mask. -/
def compareLoop (build : Build) (a b : List UInt8) (bits : Nat) :
    (remaining i : Nat) → Except Fault Bool
  | 0, i => do
      let first ← byteAt a i
      let second ← byteAt b i
      pure ((first ^^^ second) &&& lastMask bits = 0)
  | remaining + 1, i => do
      skCheck build (i < a.length) "i < a.key.size()"
      skCheck build (i < b.length) "i < b.key.size()"
      let first ← byteAt a i
      let second ← byteAt b i
      if first ≠ second then pure false else compareLoop build a b bits remaining (i + 1)

/-- `operator==`. -/
def keyEqual (build : Build) (a b : PatriciaKey) : Except Fault Bool :=
  if a.sizeBits ≠ b.sizeBits then pure false
  else if a.sizeBytes = 0 ∧ b.sizeBytes = 0 then pure true
  else if a.sizeBits % 8 = 0 then memcmpEqual a.key b.key a.sizeBytes
  else do
    skCheck build (a.sizeBytes = b.sizeBytes) "a_size_bytes == b_size_bytes"
    compareLoop build a.key b.key a.sizeBits (a.sizeBytes - 1) 0

/-- `prefix_compare`. -/
def prefixCompare (build : Build) (a b : PatriciaKey) : Except Fault Bool :=
  if b.sizeBits < a.sizeBits then pure false
  else if a.sizeBytes = 0 then pure true
  else if a.sizeBits % 8 = 0 then memcmpEqual a.key b.key a.sizeBytes
  else do
    skCheck build (a.sizeBytes ≤ b.sizeBytes) "a.size_bytes() <= b.size_bytes()"
    compareLoop build a.key b.key a.sizeBits (a.sizeBytes - 1) 0

/-! ## Bits of a key -/

namespace PatriciaKey

/-- A key that is made from enough bytes is sized. -/
theorem make_sized {build : Build} {key : List UInt8} {bits : Nat}
    (enough : bits ≤ 8 * key.length) :
    ∃ k, make build key bits = .ok k ∧ k.Sized ∧
      k.content = (bitsOf key).take (if 0 < bits then bits else 8 * key.length) := by
  unfold make
  generalize all_eq : (if 0 < bits then bits else key.length * 8) = all
  have all_le : all ≤ 8 * key.length := by
    rw [← all_eq]
    split
    · exact enough
    · omega
  have content_eq : (if 0 < bits then bits else 8 * key.length) = all := by
    rw [← all_eq, Nat.mul_comm]
  rw [content_eq]
  dsimp only
  by_cases positive : 0 < all
  · rw [if_pos positive]
    have held : 1 + (all - 1) / 8 ≤ (key.take (1 + (all - 1) / 8)).length := by
      rw [List.length_take]
      omega
    refine ⟨⟨key.take (1 + (all - 1) / 8), all⟩, ?_, ?_, ?_⟩
    · rw [skCheck_of held]
      rfl
    · unfold Sized
      rw [List.length_take]
      dsimp only
      omega
    · unfold content
      dsimp only
      rw [← take_bitsOf, List.take_take]
      congr 1
      omega
  · rw [if_neg positive]
    have none_left : all = 0 := Nat.eq_zero_of_not_pos positive
    subst none_left
    refine ⟨⟨key, 0⟩, rfl, ?_, rfl⟩
    have no_bytes : key.length = 0 := by
      by_contra some_bytes
      split at all_eq <;> omega
    unfold Sized
    dsimp only
    rw [no_bytes]

theorem Sized.bits_le {k : PatriciaKey} (sized : k.Sized) : k.bits ≤ 8 * k.key.length := by
  unfold Sized at sized
  omega

theorem Sized.length_content {k : PatriciaKey} (sized : k.Sized) : k.content.length = k.bits := by
  rw [content, List.length_take, length_bitsOf]
  exact min_eq_left sized.bits_le

theorem length_content_le (k : PatriciaKey) : k.content.length ≤ k.bits := by
  rw [content, List.length_take]
  exact min_le_left _ _

theorem content_of_bits_eq_zero {k : PatriciaKey} (noBits : k.bits = 0) : k.content = [] := by
  rw [content, noBits, List.take_zero]

theorem empty_sized : empty.Sized :=
  rfl

@[simp]
theorem content_empty : empty.content = [] :=
  rfl

/-- A byte is shifted so that the tested bit is the last. -/
theorem shiftRight_and_one (byte : UInt8) {i : Nat} (bound : i < 8) :
    decide ((byte.toNat >>> (8 - (i + 1))) &&& 1 = 1) = byte.toBitVec.getMsbD i := by
  rw [BitVec.getMsbD, decide_eq_true bound, Bool.true_and, BitVec.getLsbD, UInt8.toNat_toBitVec,
    Nat.testBit_eq_decide_div_mod_eq, Nat.and_one_is_mod, Nat.shiftRight_eq_div_pow]
  have exponent : 8 - 1 - i = 8 - (i + 1) := by omega
  rw [exponent]

theorem testBit_eq (k : PatriciaKey) (i : Nat) : k.testBit i = bitAt (bitsOf k.key) i := by
  rw [testBit, bitAt, List.getD_eq_getElem?_getD, getElem?_bitsOf]
  cases k.key[i / 8]? with
  | none => rfl
  | some byte => exact shiftRight_and_one byte (Nat.mod_lt i (by decide))

/-- Inside the key, `test_bit` reads the bit string. -/
theorem testBit_eq_bitAt {k : PatriciaKey} {i : Nat} (inside : i < k.bits) :
    k.testBit i = bitAt k.content i := by
  rw [testBit_eq, bitAt, bitAt, content, List.getD_eq_getElem?_getD, List.getD_eq_getElem?_getD,
    List.getElem?_take_of_lt inside]

end PatriciaKey

/-! ## What the comparisons compute -/

/-- The leading zeros of an exclusive or are the common bits of two bytes. -/
theorem countlZero_xor (a b : UInt8) :
    countlZero (a ^^^ b) = commonLength (byteBits a) (byteBits b) := by
  unfold countlZero byteBits
  rw [commonLength_eq_takeWhile]
  congr 2
  funext i
  rw [UInt8.toBitVec_xor, BitVec.getMsbD_xor]
  cases a.toBitVec.getMsbD i <;> cases b.toBitVec.getMsbD i <;> rfl

/-- `bit_diff` is the length of the common prefix of all bits, padding included. -/
theorem bitDiff_eq (a b : PatriciaKey) :
    bitDiff a b = commonLength (bitsOf a.key) (bitsOf b.key) := by
  unfold bitDiff
  generalize a.key = s
  generalize b.key = t
  induction s generalizing t with
  | nil => simp
  | cons x s ih =>
      cases t with
      | nil => simp
      | cons y t =>
          rw [bitsOf_cons, bitsOf_cons, commonLength_cons_cons]
          by_cases same : x = y
          · subst same
            rw [if_pos rfl, commonLength_append_left, ← ih, length_byteBits]
            dsimp only
            rw [List.getElem?_cons_succ, List.getElem?_cons_succ]
            split <;> omega
          · have different : byteBits x ≠ byteBits y := fun equal => same (byteBits_injective equal)
            rw [if_neg same, commonLength_append_of_ne _ _ (by simp) different, ← countlZero_xor]
            simp

/-- Clamped to the lengths of the keys, `bit_diff` is the length of the common
prefix of the bit strings. -/
theorem min_bitDiff (a b : PatriciaKey) :
    min (bitDiff a b) (min a.bits b.bits) = commonLength a.content b.content := by
  rw [bitDiff_eq, PatriciaKey.content, PatriciaKey.content, commonLength_take]

/-- The mask keeps the bits of the key. -/
theorem xor_and_lastMask {a b : UInt8} {bits : Nat} (part : bits % 8 ≠ 0) :
    (a ^^^ b) &&& lastMask bits = 0 ↔
      (byteBits a).take (bits % 8) = (byteBits b).take (bits % 8) := by
  have kept : ∀ i < 8, (lastMask bits).toBitVec.getMsbD i = decide (i < bits % 8) := by
    have all : ∀ r < 8, r ≠ 0 → ∀ i < 8,
        ((0xFF : UInt8) <<< UInt8.ofNat (8 - r)).toBitVec.getMsbD i = decide (i < r) := by
      decide
    exact all (bits % 8) (Nat.mod_lt bits (by decide)) part
  have bound : bits % 8 < 8 := Nat.mod_lt bits (by decide)
  rw [byteBits, byteBits, ← List.map_take, ← List.map_take, List.take_range,
    Nat.min_eq_left bound.le, List.map_inj_left]
  constructor
  · intro zero i inside
    rw [List.mem_range] at inside
    have bit := congrArg (fun byte : UInt8 => byte.toBitVec.getMsbD i) zero
    simp only [UInt8.toBitVec_and, UInt8.toBitVec_xor, BitVec.getMsbD_and, BitVec.getMsbD_xor,
      kept i (inside.trans bound), inside, decide_true, Bool.and_true] at bit
    simpa using bit
  · intro agree
    apply UInt8.toBitVec_inj.mp
    apply BitVec.eq_of_getMsbD_eq
    intro i inByte
    simp only [UInt8.toBitVec_and, UInt8.toBitVec_xor, BitVec.getMsbD_and, BitVec.getMsbD_xor,
      kept i inByte]
    by_cases inside : i < bits % 8
    · have bit := agree i (List.mem_range.mpr inside)
      simp [bit]
    · simp [inside]

/-- The first bits of whole bytes. -/
theorem memcmpEqual_eq {s t : List UInt8} {bits : Nat} (size : s.length = (bits + 7) / 8)
    (covered : s.length ≤ t.length) (whole : bits % 8 = 0) :
    memcmpEqual s t s.length = .ok (decide ((bitsOf s).take bits = (bitsOf t).take bits)) := by
  have bits_eq : bits = 8 * s.length := by omega
  rw [memcmpEqual, if_pos ⟨le_rfl, covered⟩, bits_eq, take_bitsOf, take_bitsOf]
  congr 1
  rw [decide_eq_decide]
  exact bitsOf_injective.eq_iff.symm

theorem byteAt_eq {bytes : List UInt8} {i : Nat} (inside : i < bytes.length) :
    ∃ byte, byteAt bytes i = .ok byte ∧ bytes.drop i = byte :: bytes.drop (i + 1) := by
  refine ⟨bytes[i], ?_, List.drop_eq_getElem_cons inside⟩
  rw [byteAt, List.getElem?_eq_getElem inside]

/-- The loop compares the bits from byte `i` on. -/
theorem compareLoop_eq (build : Build) {s t : List UInt8} {bits remaining i : Nat}
    (part : bits % 8 ≠ 0) (inLeft : i + remaining < s.length) (inRight : i + remaining < t.length) :
    compareLoop build s t bits remaining i =
      .ok (decide ((bitsOf (s.drop i)).take (8 * remaining + bits % 8) =
        (bitsOf (t.drop i)).take (8 * remaining + bits % 8))) := by
  induction remaining generalizing i with
  | zero =>
      rcases byteAt_eq inLeft with ⟨first, first_eq, left_eq⟩
      rcases byteAt_eq inRight with ⟨second, second_eq, right_eq⟩
      have inByte : 8 * 0 + bits % 8 ≤ 8 := by omega
      rw [compareLoop, Nat.add_zero] at *
      rw [first_eq, second_eq, left_eq, right_eq, bitsOf_cons, bitsOf_cons,
        List.take_append_of_le_length (by simpa using inByte),
        List.take_append_of_le_length (by simpa using inByte), Nat.mul_zero, Nat.zero_add]
      simp only [ok_bind, pure_eq_ok, xor_and_lastMask part]
  | succ remaining ih =>
      have here : i < s.length := by omega
      have here' : i < t.length := by omega
      rcases byteAt_eq here with ⟨first, first_eq, left_eq⟩
      rcases byteAt_eq here' with ⟨second, second_eq, right_eq⟩
      have count : 8 * (remaining + 1) + bits % 8 = 8 + (8 * remaining + bits % 8) := by omega
      rw [compareLoop, skCheck_of here, skCheck_of here', first_eq, second_eq,
        ih (by omega) (by omega), left_eq, right_eq, bitsOf_cons, bitsOf_cons, count]
      simp only [ok_bind, pure_eq_ok]
      have split : ∀ byte rest, (byteBits byte ++ rest).take (8 + (8 * remaining + bits % 8)) =
          byteBits byte ++ rest.take (8 * remaining + bits % 8) := by
        intro byte rest
        rw [← length_byteBits byte, List.take_length_add_append]
      rw [split, split]
      by_cases same : first = second
      · subst same
        rw [if_neg (not_not.mpr rfl)]
        simp
      · have different : byteBits first ≠ byteBits second :=
          fun equal => same (byteBits_injective equal)
        rw [if_pos same]
        congr 1
        symm
        rw [decide_eq_false_iff_not]
        intro equal
        exact different (List.append_inj_left equal (by simp))

/-- The whole loop compares all bits of the shorter key. -/
theorem compareLoop_zero_eq (build : Build) {s t : List UInt8} {bits : Nat}
    (size : s.length = (bits + 7) / 8) (covered : s.length ≤ t.length) (part : bits % 8 ≠ 0) :
    compareLoop build s t bits (s.length - 1) 0 =
      .ok (decide ((bitsOf s).take bits = (bitsOf t).take bits)) := by
  have count : 8 * (s.length - 1) + bits % 8 = bits := by omega
  rw [compareLoop_eq build part (by omega) (by omega), count, List.drop_zero, List.drop_zero]

namespace PatriciaKey

/-- A key of a node: sized, or cleared with its bytes left in place. -/
def Kept (k : PatriciaKey) : Prop :=
  k.bits = 0 ∨ k.Sized

theorem Sized.kept {k : PatriciaKey} (sized : k.Sized) : k.Kept :=
  Or.inr sized

theorem Kept.length_content {k : PatriciaKey} (kept : k.Kept) : k.content.length = k.bits := by
  rcases kept with noBits | sized
  · rw [content_of_bits_eq_zero noBits, noBits]
    rfl
  · exact sized.length_content

end PatriciaKey

/-- `operator==` compares bit strings. -/
theorem keyEqual_eq (build : Build) {a b : PatriciaKey} (sized : a.Sized) (kept : b.Kept) :
    keyEqual build a b = .ok (decide (a.content = b.content)) := by
  unfold keyEqual PatriciaKey.sizeBits PatriciaKey.sizeBytes
  by_cases sameBits : a.bits = b.bits
  · rw [if_neg (not_not.mpr sameBits)]
    by_cases noBytes : a.key.length = 0 ∧ b.key.length = 0
    · have noKey : a.key = [] := List.length_eq_zero_iff.mp noBytes.1
      have noKey' : b.key = [] := List.length_eq_zero_iff.mp noBytes.2
      rw [if_pos noBytes, PatriciaKey.content, PatriciaKey.content, noKey, noKey']
      simp
    · have covered : a.key.length ≤ b.key.length := by
        unfold PatriciaKey.Kept PatriciaKey.Sized at *
        omega
      rw [if_neg noBytes, PatriciaKey.content, PatriciaKey.content, ← sameBits]
      by_cases whole : a.bits % 8 = 0
      · rw [if_pos whole]
        exact memcmpEqual_eq sized covered whole
      · have sameBytes : a.key.length = b.key.length := by
          unfold PatriciaKey.Kept PatriciaKey.Sized at *
          omega
        rw [if_neg whole, skCheck_of sameBytes]
        exact compareLoop_zero_eq build sized covered whole
  · rw [if_pos sameBits]
    have different : a.content ≠ b.content := by
      intro same
      apply sameBits
      rw [← sized.length_content, ← kept.length_content, same]
    simp [different]

/-- `prefix_compare` compares a bit string with the beginning of another. -/
theorem prefixCompare_eq (build : Build) {a b : PatriciaKey} (sized : a.Sized) (sized' : b.Sized) :
    prefixCompare build a b = .ok (decide (a.content <+: b.content)) := by
  unfold prefixCompare PatriciaKey.sizeBits PatriciaKey.sizeBytes
  by_cases longer : b.bits < a.bits
  · rw [if_pos longer]
    have notPrefix : ¬ a.content <+: b.content := by
      intro isPrefix
      have lengths := isPrefix.length_le
      rw [sized.length_content, sized'.length_content] at lengths
      omega
    simp [notPrefix]
  · have prefix_iff : a.content <+: b.content ↔
        (bitsOf a.key).take a.bits = (bitsOf b.key).take a.bits := by
      rw [List.prefix_iff_eq_take, sized.length_content, PatriciaKey.content, PatriciaKey.content,
        List.take_take, min_eq_left (Nat.le_of_not_lt longer)]
    have covered : a.key.length ≤ b.key.length := by
      unfold PatriciaKey.Sized at *
      omega
    rw [if_neg longer, decide_eq_decide.mpr prefix_iff]
    by_cases noBytes : a.key.length = 0
    · have noBits : a.bits = 0 := by
        unfold PatriciaKey.Sized at sized
        omega
      rw [if_pos noBytes]
      simp [noBits]
    · rw [if_neg noBytes]
      by_cases whole : a.bits % 8 = 0
      · rw [if_pos whole]
        exact memcmpEqual_eq sized covered whole
      · rw [if_neg whole, skCheck_of covered]
        exact compareLoop_zero_eq build sized covered whole

/-! ## Single bits -/

/-- The first `n` bits of two keys are the same, as `test_bit` reads them. -/
def SameBits (a b : PatriciaKey) (n : Nat) : Prop :=
  ∀ i < n, a.testBit i = b.testBit i

instance (a b : PatriciaKey) (n : Nat) : Decidable (SameBits a b n) :=
  inferInstanceAs (Decidable (∀ i < n, _))

/-- Single bits decide what the bytewise comparisons say. -/
structure ComparesBits (build : Build) (a b : PatriciaKey) : Prop where
  equal : keyEqual build a b = .ok (decide (a.sizeBits = b.sizeBits ∧ SameBits a b a.sizeBits))
  beginning :
    prefixCompare build a b = .ok (decide (a.sizeBits ≤ b.sizeBits ∧ SameBits a b a.sizeBits))
  common : IsGreatest {n | n ≤ a.sizeBits ∧ n ≤ b.sizeBits ∧ SameBits a b n}
    (min (bitDiff a b) (min a.sizeBits b.sizeBits))

/-- Inside both keys, `test_bit` reads the bit strings. -/
theorem sameBits_iff {a b : PatriciaKey} {n : Nat} (inLeft : n ≤ a.bits) (inRight : n ≤ b.bits) :
    SameBits a b n ↔ ∀ i < n, bitAt a.content i = bitAt b.content i := by
  refine forall₂_congr fun i inside => ?_
  rw [PatriciaKey.testBit_eq_bitAt (inside.trans_le inLeft),
    PatriciaKey.testBit_eq_bitAt (inside.trans_le inRight)]

/-- Sized keys are compared by their bits, whatever is in the last byte behind them. -/
theorem comparesBits_of_sized (build : Build) {a b : PatriciaKey} (sized : a.Sized)
    (sized' : b.Sized) : ComparesBits build a b := by
  have length_eq := sized.length_content
  have length_eq' := sized'.length_content
  constructor
  · rw [keyEqual_eq build sized sized'.kept]
    congr 1
    rw [decide_eq_decide, eq_iff_bitAt, length_eq, length_eq']
    exact and_congr_right fun sameSize => (sameBits_iff le_rfl sameSize.le).symm
  · rw [prefixCompare_eq build sized sized']
    congr 1
    rw [decide_eq_decide, isPrefix_iff_bitAt, length_eq, length_eq']
    exact and_congr_right fun shorter => (sameBits_iff le_rfl shorter).symm
  · have greatest := isGreatest_commonLength a.content b.content
    have same : {n | n ≤ a.bits ∧ n ≤ b.bits ∧ SameBits a b n} =
        {n | n ≤ a.bits ∧ n ≤ b.bits ∧ ∀ i < n, bitAt a.content i = bitAt b.content i} :=
      Set.ext fun n =>
        and_congr_right fun inLeft => and_congr_right fun inRight => sameBits_iff inLeft inRight
    rw [length_eq, length_eq', ← min_bitDiff, ← same] at greatest
    exact greatest

/-- For all keys that the constructor makes of bytes that cover their bits, the
comparisons agree with `test_bit`. -/
theorem comparesBits_of_make (build : Build) {bytes bytes' : List UInt8} {bits bits' : Nat}
    (covered : bits ≤ 8 * bytes.length) (covered' : bits' ≤ 8 * bytes'.length) :
    ∃ a b, PatriciaKey.make build bytes bits = .ok a ∧
      PatriciaKey.make build bytes' bits' = .ok b ∧ ComparesBits build a b := by
  rcases @PatriciaKey.make_sized build _ _ covered with ⟨a, made, sized, _⟩
  rcases @PatriciaKey.make_sized build _ _ covered' with ⟨b, made', sized', _⟩
  exact ⟨a, b, made, made', comparesBits_of_sized build sized sized'⟩

/-- Three bits of one byte and twelve bits of two, with other bits behind them. -/
theorem comparesBits_of_make_of_padding :
    ∃ a b, PatriciaKey.make .debug [0xB4] 3 = .ok a ∧
      PatriciaKey.make .debug [0xA4, 0xFF] 12 = .ok b ∧ ComparesBits .debug a b :=
  comparesBits_of_make .debug (by decide) (by decide)

example : bitDiff ⟨[0xF4, 0x02], 16⟩ ⟨[0xF4, 0x00], 16⟩ = 14 := by
  decide

end SkAsync.Patricia

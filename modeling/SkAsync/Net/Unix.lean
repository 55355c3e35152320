import SkAsync.Net.Inet

/-!
# UNIX addresses

A path is kept in an array of fixed size, without its length: the rest of the array
is zero and the path ends at the first zero byte, or fills the array.  Nothing checks
that the path itself has no zero byte, so such a path is cut off there.
-/

namespace SkAsync.Net

open SkAsync.Library

/-- `std::errc::value_too_large`, the only error of `unix_family::from_string`. -/
inductive UnixAddressError
  | valueTooLarge
  deriving DecidableEq, Repr

/-- `std::lexicographical_compare_three_way`, on bytes. -/
def lexicographicalCompare : Text → Text → Ordering
  | [], [] => .eq
  | [], _ :: _ => .lt
  | _ :: _, [] => .gt
  | a :: as, b :: bs =>
      match compare a b with
      | .eq => lexicographicalCompare as bs
      | order => order

/-- `operator==` of addresses, from their tags and their bytes. -/
def addressEq (aTag bTag : UInt8) (aBytes bBytes : Text) : Bool :=
  if aTag ≠ bTag then false
  else if aBytes.length ≠ bBytes.length then false
  else lexicographicalCompare aBytes bBytes == .eq

/-- Comparing bytes one by one finds no difference exactly if there is none. -/
theorem lexicographicalCompare_eq_iff {a b : Text} :
    lexicographicalCompare a b = .eq ↔ a = b := by
  induction a generalizing b with
  | nil =>
      cases b with
      | nil => simp [lexicographicalCompare]
      | cons d b => simp [lexicographicalCompare]
  | cons c a ih =>
      cases b with
      | nil => simp [lexicographicalCompare]
      | cons d b =>
          have same : compare c d = .eq ↔ c = d := Std.compare_eq_iff_eq
          rw [List.cons.injEq, ← ih, ← same, lexicographicalCompare]
          cases compare c d with
          | lt => simp
          | eq => simp
          | gt => simp

theorem addressEq_iff {aTag bTag : UInt8} {a b : Text} :
    addressEq aTag bTag a b = true ↔ aTag = bTag ∧ a = b := by
  unfold addressEq
  split_ifs with tags lengths
  · simp [tags]
  · refine iff_of_false (by simp) ?_
    rintro ⟨_, rfl⟩
    exact lengths rfl
  · rw [beq_iff_eq, lexicographicalCompare_eq_iff]
    exact (and_iff_right (not_not.mp tags)).symm

namespace Unix

variable {addressSize : Nat}

/-- `unix_family::tag`, for `AF_UNIX`. -/
abbrev tag : UInt8 := 1

/-- `'\0'`. -/
abbrev nul : UInt8 := 0

/-- `unix_family::zero_address`. -/
def zeroAddress : Address addressSize :=
  ⟨List.replicate addressSize nul, List.length_replicate⟩

/-- `unix_family::from_string`: the string is copied over the start of a zero array. -/
def fromString (s : Text) : Except UnixAddressError (Address addressSize) :=
  if tooLarge : addressSize < s.length then .error .valueTooLarge
  else
    .ok ⟨s ++ (zeroAddress : Address addressSize).bytes.drop s.length, by
      rw [List.length_append, List.length_drop, zeroAddress.size_eq]
      omega⟩

/-- `unix_family::as_bytes`: what comes before the first zero byte. -/
def asBytes (addr : Address addressSize) : Text :=
  addr.bytes.takeWhile (· ≠ nul)

/-- `unix_family::to_string`. -/
def toString (addr : Address addressSize) : Text :=
  addr.bytes.takeWhile (· ≠ nul)

/-- `make_unix_address`. -/
def makeUnixAddress (s : Text) : Except UnixAddressError (Address addressSize) :=
  match (fromString s : Except UnixAddressError (Address addressSize)) with
  | .error error => .error error
  | .ok a => .ok a

/-- `str` of a UNIX address. -/
def str (addr : Address addressSize) : Text :=
  toString addr

/-- `operator==` of two UNIX addresses. -/
def eq (a b : Address addressSize) : Bool :=
  addressEq tag tag (asBytes a) (asBytes b)

/-! ## What an address keeps of a path -/

/-- A string that is stored is followed by zero bytes only. -/
theorem makeUnixAddress_eq_ok_iff {s : Text} {addr : Address addressSize} :
    makeUnixAddress s = .ok addr ↔ s.length ≤ addressSize ∧
      addr.bytes = s ++ List.replicate (addressSize - s.length) nul := by
  have same : (makeUnixAddress s : Except UnixAddressError (Address addressSize)) =
      fromString s := by
    unfold makeUnixAddress
    cases (fromString s : Except UnixAddressError (Address addressSize)) with
    | error error => rfl
    | ok addr => rfl
  rw [same, fromString]
  split_ifs with tooLarge
  · exact iff_of_false (by simp) fun both => Nat.not_le.mpr tooLarge both.1
  · rcases addr with ⟨bytes, size_eq⟩
    rw [Except.ok.injEq, Address.mk.injEq, zeroAddress, List.drop_replicate,
      and_iff_right (Nat.not_lt.mp tooLarge)]
    exact eq_comm

/-- Zero bytes behind a string do not change where it ends. -/
theorem takeWhile_append_zeros (s : Text) (count : Nat) :
    (s ++ List.replicate count nul).takeWhile (· ≠ nul) = s.takeWhile (· ≠ nul) := by
  induction s with
  | nil =>
      cases count with
      | zero => rfl
      | succ count => rfl
  | cons c s ih =>
      rw [List.cons_append, List.takeWhile_cons, List.takeWhile_cons, ih]

/-- Of a string that is stored, what comes before its first zero byte is kept. -/
theorem str_of_makeUnixAddress {s : Text} {addr : Address addressSize}
    (made : makeUnixAddress s = .ok addr) : str addr = s.takeWhile (· ≠ nul) := by
  unfold str toString
  rw [(makeUnixAddress_eq_ok_iff.mp made).2, takeWhile_append_zeros]

theorem takeWhile_eq_self_iff {s : Text} : s.takeWhile (· ≠ nul) = s ↔ nul ∉ s := by
  rw [List.takeWhile_eq_self_iff]
  constructor
  · intro nonzero member
    exact absurd (nonzero nul member) (by decide)
  · intro noZero c member
    rw [decide_eq_true_eq]
    rintro rfl
    exact noZero member

/-- Equal addresses are those of strings that agree before the first zero byte. -/
theorem eq_iff {s t : Text} {a b : Address addressSize} (madeA : makeUnixAddress s = .ok a)
    (madeB : makeUnixAddress t = .ok b) :
    eq a b = true ↔ s.takeWhile (· ≠ nul) = t.takeWhile (· ≠ nul) := by
  have bytesA : asBytes a = s.takeWhile (· ≠ nul) := str_of_makeUnixAddress madeA
  have bytesB : asBytes b = t.takeWhile (· ≠ nul) := str_of_makeUnixAddress madeB
  rw [eq, addressEq_iff, bytesA, bytesB]
  exact and_iff_right rfl

/-- A string is rejected, or stored and kept whole.  It is rejected if it is longer than
the array, and stored if it fills the array. -/
structure KeepsPath (addressSize : Nat) (s : Text) : Prop where
  kept : ∀ a : Address addressSize, makeUnixAddress s = .ok a → str a = s
  rejected : addressSize < s.length →
    (makeUnixAddress s : Except UnixAddressError (Address addressSize)) = .error .valueTooLarge
  filling : s.length = addressSize →
    ∃ a : Address addressSize, makeUnixAddress s = .ok a ∧ str a = s

/-- Two strings are kept, and their addresses are equal only if they are. -/
structure KeepsPaths (addressSize : Nat) (s t : Text) : Prop where
  first : KeepsPath addressSize s
  second : KeepsPath addressSize t
  apart : ∀ a b : Address addressSize, makeUnixAddress s = .ok a → makeUnixAddress t = .ok b →
    eq a b = true → s = t

/-- A string is too long for the array, or without a zero byte. -/
def Storable (addressSize : Nat) (s : Text) : Prop :=
  addressSize < s.length ∨ nul ∉ s

instance (addressSize : Nat) (s : Text) : Decidable (Storable addressSize s) :=
  inferInstanceAs (Decidable (_ ∨ _))

theorem exists_makeUnixAddress {s : Text} (fits : s.length ≤ addressSize) :
    ∃ a : Address addressSize, makeUnixAddress s = .ok a :=
  ⟨⟨s ++ List.replicate (addressSize - s.length) nul, by
    rw [List.length_append, List.length_replicate]
    omega⟩, makeUnixAddress_eq_ok_iff.mpr ⟨fits, rfl⟩⟩

theorem makeUnixAddress_eq_error {s : Text} (tooLarge : addressSize < s.length) :
    (makeUnixAddress s : Except UnixAddressError (Address addressSize)) =
      .error .valueTooLarge := by
  unfold makeUnixAddress fromString
  rw [dif_pos tooLarge]

theorem keepsPath_iff {s : Text} : KeepsPath addressSize s ↔ Storable addressSize s := by
  constructor
  · intro keeps
    rcases Nat.lt_or_ge addressSize s.length with tooLarge | fits
    · exact .inl tooLarge
    · rcases exists_makeUnixAddress fits with ⟨a, made⟩
      have whole := keeps.kept a made
      rw [str_of_makeUnixAddress made] at whole
      exact .inr (takeWhile_eq_self_iff.mp whole)
  · intro storable
    have kept : ∀ a : Address addressSize, makeUnixAddress s = .ok a → str a = s := by
      intro a made
      have fits := (makeUnixAddress_eq_ok_iff.mp made).1
      rw [str_of_makeUnixAddress made, takeWhile_eq_self_iff]
      exact storable.resolve_left (Nat.not_lt.mpr fits)
    refine ⟨kept, makeUnixAddress_eq_error, fun filled => ?_⟩
    rcases exists_makeUnixAddress (Nat.le_of_eq filled) with ⟨a, made⟩
    exact ⟨a, made, kept a made⟩

/-- UNIX addresses keep two paths, and keep them apart, exactly if each of them is too long
for the array or without a zero byte. -/
theorem keepsPaths_iff_storable (addressSize : Nat) (s t : Text) :
    KeepsPaths addressSize s t ↔ Storable addressSize s ∧ Storable addressSize t := by
  constructor
  · intro keeps
    exact ⟨keepsPath_iff.mp keeps.first, keepsPath_iff.mp keeps.second⟩
  · rintro ⟨first, second⟩
    refine ⟨keepsPath_iff.mpr first, keepsPath_iff.mpr second, ?_⟩
    intro a b madeA madeB equal
    have same := (eq_iff madeA madeB).mp equal
    rwa [← str_of_makeUnixAddress madeA, ← str_of_makeUnixAddress madeB,
      (keepsPath_iff.mpr first).kept a madeA, (keepsPath_iff.mpr second).kept b madeB] at same

/-- The path `a`, a zero byte and `b` is accepted and cut off behind `a`, so its address is
that of the path `a`. -/
theorem not_keepsPaths_of_embedded_nul :
    ¬ ∀ s t : Text, KeepsPaths 108 s t := by
  intro keeps
  have apart := keeps [97, 0, 98] [97]
  have longer : ∃ a : Address 108, makeUnixAddress [97, 0, 98] = .ok a :=
    exists_makeUnixAddress (by decide)
  have shorter : ∃ b : Address 108, makeUnixAddress [97] = .ok b :=
    exists_makeUnixAddress (by decide)
  rcases longer with ⟨a, madeA⟩
  rcases shorter with ⟨b, madeB⟩
  have equal := (eq_iff madeA madeB).mpr (by decide)
  exact absurd (apart.apart a b madeA madeB equal) (by decide)

end Unix

end SkAsync.Net

import SkAsync.Check
import SkAsync.Library.Memory
import SkAsync.Net.Inet

/-!
# Printing IPv4 addresses

`inet_family::to_string` writes the octets one after the other into an array with
room for the longest address.  The end it passes to `std::to_chars` is the last
byte of that array and not the end behind it, so one byte of it is never used.
-/

namespace SkAsync.Net.Inet

open SkAsync.Library

/-- `max_string_length`: the length of `255.255.255.255`. -/
abbrev maxStringLength : Nat := 15

/-- What `std::to_chars` leaves in the array, the pointer it returns, and whether it
reports no error. -/
structure ToCharsResult where
  ret : Memory UInt8
  ptr : Nat
  fits : Bool

/-- `std::to_chars` for an array, from `first` to `last`.  When the text does not fit
it returns `last`, with unspecified bytes in front. -/
def toCharsTo (unspecified ret : Memory UInt8) (first last n : Nat) : ToCharsResult :=
  let text := toChars n
  if first + text.length ≤ last then ⟨ret.store first text, first + text.length, true⟩
  else ⟨ret.store first (unspecified.slice first (last - first)), last, false⟩

/-- The loop of `to_string` over the octets that are left. -/
def toStringLoop (build : Build) (unspecified : Memory UInt8) :
    List UInt8 → Memory UInt8 → Nat → Except Fault (Memory UInt8 × Nat)
  | [], ret, ptr => .ok (ret, ptr)
  | octet :: octets, ret, ptr => do
      let p := toCharsTo unspecified ret ptr (maxStringLength - 1) octet.toNat
      skCheck build p.fits "to_chars failure"
      if octets = [] then .ok (p.ret, p.ptr)
      else toStringLoop build unspecified octets (p.ret.store p.ptr [dot]) (p.ptr + 1)

/-- `inet_family::to_string`. -/
def toString (build : Build) (unspecified : Memory UInt8) (addr : Address 4) :
    Except Fault Text := do
  let (ret, ptr) ← toStringLoop build unspecified addr.bytes (fun _ => 0) 0
  .ok (ret.slice 0 ptr)

/-- The octets in decimal, without leading zeros, with dots between them. -/
def dottedDecimal : List UInt8 → Text
  | [] => []
  | [octet] => toChars octet.toNat
  | octet :: octets => toChars octet.toNat ++ dot :: dottedDecimal octets

theorem dottedDecimal_cons {octets : List UInt8} (octet : UInt8) (more : octets ≠ []) :
    dottedDecimal (octet :: octets) = toChars octet.toNat ++ dot :: dottedDecimal octets := by
  cases octets with
  | nil => exact absurd rfl more
  | cons next octets => rfl

/-- The number of decimal digits of an octet. -/
theorem length_toChars_octet (octet : UInt8) :
    (toChars octet.toNat).length = if octet < 10 then 1 else if octet < 100 then 2 else 3 := by
  have all : ∀ n < 256, (toChars n).length =
      if UInt8.ofNat n < 10 then 1 else if UInt8.ofNat n < 100 then 2 else 3 := by
    decide +kernel
  have here := all octet.toNat octet.toNat_lt
  rwa [UInt8.ofNat_toNat] at here

/-! ## Reading back -/

theorem dotted_dottedDecimal {octets : List UInt8} (some_octet : octets ≠ []) :
    Dotted (dottedDecimal octets) (octets.map UInt8.toNat) := by
  induction octets with
  | nil => exact absurd rfl some_octet
  | cons octet octets ih =>
      have numeral : Numeral 10 octetMax (toChars octet.toNat) octet.toNat :=
        numeral_toChars (Nat.le_of_lt_succ octet.toNat_lt)
      cases octets with
      | nil => exact .last numeral
      | cons next octets => exact .cons numeral (ih (List.cons_ne_nil _ _))

/-- The canonical text of an address is read as that address. -/
theorem fromString_dottedDecimal (addr : Address 4) :
    fromString (dottedDecimal addr.bytes) = .ok addr := by
  rw [fromString_eq_ok_iff_quad]
  have nonempty : addr.bytes ≠ [] := by
    intro empty
    have size_eq := addr.size_eq
    rw [empty] at size_eq
    cases size_eq
  refine ⟨addr.bytes.map UInt8.toNat, ⟨dotted_dottedDecimal nonempty, ?_⟩, ?_⟩
  · rw [List.length_map, addr.size_eq]
  · rw [List.map_map]
    exact (List.map_id'' (fun octet => UInt8.ofNat_toNat) _).symm

/-! ## Where the text ends -/

/-- One octet that fits, and the dot behind it. -/
theorem toStringLoop_cons_of_fits (build : Build) (unspecified ret : Memory UInt8) {ptr : Nat}
    {octet : UInt8} {octets : List UInt8}
    (fits : ptr + (toChars octet.toNat).length ≤ maxStringLength - 1) :
    toStringLoop build unspecified (octet :: octets) ret ptr =
      if octets = [] then
        .ok (ret.store ptr (toChars octet.toNat), ptr + (toChars octet.toNat).length)
      else
        toStringLoop build unspecified octets (ret.store ptr (toChars octet.toNat ++ [dot]))
          (ptr + (toChars octet.toNat).length + 1) := by
  have written : toCharsTo unspecified ret ptr (maxStringLength - 1) octet.toNat =
      ⟨ret.store ptr (toChars octet.toNat), ptr + (toChars octet.toNat).length, true⟩ :=
    if_pos fits
  rw [toStringLoop, written]
  dsimp only
  rw [skCheck_of rfl, Memory.store_store]
  rfl

/-- The loop writes the canonical text as long as it ends before the last byte of
the array. -/
theorem toStringLoop_of_fits (build : Build) (unspecified ret : Memory UInt8) {ptr : Nat}
    {octets : List UInt8} (fits : ptr + (dottedDecimal octets).length ≤ maxStringLength - 1) :
    toStringLoop build unspecified octets ret ptr =
      .ok (ret.store ptr (dottedDecimal octets), ptr + (dottedDecimal octets).length) := by
  induction octets generalizing ret ptr with
  | nil => simp [toStringLoop, dottedDecimal]
  | cons octet octets ih =>
      by_cases last : octets = []
      · subst last
        rw [toStringLoop_cons_of_fits build unspecified ret fits, if_pos rfl]
        rfl
      · rw [dottedDecimal_cons octet last, List.length_append, List.length_cons] at fits
        have position : ptr + (toChars octet.toNat).length + 1 =
            ptr + (toChars octet.toNat ++ [dot]).length := by
          rw [List.length_append, List.length_singleton, Nat.add_assoc]
        rw [toStringLoop_cons_of_fits build unspecified ret (by omega), if_neg last,
          ih _ (by omega), position, Memory.store_store, dottedDecimal_cons octet last,
          Nat.add_assoc, ← List.length_append, List.append_assoc, List.singleton_append]

/-- Wherever the loop ends, it is not behind the last byte of the array. -/
theorem toStringLoop_ptr_le {build : Build} {unspecified ret ret' : Memory UInt8} {ptr ptr' : Nat}
    {octets : List UInt8} (some_octet : octets ≠ [])
    (result : toStringLoop build unspecified octets ret ptr = .ok (ret', ptr')) :
    ptr' ≤ maxStringLength - 1 := by
  induction octets generalizing ret ptr with
  | nil => exact absurd rfl some_octet
  | cons octet octets ih =>
      have written_le : (toCharsTo unspecified ret ptr (maxStringLength - 1) octet.toNat).ptr ≤
          maxStringLength - 1 := by
        unfold toCharsTo
        dsimp only
        split_ifs with fits
        · exact fits
        · exact Nat.le_refl _
      unfold toStringLoop at result
      generalize toCharsTo unspecified ret ptr (maxStringLength - 1) octet.toNat = p
        at result written_le
      dsimp only at result
      cases check : skCheck build (p.fits = true) "to_chars failure" with
      | error fault =>
          rw [check] at result
          cases result
      | ok done =>
          rw [check] at result
          change (if octets = [] then _ else _) = _ at result
          split_ifs at result with last
          · cases result
            exact written_le
          · exact ih last result

/-- Only three digits in every octet make the text longer than that. -/
theorem length_dottedDecimal_le_iff (addr : Address 4) :
    (dottedDecimal addr.bytes).length ≤ maxStringLength - 1 ↔
      ∃ octet ∈ addr.bytes, octet < 100 := by
  rcases addr with ⟨bytes, size_eq⟩
  match bytes, size_eq with
  | [a, b, c, d], _ =>
      have digits : ∀ octet : UInt8, (toChars octet.toNat).length ≤ 3 ∧
          (octet < 100 ↔ (toChars octet.toNat).length ≤ 2) := by
        intro octet
        rw [length_toChars_octet]
        grind
      simp only [dottedDecimal, List.length_append, List.length_cons, List.mem_cons,
        List.not_mem_nil, or_false, exists_eq_or_imp, exists_eq_left, (digits a).2, (digits b).2,
        (digits c).2, (digits d).2]
      have := (digits a).1
      have := (digits b).1
      have := (digits c).1
      have := (digits d).1
      have room : maxStringLength = 15 := rfl
      omega

/-- `to_string` passes its check and returns the canonical text, and that text is read
as the address, exactly for the addresses with an octet below 100. -/
theorem toString_fromString_iff (build : Build) (unspecified : Memory UInt8) (addr : Address 4) :
    (∃ text, toString build unspecified addr = .ok text ∧ text = dottedDecimal addr.bytes ∧
      fromString text = .ok addr) ↔ ∃ octet ∈ addr.bytes, octet < 100 := by
  rw [← length_dottedDecimal_le_iff]
  constructor
  · rintro ⟨text, printed, text_eq, _⟩
    unfold toString at printed
    cases written : toStringLoop build unspecified addr.bytes (fun _ => 0) 0 with
    | error fault =>
        rw [written] at printed
        cases printed
    | ok result =>
        rcases result with ⟨ret, ptr⟩
        have nonempty : addr.bytes ≠ [] := by
          intro empty
          have size_eq := addr.size_eq
          rw [empty] at size_eq
          cases size_eq
        rw [written] at printed
        change Except.ok (ret.slice 0 ptr) = .ok text at printed
        rw [← text_eq, ← Except.ok.inj printed, Memory.length_slice]
        exact toStringLoop_ptr_le nonempty written
  · intro fits
    refine ⟨dottedDecimal addr.bytes, ?_, rfl, fromString_dottedDecimal addr⟩
    unfold toString
    rw [toStringLoop_of_fits build unspecified _ (by rwa [Nat.zero_add])]
    change Except.ok _ = _
    rw [Nat.zero_add, Memory.slice_store_self]

/-- The check fires for the address of the longest text. -/
theorem toString_fails_at_broadcast :
    ¬ ∀ (unspecified : Memory UInt8) (addr : Address 4), ∃ text,
      toString .debug unspecified addr = .ok text ∧ text = dottedDecimal addr.bytes ∧
        fromString text = .ok addr := by
  intro prints
  rcases prints (fun _ => 0) ⟨[255, 255, 255, 255], rfl⟩ with ⟨text, printed, _⟩
  have fails : toString .debug (fun _ => 0) ⟨[255, 255, 255, 255], rfl⟩ =
      .error (.checkFailed "to_chars failure") := by
    rfl
  rw [fails] at printed
  cases printed

end SkAsync.Net.Inet

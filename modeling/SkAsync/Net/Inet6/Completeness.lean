import SkAsync.Net.Inet6.Soundness
import SkAsync.Net.InetText
import Mathlib.Data.List.Induction

/-!
# Every textual form of an address is read

An address has many textual forms: the digits of a group may be in either case and
padded with zeros up to four digits, any one run of zero groups may be replaced by
`::`, and the last two groups may be written as an IPv4 address.  `TextualForm`
lists them from the side of a printer.  The parser returns the address for each of
them, so it undoes whatever printer chooses among them.
-/

namespace SkAsync.Net.Inet6

open SkAsync.Library

/-- A group as a printer may write it: one to four digits. -/
structure HexGroup (text : Text) (group : Nat) : Prop where
  digits : ∀ c ∈ text, IsDigit 16 c
  some_digit : text ≠ []
  at_most_four : text.length ≤ 4
  value_eq : valueOf 16 text = group

/-- Groups with colons between them. -/
inductive PrintedGroups : Text → List Nat → Prop
  | last {text : Text} {group : Nat} : HexGroup text group → PrintedGroups text [group]
  | cons {text rest : Text} {group : Nat} {groups : List Nat} : HexGroup text group →
      PrintedGroups rest groups → PrintedGroups (text ++ colon :: rest) (group :: groups)

/-- The same at the end of an address, where the last two groups may be an IPv4
address. -/
inductive PrintedEnd : Text → List Nat → Prop
  | last {text : Text} {group : Nat} : HexGroup text group → PrintedEnd text [group]
  | quad {text : Text} {octets : List Nat} :
      Inet.Quad text octets → PrintedEnd text (quadGroups octets)
  | cons {text rest : Text} {group : Nat} {groups : List Nat} : HexGroup text group →
      PrintedEnd rest groups → PrintedEnd (text ++ colon :: rest) (group :: groups)

/-- The ways of writing eight groups. -/
inductive PrintedGroupsOfAddress : Text → List Nat → Prop
  /-- All of them. -/
  | full {text : Text} {groups : List Nat} :
      PrintedEnd text groups → PrintedGroupsOfAddress text groups
  /-- A run of zeros at the start is replaced, with at least one group behind it. -/
  | zerosFirst {right : Text} {after : List Nat} {count : Nat} : 1 ≤ count →
      PrintedEnd right after →
      PrintedGroupsOfAddress (colon :: colon :: right) (List.replicate count 0 ++ after)
  /-- A run of zeros in the middle is replaced. -/
  | zerosBetween {left right : Text} {before after : List Nat} {count : Nat} : 1 ≤ count →
      PrintedGroups left before → PrintedEnd right after →
      PrintedGroupsOfAddress (left ++ colon :: colon :: right)
        (before ++ List.replicate count 0 ++ after)
  /-- A run of zeros at the end is replaced. -/
  | zerosLast {left : Text} {before : List Nat} {count : Nat} : 1 ≤ count →
      PrintedGroups left before →
      PrintedGroupsOfAddress (left ++ [colon, colon]) (before ++ List.replicate count 0)
  /-- All groups are zero and are replaced. -/
  | zeros : PrintedGroupsOfAddress [colon, colon] (List.replicate 8 0)

/-- A text is a form of an address. -/
def TextualForm (address : Address 16) (text : Text) : Prop :=
  ∃ groups, groups.length = 8 ∧ PrintedGroupsOfAddress text groups ∧
    address.bytes = groups.flatMap groupBytes

/-! ## What a printer writes is a literal -/

theorem valueOf_lt_pow {base : Nat} {text : Text} (digits : ∀ c ∈ text, IsDigit base c) :
    valueOf base text < base ^ text.length := by
  induction text using List.reverseRecOn with
  | nil => exact Nat.one_pos
  | append_singleton front c ih =>
      have front_lt := ih fun d member => digits d (List.mem_append_left _ member)
      have digit_lt : digitValue c < base :=
        digits c (List.mem_append_right _ (List.mem_singleton_self c))
      rw [valueOf_append_singleton, List.length_append, List.length_singleton, Nat.pow_succ]
      calc valueOf base front * base + digitValue c
          < valueOf base front * base + base := Nat.add_lt_add_left digit_lt _
        _ = (valueOf base front + 1) * base := (Nat.succ_mul _ _).symm
        _ ≤ base ^ front.length * base := Nat.mul_le_mul_right base front_lt

theorem HexGroup.group {text : Text} {group : Nat} (printed : HexGroup text group) :
    Group text group := by
  refine ⟨printed.some_digit, printed.digits, printed.value_eq, ?_⟩
  apply Nat.le_of_lt_succ
  calc group = valueOf 16 text := printed.value_eq.symm
    _ < 16 ^ text.length := valueOf_lt_pow printed.digits
    _ ≤ 16 ^ 4 := Nat.pow_le_pow_right (by decide) printed.at_most_four

theorem PrintedGroups.groups {text : Text} {groups : List Nat}
    (printed : PrintedGroups text groups) : Groups text groups := by
  induction printed with
  | last group => exact .last group.group
  | cons group _ ih => exact .cons group.group ih

theorem PrintedEnd.sequence {text : Text} {groups : List Nat} (printed : PrintedEnd text groups) :
    Sequence text groups := by
  induction printed with
  | last group => exact .group group.group
  | quad quad => exact .quad quad
  | cons group _ ih => exact .cons group.group ih

/-- The compressed literal for a run of known length. -/
theorem literal_of_zeros (left right : Text) (before after : List Nat) {count : Nat}
    (one_le : 1 ≤ count) (length_eq : before.length + count + after.length = 8)
    (groups : OptGroups left before) (sequence : OptSequence right after) :
    Literal (left ++ colon :: colon :: right) (before ++ List.replicate count 0 ++ after) := by
  have count_eq : count = 8 - (before.length + after.length) := by omega
  rw [count_eq]
  exact .compressed groups sequence (by omega)

theorem PrintedGroupsOfAddress.literal {text : Text} {groups : List Nat}
    (printed : PrintedGroupsOfAddress text groups) (length_eq : groups.length = 8) :
    Literal text groups := by
  cases printed with
  | full whole => exact .full whole.sequence length_eq
  | zerosFirst one_le after =>
      rw [List.length_append, List.length_replicate] at length_eq
      exact literal_of_zeros [] _ [] _ one_le (by simpa using length_eq)
        (Or.inl ⟨rfl, rfl⟩) (Or.inr after.sequence)
  | zerosBetween one_le before after =>
      rw [List.length_append, List.length_append, List.length_replicate] at length_eq
      exact literal_of_zeros _ _ _ _ one_le length_eq (Or.inr before.groups) (Or.inr after.sequence)
  | zerosLast one_le before =>
      rw [List.length_append, List.length_replicate] at length_eq
      have literal := literal_of_zeros _ [] _ [] one_le
        (by simpa using length_eq) (Or.inr before.groups) (Or.inl ⟨rfl, rfl⟩)
      rwa [List.append_nil] at literal
  | zeros =>
      have one_le : 1 ≤ 8 := by decide
      have literal := literal_of_zeros [] [] [] [] one_le rfl (Or.inl ⟨rfl, rfl⟩)
        (Or.inl ⟨rfl, rfl⟩)
      rwa [List.append_nil] at literal

/-! ## Reading a literal -/

/-- The parser returns the address a literal denotes. -/
theorem fromString_of_denotes (build : Build) {s : Text} {address : Address 16}
    (denotes : Denotes s address.bytes) : fromString build s = .ok (.ok address) := by
  rcases denotes with ⟨groups, literal, bytes_eq⟩
  have read : ∀ before after, Accepts s before after →
      (before ++ List.replicate (8 - (before.length + (after.getD []).length)) 0 ++
        after.getD []) = groups → fromString build s = .ok (.ok address) := by
    intro before after accepts groups_eq
    rcases (parse_spec build s).1 before after accepts with ⟨final, parsed, reads⟩
    refine fromString_eq_ok_iff.mpr ⟨final, parsed, ?_⟩
    rw [Address.mk.injEq, assemble_of_accepts accepts reads, groups_eq, bytes_eq]
  cases literal with
  | full sequence length_eq =>
      apply read groups none (accepts_of_full sequence length_eq)
      simp [length_eq]
  | compressed isGroups sequence total =>
      exact read _ _ (accepts_of_ending isGroups (Or.inl sequence) total) rfl

/-- The parser returns an address for every textual form of it, in either build. -/
theorem fromString_of_textualForm (build : Build) {address : Address 16} {text : Text}
    (form : TextualForm address text) : fromString build text = .ok (.ok address) := by
  rcases form with ⟨groups, length_eq, printed, bytes_eq⟩
  exact fromString_of_denotes build ⟨groups, printed.literal length_eq, bytes_eq⟩

/-- The parser undoes every printer of addresses. -/
theorem fromString_print (build : Build) {print : Address 16 → Text}
    (prints : ∀ address, TextualForm address (print address)) (address : Address 16) :
    fromString build (print address) = .ok (.ok address) :=
  fromString_of_textualForm build (prints address)

/-- Two padded groups in mixed case, a run of three zeros and an IPv4 address. -/
theorem fromString_of_mixed_form :
    fromString .debug (ascii "2001:0Db8:1::192.0.2.33") =
      .ok (.ok ⟨[32, 1, 13, 184, 0, 1, 0, 0, 0, 0, 0, 0, 192, 0, 2, 33], rfl⟩) := by
  apply fromString_of_textualForm
  have first : HexGroup (ascii "2001") 8193 :=
    ⟨by decide +kernel, by decide, by decide, by decide +kernel⟩
  have second : HexGroup (ascii "0Db8") 3512 :=
    ⟨by decide +kernel, by decide, by decide, by decide +kernel⟩
  have third : HexGroup (ascii "1") 1 :=
    ⟨by decide +kernel, by decide, by decide, by decide +kernel⟩
  have quad : Inet.Quad (ascii "192.0.2.33") [192, 0, 2, 33] := by
    have nonempty : ([192, 0, 2, 33] : List UInt8) ≠ [] := by decide
    exact ⟨Inet.dotted_dottedDecimal nonempty, rfl⟩
  have before : PrintedGroups (ascii "2001:0Db8:1") [8193, 3512, 1] :=
    .cons first (.cons second (.last third))
  have some_zeros : 1 ≤ 3 := by decide
  exact ⟨_, rfl, .zerosBetween some_zeros before (.quad quad), rfl⟩

end SkAsync.Net.Inet6

import SkAsync.Library.Text

/-!
# IPv4 addresses

`span_number` and `inet_family::from_string`.  The four octets are read by one
loop; the main result says that it accepts exactly the dotted quads, with any
number of leading zeros.
-/

namespace SkAsync.Net

open SkAsync.Library

/-- `sk::error::invalid_address_format`, the only error these parsers report. -/
inductive AddressError
  | invalidAddressFormat
  deriving DecidableEq, Repr

/-- The bytes of an address of a family. -/
structure Address (size : Nat) where
  bytes : Text
  size_eq : bytes.length = size
  deriving DecidableEq, Repr

/-- `addr.bytes[i]`. -/
def Address.get {size : Nat} (address : Address size) (i : Fin size) : UInt8 :=
  address.bytes.get (i.cast address.size_eq.symm)

/-- `span_number`: the number at the start of a text, if any, and the rest, or
the original text. -/
def spanNumber (max base : Nat) (v : Text) : Option Nat × Text :=
  match fromChars base max v with
  | none => (none, v)
  | some (i, rest) => (some i, rest)

namespace Inet

/-- The largest octet. -/
abbrev octetMax : Nat := 255

/-- `'.'`. -/
abbrev dot : UInt8 := 46

/-- The loop of `inet_family::from_string`, with `left` octets to go.  The last
octet has to end the text, the others have to be followed by a dot. -/
def octetLoop : (left : Nat) → Text → Except AddressError (Address left)
  | 0, _ => .ok ⟨[], rfl⟩
  | left + 1, s =>
      match spanNumber octetMax 10 s with
      | (none, _) => .error .invalidAddressFormat
      | (some num, s) =>
          match left, s with
          | 0, [] => .ok ⟨[UInt8.ofNat num], rfl⟩
          | left + 1, c :: s =>
              if c = dot then
                match octetLoop (left + 1) s with
                | .error error => .error error
                | .ok rest =>
                    .ok ⟨UInt8.ofNat num :: rest.bytes, by
                      rw [List.length_cons, rest.size_eq]⟩
              else
                .error .invalidAddressFormat
          | _, _ => .error .invalidAddressFormat

/-- `inet_family::from_string`. -/
def fromString (s : Text) : Except AddressError (Address 4) :=
  octetLoop 4 s

/-- A dotted text and the numbers between the dots. -/
abbrev Dotted : Text → List Nat → Prop :=
  Separated dot (Numeral 10 octetMax)

/-- A dotted quad denotes four octets. -/
structure Quad (text : Text) (octets : List Nat) : Prop where
  dotted : Dotted text octets
  length_eq : octets.length = 4

theorem spanNumber_eq_some_iff {max base value : Nat} {s rest : Text} :
    spanNumber max base s = (some value, rest) ↔
      ∃ text, s = text ++ rest ∧ Numeral base max text value ∧ EndsNumeral base rest := by
  rw [← fromChars_eq_some_iff]
  unfold spanNumber
  cases fromChars base max s with
  | none => simp
  | some parsed => simp [Prod.ext_iff]

/-- A numeral read up to a byte that is no digit. -/
theorem spanNumber_of_numeral {max base value : Nat} {text rest : Text}
    (numeral : Numeral base max text value) (ends : EndsNumeral base rest) :
    spanNumber max base (text ++ rest) = (some value, rest) :=
  spanNumber_eq_some_iff.mpr ⟨text, rfl, numeral, ends⟩

theorem not_isDigit_dot : ¬ IsDigit 10 dot := by
  decide

/-- The loop accepts exactly dotted texts of as many numbers as it has to read. -/
theorem octetLoop_eq_ok_iff {left : Nat} {s : Text} {address : Address (left + 1)} :
    octetLoop (left + 1) s = .ok address ↔
      ∃ octets, Dotted s octets ∧ octets.length = left + 1 ∧
        address.bytes = octets.map UInt8.ofNat := by
  induction left generalizing s with
  | zero =>
      constructor
      · intro parsed
        unfold octetLoop at parsed
        split at parsed
        · cases parsed
        · rename_i num rest number
          rcases spanNumber_eq_some_iff.mp number with ⟨text, rfl, numeral, _⟩
          cases rest with
          | cons c rest => cases parsed
          | nil =>
              cases parsed
              rw [List.append_nil]
              exact ⟨[num], .last numeral, rfl, rfl⟩
      · rintro ⟨octets, dotted, length_eq, bytes_eq⟩
        cases dotted with
        | cons _ rest => cases rest <;> cases length_eq
        | last numeral =>
            rename_i num
            have number := spanNumber_of_numeral numeral (endsNumeral_nil 10)
            rw [List.append_nil] at number
            rcases address with ⟨bytes, size_eq⟩
            cases bytes_eq
            unfold octetLoop
            rw [number]
            rfl
  | succ left ih =>
      constructor
      · intro parsed
        unfold octetLoop at parsed
        split at parsed
        · cases parsed
        · rename_i num rest number
          rcases spanNumber_eq_some_iff.mp number with ⟨text, rfl, numeral, _⟩
          cases rest with
          | nil => cases parsed
          | cons c rest =>
              dsimp only at parsed
              split at parsed
              · rename_i isDot
                subst isDot
                split at parsed
                · cases parsed
                · rename_i tail tailParsed
                  rcases ih.mp tailParsed with ⟨octets, dotted, length_eq, bytes_eq⟩
                  cases parsed
                  refine ⟨num :: octets, .cons numeral dotted, ?_, ?_⟩
                  · rw [List.length_cons, length_eq]
                  · rw [List.map_cons, ← bytes_eq]
              · cases parsed
      · rintro ⟨octets, dotted, length_eq, bytes_eq⟩
        cases dotted with
        | last numeral => cases length_eq
        | cons numeral dotted =>
            rename_i text rest num octets
            have number := spanNumber_of_numeral numeral
              ((endsNumeral_cons 10 dot rest).mpr not_isDigit_dot)
            have length_eq' : octets.length = left + 1 := Nat.succ.inj length_eq
            have tailParsed : octetLoop (left + 1) rest =
                .ok ⟨octets.map UInt8.ofNat, by rw [List.length_map, length_eq']⟩ :=
              ih.mpr ⟨octets, dotted, length_eq', rfl⟩
            rcases address with ⟨bytes, size_eq⟩
            cases bytes_eq
            unfold octetLoop
            rw [number]
            dsimp only
            rw [if_pos rfl, tailParsed]

/-- `inet_family::from_string` accepts exactly the dotted quads and returns
their octets. -/
theorem fromString_eq_ok_iff_quad {s : Text} {address : Address 4} :
    fromString s = .ok address ↔
      ∃ octets, Quad s octets ∧ address.bytes = octets.map UInt8.ofNat := by
  unfold fromString
  rw [octetLoop_eq_ok_iff]
  constructor
  · rintro ⟨octets, dotted, length_eq, bytes_eq⟩
    exact ⟨octets, ⟨dotted, length_eq⟩, bytes_eq⟩
  · rintro ⟨octets, ⟨dotted, length_eq⟩, bytes_eq⟩
    exact ⟨octets, dotted, length_eq, bytes_eq⟩

/-- A string of decimal digits that denotes an octet, with any number of leading zeros. -/
structure DecimalOctet (text : Text) : Prop where
  nonempty : text ≠ []
  digits : ∀ c ∈ text, 48 ≤ c ∧ c ≤ 57
  value_le : valueOf 10 text ≤ octetMax

theorem numeral_octet_iff {text : Text} {value : Nat} :
    Numeral 10 octetMax text value ↔ DecimalOctet text ∧ valueOf 10 text = value := by
  constructor
  · rintro ⟨nonempty, digits, rfl, le_max⟩
    exact ⟨⟨nonempty, fun c member => isDigit_ten_iff.mp (digits c member), le_max⟩, rfl⟩
  · rintro ⟨⟨nonempty, digits, value_le⟩, rfl⟩
    exact ⟨nonempty, fun c member => isDigit_ten_iff.mpr (digits c member), rfl, value_le⟩

/-- A dotted quad is four strings of digits with dots between them. -/
theorem quad_iff_digits {text : Text} {octets : List Nat} :
    Quad text octets ↔
      ∃ first second third fourth,
        text = first ++ dot :: (second ++ dot :: (third ++ dot :: fourth)) ∧
        (∀ digits ∈ [first, second, third, fourth], DecimalOctet digits) ∧
        octets = [first, second, third, fourth].map (valueOf 10) := by
  constructor
  · rintro ⟨dotted, length_eq⟩
    match octets, length_eq with
    | [a, b, c, d], _ =>
        rcases separated_cons_iff.mp dotted with ⟨first, _, rfl, firstNumeral, three⟩
        rcases separated_cons_iff.mp three with ⟨second, _, rfl, secondNumeral, two⟩
        rcases separated_cons_iff.mp two with ⟨third, fourth, rfl, thirdNumeral, one⟩
        rcases numeral_octet_iff.mp firstNumeral with ⟨isFirst, rfl⟩
        rcases numeral_octet_iff.mp secondNumeral with ⟨isSecond, rfl⟩
        rcases numeral_octet_iff.mp thirdNumeral with ⟨isThird, rfl⟩
        rcases numeral_octet_iff.mp (separated_singleton_iff.mp one) with ⟨isFourth, rfl⟩
        refine ⟨first, second, third, fourth, rfl, ?_, rfl⟩
        simp [isFirst, isSecond, isThird, isFourth]
  · rintro ⟨first, second, third, fourth, rfl, digits, rfl⟩
    have numeral : ∀ text ∈ [first, second, third, fourth],
        Numeral 10 octetMax text (valueOf 10 text) :=
      fun text member => numeral_octet_iff.mpr ⟨digits text member, rfl⟩
    simp only [List.forall_mem_cons] at numeral
    rcases numeral with ⟨isFirst, isSecond, isThird, isFourth, _⟩
    exact ⟨.cons isFirst (.cons isSecond (.cons isThird (.last isFourth))), rfl⟩

/-- `inet_family::from_string` accepts exactly four strings of decimal digits with single
dots between them, each with a value of at most 255, and returns these values. -/
theorem fromString_eq_ok_iff_digits {s : Text} {address : Address 4} :
    fromString s = .ok address ↔
      ∃ first second third fourth,
        s = first ++ dot :: (second ++ dot :: (third ++ dot :: fourth)) ∧
        (∀ digits ∈ [first, second, third, fourth], DecimalOctet digits) ∧
        address.bytes = [first, second, third, fourth].map
          fun digits => UInt8.ofNat (valueOf 10 digits) := by
  unfold fromString
  rw [octetLoop_eq_ok_iff]
  constructor
  · rintro ⟨octets, dotted, length_eq, bytes_eq⟩
    rcases quad_iff_digits.mp ⟨dotted, length_eq⟩ with
      ⟨first, second, third, fourth, text_eq, digits, rfl⟩
    exact ⟨first, second, third, fourth, text_eq, digits, by rw [bytes_eq, List.map_map]; rfl⟩
  · rintro ⟨first, second, third, fourth, text_eq, digits, bytes_eq⟩
    rcases quad_iff_digits.mpr ⟨first, second, third, fourth, text_eq, digits, rfl⟩ with
      ⟨dotted, length_eq⟩
    exact ⟨_, dotted, length_eq, by rw [bytes_eq, List.map_map]; rfl⟩

/-- The bytes of a dotted quad are dots and decimal digits. -/
theorem Quad.mem_imp {text : Text} {octets : List Nat} (quad : Quad text octets) :
    ∀ c ∈ text, c = dot ∨ IsDigit 10 c :=
  quad.dotted.mem_imp fun _ _ numeral => numeral.digits

/-- A dotted quad contains a dot. -/
theorem Quad.dot_mem {text : Text} {octets : List Nat} (quad : Quad text octets) :
    dot ∈ text := by
  rcases quad with ⟨dotted, length_eq⟩
  match octets, length_eq with
  | _ :: _ :: _, _ => exact dotted.separator_mem

/-- The octets of a dotted quad are bytes. -/
theorem Quad.le_of_mem {text : Text} {octets : List Nat} (quad : Quad text octets) :
    ∀ octet ∈ octets, octet ≤ octetMax := by
  have dotted := quad.dotted
  clear quad
  induction dotted with
  | last numeral =>
      intro octet member
      rw [List.mem_singleton.mp member]
      exact numeral.le_max
  | cons numeral _ ih =>
      intro octet member
      rcases List.mem_cons.mp member with rfl | later
      · exact numeral.le_max
      · exact ih octet later

end Inet

end SkAsync.Net

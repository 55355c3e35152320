import SkAsync.Net.Uri.Policy

/-!
# Escapes

Which texts have a decoding, and what it is, without the loop that computes it:
every byte is ASCII, two hex digits follow every percent sign, and the three of
them stand for one byte.  Parsing with decoding is parsing without it, followed by
the decoding of the path, the query and the fragment.
-/

namespace SkAsync.Net.UriSyntax

open SkAsync.Library

/-- The byte with a number in two hexadecimal digits. -/
def escapedByte (high low : UInt8) : UInt8 :=
  UInt8.ofNat (valueOf 16 [high, low])

/-- A text of 7-bit bytes with two hex digits behind every percent sign. -/
structure Escaped (text : Text) : Prop where
  sevenBit : ∀ c ∈ text, c < 128
  escapes : ∀ front behind, text = front ++ percent :: behind →
    ∃ high low rest, behind = high :: low :: rest ∧ IsDigit 16 high ∧ IsDigit 16 low

/-- The bytes a text stands for.  What is no escape is left as it is. -/
def unescape : Text → Text
  | [] => []
  | c :: v =>
      if c ≠ percent then c :: unescape v
      else
        match v with
        | high :: low :: v => escapedByte high low :: unescape v
        | v => c :: v

theorem unescape_cons {c : UInt8} (v : Text) (plain : c ≠ percent) :
    unescape (c :: v) = c :: unescape v := by
  rw [unescape.eq_def]
  dsimp only
  rw [if_pos plain]

theorem unescape_escape (high low : UInt8) (v : Text) :
    unescape (percent :: high :: low :: v) = escapedByte high low :: unescape v := by
  rw [unescape]
  exact if_neg (not_not.mpr rfl)

/-! ## Hex digits -/

theorem dehexDigit_eq (c : UInt8) :
    dehexDigit c = if IsDigit 16 c then some (digitValue c) else none := by
  have all : ∀ n < 256, dehexDigit (UInt8.ofNat n) =
      if IsDigit 16 (UInt8.ofNat n) then some (digitValue (UInt8.ofNat n)) else none := by
    decide +kernel
  exact forall_byte
    (fun c => dehexDigit c = if IsDigit 16 c then some (digitValue c) else none) all c

theorem lt_of_isDigit {c : UInt8} (digit : IsDigit 16 c) : c < 128 := by
  have all : ∀ n < 256, IsDigit 16 (UInt8.ofNat n) → UInt8.ofNat n < 128 := by
    decide +kernel
  exact forall_byte (fun c => IsDigit 16 c → c < 128) all c digit

theorem ne_percent_of_isDigit {c : UInt8} (digit : IsDigit 16 c) : c ≠ percent := by
  rintro rfl
  revert digit
  decide

theorem valueOf_pair (high low : UInt8) :
    valueOf 16 [high, low] = digitValue high * 16 + digitValue low := by
  simp [valueOf]

/-- Two bytes are read as a number exactly if they are hex digits. -/
theorem dehex_eq_some_iff {high low : UInt8} {n : Nat} :
    dehex high low = some n ↔
      (IsDigit 16 high ∧ IsDigit 16 low) ∧ valueOf 16 [high, low] = n := by
  unfold dehex
  rw [dehexDigit_eq, dehexDigit_eq, valueOf_pair]
  by_cases first : IsDigit 16 high
  · by_cases second : IsDigit 16 low
    · have joined : digitValue high <<< 4 ||| digitValue low =
          digitValue high * 16 + digitValue low := by
        have small : digitValue low < 2 ^ 4 := second
        rw [← Nat.shiftLeft_add_eq_or_of_lt small, Nat.shiftLeft_eq]
      rw [if_pos first, if_pos second]
      dsimp only
      rw [joined, Option.some.injEq]
      exact (and_iff_right ⟨first, second⟩).symm
    · rw [if_pos first, if_neg second]
      constructor
      · intro impossible
        cases impossible
      · rintro ⟨⟨_, digit⟩, _⟩
        exact absurd digit second
  · rw [if_neg first]
    constructor
    · intro impossible
      cases impossible
    · rintro ⟨⟨digit, _⟩, _⟩
      exact absurd digit first

/-! ## Texts with a decoding -/

theorem escaped_nil : Escaped [] where
  sevenBit := by simp
  escapes := by simp

theorem escaped_cons_iff {c : UInt8} {v : Text} (plain : c ≠ percent) :
    Escaped (c :: v) ↔ c < 128 ∧ Escaped v := by
  constructor
  · intro escaped
    refine ⟨escaped.sevenBit c List.mem_cons_self,
      fun d member => escaped.sevenBit d (List.mem_cons_of_mem c member), ?_⟩
    intro front behind text_eq
    exact escaped.escapes (c :: front) behind (congrArg (c :: ·) text_eq)
  · rintro ⟨small, escaped⟩
    constructor
    · intro d member
      rcases List.mem_cons.mp member with rfl | member
      · exact small
      · exact escaped.sevenBit d member
    · intro front behind text_eq
      cases front with
      | nil => exact absurd (List.cons.inj text_eq).1 plain
      | cons d front => exact escaped.escapes front behind (List.cons.inj text_eq).2

/-- The two digits behind a percent sign do not begin an escape themselves. -/
theorem escaped_percent_iff {v : Text} :
    Escaped (percent :: v) ↔ ∃ high low rest, v = high :: low :: rest ∧
      (IsDigit 16 high ∧ IsDigit 16 low) ∧ Escaped rest := by
  constructor
  · intro escaped
    rcases escaped.escapes [] v rfl with ⟨high, low, rest, rfl, digits⟩
    refine ⟨high, low, rest, rfl, digits, ?_, ?_⟩
    · intro c member
      apply escaped.sevenBit
      exact List.mem_cons_of_mem _ (List.mem_cons_of_mem _ (List.mem_cons_of_mem _ member))
    · intro front behind text_eq
      apply escaped.escapes (percent :: high :: low :: front) behind
      rw [text_eq]
      rfl
  · rintro ⟨high, low, rest, rfl, digits, escaped⟩
    have behind : Escaped (high :: low :: rest) :=
      (escaped_cons_iff (ne_percent_of_isDigit digits.1)).mpr ⟨lt_of_isDigit digits.1,
        (escaped_cons_iff (ne_percent_of_isDigit digits.2)).mpr
          ⟨lt_of_isDigit digits.2, escaped⟩⟩
    constructor
    · intro c member
      rcases List.mem_cons.mp member with rfl | member
      · decide
      · exact behind.sevenBit c member
    · intro front behind' text_eq
      cases front with
      | nil =>
          cases text_eq
          exact ⟨high, low, rest, rfl, digits⟩
      | cons c front => exact behind.escapes front behind' (List.cons.inj text_eq).2

/-- A component has a decoding exactly if it is escaped, and it is what the component
stands for. -/
theorem percentDecode_eq_some_iff {text decoded : Text} :
    percentDecode text = some decoded ↔ Escaped text ∧ unescape text = decoded := by
  fun_induction percentDecode text generalizing decoded with
  | case1 =>
      rw [Option.some.injEq]
      exact (and_iff_right escaped_nil).symm
  | case2 c v high =>
      constructor
      · intro impossible
        cases impossible
      · rintro ⟨escaped, _⟩
        exact absurd (escaped.sevenBit c List.mem_cons_self) (UInt8.not_lt.mpr high)
  | case3 c v ascii plain ih =>
      rw [Option.map_eq_some_iff, escaped_cons_iff plain, unescape_cons v plain]
      constructor
      · rintro ⟨rest, rest_eq, rfl⟩
        rcases ih.mp rest_eq with ⟨escaped, rfl⟩
        exact ⟨⟨UInt8.not_le.mp ascii, escaped⟩, rfl⟩
      · rintro ⟨⟨_, escaped⟩, rfl⟩
        exact ⟨_, ih.mpr ⟨escaped, rfl⟩, rfl⟩
  | case4 c ascii escape high low v invalid =>
      constructor
      · intro impossible
        cases impossible
      · rintro ⟨escaped, _⟩
        rw [not_not.mp escape] at escaped
        rcases escaped_percent_iff.mp escaped with ⟨_, _, _, same, digits, _⟩
        cases same
        rw [dehex_eq_some_iff.mpr ⟨digits, rfl⟩] at invalid
        cases invalid
  | case5 c ascii escape high low v n valid ih =>
      rcases dehex_eq_some_iff.mp valid with ⟨digits, rfl⟩
      rw [not_not.mp escape, Option.map_eq_some_iff, escaped_percent_iff,
        unescape_escape]
      constructor
      · rintro ⟨rest, rest_eq, rfl⟩
        rcases ih.mp rest_eq with ⟨escaped, rfl⟩
        exact ⟨⟨high, low, v, rfl, digits, escaped⟩, rfl⟩
      · rintro ⟨⟨_, _, _, same, _, escaped⟩, rfl⟩
        cases same
        exact ⟨_, ih.mpr ⟨escaped, rfl⟩, rfl⟩
  | case6 c v ascii escape short =>
      constructor
      · intro impossible
        cases impossible
      · rintro ⟨escaped, _⟩
        rw [not_not.mp escape] at escaped
        rcases escaped_percent_iff.mp escaped with ⟨high, low, rest, same, _⟩
        exact absurd same (short high low rest)

/-- Induction along the bytes and the escapes of a text. -/
theorem Escaped.induction {motive : (text : Text) → Escaped text → Prop}
    (nil : motive [] escaped_nil)
    (plain : ∀ c v (notPercent : c ≠ percent) (small : c < 128) (behind : Escaped v),
      motive v behind → motive (c :: v) ((escaped_cons_iff notPercent).mpr ⟨small, behind⟩))
    (escape : ∀ high low v (digits : IsDigit 16 high ∧ IsDigit 16 low) (behind : Escaped v),
      motive v behind → motive (percent :: high :: low :: v)
        (escaped_percent_iff.mpr ⟨high, low, v, rfl, digits, behind⟩))
    {text : Text} (escaped : Escaped text) : motive text escaped := by
  induction size : text.length using Nat.strong_induction_on generalizing text with
  | h count ih =>
      subst size
      cases text with
      | nil => exact nil
      | cons c v =>
          by_cases isPercent : c = percent
          · subst isPercent
            rcases escaped_percent_iff.mp escaped with ⟨high, low, rest, rfl, digits, behind⟩
            have shorter : rest.length < (percent :: high :: low :: rest).length := by
              simp only [List.length_cons]
              omega
            exact escape high low rest digits behind (ih rest.length shorter behind rfl)
          · rcases (escaped_cons_iff isPercent).mp escaped with ⟨small, behind⟩
            exact plain c v isPercent small behind (ih v.length (Nat.lt_succ_self _) behind rfl)

/-- An escape does not reach over the end of an escaped text. -/
theorem escaped_append_iff {first : Text} (second : Text) (escaped : Escaped first) :
    Escaped (first ++ second) ↔ Escaped second := by
  induction escaped using Escaped.induction with
  | nil => rfl
  | plain c v notPercent small _ ih =>
      rw [List.cons_append, escaped_cons_iff notPercent, ih]
      exact and_iff_right small
  | escape high low v digits _ ih =>
      rw [← ih]
      constructor
      · intro whole
        rcases escaped_percent_iff.mp whole with ⟨_, _, _, same, _, behind⟩
        cases same
        exact behind
      · intro behind
        exact escaped_percent_iff.mpr ⟨high, low, v ++ second, rfl, digits, behind⟩

theorem unescape_append {first : Text} (second : Text) (escaped : Escaped first) :
    unescape (first ++ second) = unescape first ++ unescape second := by
  induction escaped using Escaped.induction with
  | nil => rfl
  | plain c v notPercent _ _ ih =>
      rw [List.cons_append, unescape_cons _ notPercent, unescape_cons _ notPercent, ih]
      rfl
  | escape high low v _ _ ih =>
      simp only [List.cons_append, unescape_escape, ih]

/-- Every escape is two bytes longer than the byte it stands for. -/
theorem length_unescape {text : Text} (escaped : Escaped text) :
    (unescape text).length + 2 * text.count percent = text.length := by
  induction escaped using Escaped.induction with
  | nil => rfl
  | plain c v notPercent _ _ ih =>
      rw [unescape_cons v notPercent, List.count_cons_of_ne notPercent, List.length_cons,
        List.length_cons]
      omega
  | escape high low v digits _ ih =>
      rw [unescape_escape, List.count_cons_self,
        List.count_cons_of_ne (ne_percent_of_isDigit digits.1),
        List.count_cons_of_ne (ne_percent_of_isDigit digits.2)]
      simp only [List.length_cons]
      omega

theorem escaped_of_not_mem {text : Text} (sevenBit : ∀ c ∈ text, c < 128)
    (noPercent : percent ∉ text) : Escaped text := by
  refine ⟨sevenBit, ?_⟩
  rintro front behind rfl
  exact absurd (List.mem_append_right front List.mem_cons_self) noPercent

/-- A text without escapes stands for itself. -/
theorem unescape_of_not_mem {text : Text} (noPercent : percent ∉ text) : unescape text = text := by
  induction text with
  | nil => rfl
  | cons c v ih =>
      rw [List.mem_cons, not_or] at noPercent
      rw [unescape_cons v (Ne.symm noPercent.1), ih noPercent.2]

/-- Only such a text does. -/
theorem not_mem_of_unescape_eq {text : Text} (escaped : Escaped text)
    (same : unescape text = text) : percent ∉ text := by
  have length_eq := length_unescape escaped
  rw [same] at length_eq
  exact List.count_eq_zero.mp (by omega)

/-! ## Paths -/

/-- The path, the query and the fragment are escaped. -/
structure EscapedPath (path : UriPath) : Prop where
  path_escaped : Escaped path.path
  query_escaped : ∀ text ∈ path.query, Escaped text
  fragment_escaped : ∀ text ∈ path.fragment, Escaped text

/-- A path with its query and fragment, each replaced by what it stands for. -/
def unescapePath (path : UriPath) : UriPath :=
  ⟨unescape path.path, path.query.map unescape, path.fragment.map unescape⟩

theorem percentDecodeOptional_eq_some_iff {component decoded : Option Text} :
    percentDecodeOptional component = some decoded ↔
      (∀ text ∈ component, Escaped text) ∧ component.map unescape = decoded := by
  cases component with
  | none => simp [percentDecodeOptional]
  | some text =>
      rw [percentDecodeOptional, Option.map_eq_some_iff]
      constructor
      · rintro ⟨found, found_eq, rfl⟩
        rcases percentDecode_eq_some_iff.mp found_eq with ⟨escaped, rfl⟩
        exact ⟨by simpa using escaped, rfl⟩
      · rintro ⟨escaped, rfl⟩
        exact ⟨_, percentDecode_eq_some_iff.mpr ⟨escaped text rfl, rfl⟩, rfl⟩

theorem decodeUriPath_eq_some_iff {path decoded : UriPath} :
    decodeUriPath path = some decoded ↔ EscapedPath path ∧ unescapePath path = decoded := by
  unfold decodeUriPath
  constructor
  · intro decodes
    split at decodes
    · rename_i first query fragment first_eq query_eq fragment_eq
      cases decodes
      rcases percentDecode_eq_some_iff.mp first_eq with ⟨pathEscaped, rfl⟩
      rcases percentDecodeOptional_eq_some_iff.mp query_eq with ⟨queryEscaped, rfl⟩
      rcases percentDecodeOptional_eq_some_iff.mp fragment_eq with ⟨fragmentEscaped, rfl⟩
      exact ⟨⟨pathEscaped, queryEscaped, fragmentEscaped⟩, rfl⟩
    · cases decodes
  · rintro ⟨⟨pathEscaped, queryEscaped, fragmentEscaped⟩, rfl⟩
    rw [percentDecode_eq_some_iff.mpr ⟨pathEscaped, rfl⟩,
      percentDecodeOptional_eq_some_iff.mpr ⟨queryEscaped, rfl⟩,
      percentDecodeOptional_eq_some_iff.mpr ⟨fragmentEscaped, rfl⟩]
    rfl

/-! ## Parsing with and without decoding -/

theorem isSet_or_left (first second flags : UriOptions) :
    isSet (first ||| second) flags = (isSet first flags || isSet second flags) := by
  have symmetric : ∀ options flags, isSet options flags = isSet flags options := by
    intro options flags
    rw [isSet, isSet, UInt8.and_comm]
  rw [symmetric, isSet_or, symmetric flags first, symmetric flags second]

/-- The checks do not look at the option for decoding. -/
theorem accepts_or_skipPathDecode (options : UriOptions) (u : Uri) :
    Accepts (options ||| skipPathDecode) u ↔ Accepts options u := by
  have either : isSet skipPathDecode (allowRelative ||| allowProtocolRelative) = false := by
    decide
  have one : isSet skipPathDecode allowProtocolRelative = false := by decide
  unfold Accepts
  rw [isSet_or_left, isSet_or_left, either, one, Bool.or_false, Bool.or_false]

theorem decodeUri_eq_some_iff {options : UriOptions} {raw u : Uri}
    (decodes : ¬ isSet options skipPathDecode) :
    decodeUri options raw = some u ↔
      (∀ path ∈ raw.path, EscapedPath path) ∧
        { raw with path := raw.path.map unescapePath } = u := by
  unfold decodeUri
  rw [if_neg decodes]
  rcases raw with ⟨scheme, authority, path⟩
  cases path with
  | none => simp
  | some path =>
      dsimp only
      rw [Option.map_eq_some_iff]
      constructor
      · rintro ⟨decoded, decoded_eq, rfl⟩
        rcases decodeUriPath_eq_some_iff.mp decoded_eq with ⟨escaped, rfl⟩
        exact ⟨by simpa using escaped, rfl⟩
      · rintro ⟨escaped, rfl⟩
        exact ⟨_, decodeUriPath_eq_some_iff.mpr ⟨escaped path rfl, rfl⟩, rfl⟩

/-- With decoding, a text is parsed exactly if it is parsed without and every component
of the path is escaped; the scheme and the authority are the same, and the path, the
query and the fragment are what the undecoded ones stand for. -/
theorem parseUri_eq_ok_iff_unescape {s : Text} {options : UriOptions} {u : Uri}
    (decodes : ¬ isSet options skipPathDecode) :
    parseUri s options = .ok u ↔
      ∃ raw, parseUri s (options ||| skipPathDecode) = .ok raw ∧
        (∀ path ∈ raw.path, EscapedPath path) ∧
        u.scheme = raw.scheme ∧ u.authority = raw.authority ∧
        u.path = raw.path.map unescapePath := by
  have skips : isSet (options ||| skipPathDecode) skipPathDecode := by
    rw [isSet_or_left]
    exact Bool.or_true _
  rw [parseUri_eq_ok_iff_decoded]
  constructor
  · rintro ⟨raw, parsed, accepted, decoded⟩
    rcases (decodeUri_eq_some_iff decodes).mp decoded with ⟨escaped, rfl⟩
    exact ⟨raw, (parseUri_eq_ok_iff skips).mpr
      ⟨parsed, (accepts_or_skipPathDecode options raw).mpr accepted⟩, escaped, rfl, rfl, rfl⟩
  · rintro ⟨raw, parsed, escaped, scheme_eq, authority_eq, path_eq⟩
    rcases (parseUri_eq_ok_iff skips).mp parsed with ⟨rawParsed, accepted⟩
    refine ⟨raw, rawParsed, (accepts_or_skipPathDecode options raw).mp accepted,
      (decodeUri_eq_some_iff decodes).mpr ⟨escaped, ?_⟩⟩
    rcases u with ⟨scheme, authority, path⟩
    cases scheme_eq
    cases authority_eq
    cases path_eq
    rfl

theorem parseUri_eq_ok_iff_unescape_of_query :
    parseUri (ascii "http://h/%41?%3F#x") 0 =
        .ok ⟨some (ascii "http"), some ⟨none, none, ascii "h", none⟩,
          some ⟨ascii "/A", some (ascii "?"), some (ascii "x")⟩⟩ ↔
      ∃ raw, parseUri (ascii "http://h/%41?%3F#x") (0 ||| skipPathDecode) = .ok raw ∧
        (∀ path ∈ raw.path, EscapedPath path) ∧
        some (ascii "http") = raw.scheme ∧ some ⟨none, none, ascii "h", none⟩ = raw.authority ∧
        some ⟨ascii "/A", some (ascii "?"), some (ascii "x")⟩ = raw.path.map unescapePath :=
  parseUri_eq_ok_iff_unescape (by decide)

end SkAsync.Net.UriSyntax

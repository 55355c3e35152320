import SkAsync.Net.Uri.Escapes

/-!
# Printing a decoded URI

The printer puts the decoded components between their marks as they are, without
escapes.  What is printed is read as the same URI exactly if no escape of the text
stood for a byte that means something else in print: a byte that is not legal in the
component, or a percent sign.  Without an authority in front, the decoded path must
also not begin like one.
-/

namespace SkAsync.Net.UriSyntax

open SkAsync.Library

/-! ## High bytes in the table -/

/-- The entries of the table from `80` on: the rows of high bytes, of which one is missing. -/
theorem drop_chars : chars.drop 128 = List.replicate 112 highc := by
  decide +kernel

/-- The bytes from `80` on are high or nothing at all. -/
theorem chars_of_high {c : UInt8} (high : 128 ≤ c) :
    chars.getD c.toNat 0 = if c < 240 then highc else 0 := by
  have behind : c.toNat = 128 + (c.toNat - 128) :=
    (Nat.add_sub_of_le (UInt8.le_iff_toNat_le.mp high)).symm
  have inside : c < 240 ↔ c.toNat - 128 < 112 := by
    rw [UInt8.lt_iff_toNat_lt]
    change c.toNat < 240 ↔ _
    omega
  rw [List.getD_eq_getElem?_getD, behind, ← List.getElem?_drop, drop_chars,
    List.getElem?_replicate]
  simp only [inside]
  split_ifs
  · rfl
  · rfl

theorem isc_or (first second : Nat) (c : UInt8) :
    isc (first ||| second) c = (isc first c || isc second c) := by
  rw [Bool.eq_iff_iff]
  simp only [isc, Nat.and_or_distrib_left, bne_iff_ne, ne_eq, Nat.or_eq_zero_iff,
    Bool.or_eq_true, not_and_or]

theorem isc_highc_iff {c : UInt8} : isc highc c = true ↔ 128 ≤ c ∧ c < 240 := by
  by_cases high : 128 ≤ c
  · rw [isc, chars_of_high high, and_iff_right high]
    split_ifs with flagged
    · exact iff_of_true (by decide) flagged
    · exact iff_of_false (by decide) flagged
  · have ascii : ∀ n < 128, isc highc (UInt8.ofNat n) = false := by
      decide +kernel
    have unflagged := ascii c.toNat (UInt8.lt_iff_toNat_lt.mp (UInt8.not_le.mp high))
    rw [UInt8.ofNat_toNat] at unflagged
    rw [unflagged]
    exact iff_of_false Bool.false_ne_true fun both => high both.1

/-- A flag other than the one for high bytes is set for ASCII bytes only. -/
theorem lt_of_isc {what : Nat} (notHigh : highc &&& what = 0) {c : UInt8}
    (legal : isc what c = true) : c < 128 := by
  rw [← UInt8.not_le]
  intro high
  rw [isc, chars_of_high high] at legal
  split_ifs at legal
  · rw [notHigh] at legal
    cases legal
  · rw [Nat.zero_and] at legal
    cases legal

/-! ## One component -/

/-- Every escape stands for a byte that is legal in the component and is not a
percent sign. -/
def EscapesLegal (what : Nat) (text : Text) : Prop :=
  ∀ front high low behind, text = front ++ percent :: high :: low :: behind →
    isc what (escapedByte high low) = true ∧ escapedByte high low ≠ percent

theorem escapesLegal_nil (what : Nat) : EscapesLegal what [] := by
  intro front high low behind text_eq
  simp at text_eq

theorem escapesLegal_cons_iff {what : Nat} {c : UInt8} (v : Text) (plain : c ≠ percent) :
    EscapesLegal what (c :: v) ↔ EscapesLegal what v := by
  constructor
  · intro legal front high low behind text_eq
    exact legal (c :: front) high low behind (congrArg (c :: ·) text_eq)
  · intro legal front high low behind text_eq
    cases front with
    | nil => exact absurd (List.cons.inj text_eq).1 plain
    | cons d front => exact legal front high low behind (List.cons.inj text_eq).2

theorem escapesLegal_escape_iff {what : Nat} {high low : UInt8} (v : Text)
    (digits : IsDigit 16 high ∧ IsDigit 16 low) :
    EscapesLegal what (percent :: high :: low :: v) ↔
      (isc what (escapedByte high low) = true ∧ escapedByte high low ≠ percent) ∧
        EscapesLegal what v := by
  rw [← escapesLegal_cons_iff v (ne_percent_of_isDigit digits.2),
    ← escapesLegal_cons_iff (low :: v) (ne_percent_of_isDigit digits.1)]
  constructor
  · intro legal
    refine ⟨legal [] high low v rfl, fun front high' low' behind text_eq => ?_⟩
    exact legal (percent :: front) high' low' behind (congrArg (percent :: ·) text_eq)
  · rintro ⟨first, legal⟩ front high' low' behind text_eq
    cases front with
    | nil =>
        cases text_eq
        exact first
    | cons c front => exact legal front high' low' behind (List.cons.inj text_eq).2

/-- The bytes a text stands for can be printed and read again exactly if its escapes
are legal. -/
theorem forall_mem_unescape_iff {what : Nat} {text : Text} (escaped : Escaped text)
    (legal : ∀ c ∈ text, isc (what ||| highc) c = true) :
    (∀ c ∈ unescape text, isc what c = true ∧ c ≠ percent) ↔ EscapesLegal what text := by
  induction escaped using Escaped.induction with
  | nil => exact iff_of_true (by simp [unescape]) (escapesLegal_nil what)
  | plain c v notPercent small behind ih =>
      have isLegal : isc what c = true := by
        have either := legal c List.mem_cons_self
        rw [isc_or, Bool.or_eq_true, isc_highc_iff] at either
        exact either.resolve_right fun high => UInt8.not_le.mpr small high.1
      rw [unescape_cons v notPercent, escapesLegal_cons_iff v notPercent, List.forall_mem_cons,
        ih fun d member => legal d (List.mem_cons_of_mem c member)]
      exact and_iff_right ⟨isLegal, notPercent⟩
  | escape high low v digits behind ih =>
      rw [unescape_escape, escapesLegal_escape_iff v digits, List.forall_mem_cons,
        ih fun d member => legal d (List.mem_cons_of_mem _ (List.mem_cons_of_mem _
          (List.mem_cons_of_mem _ member)))]

/-! ## Paths -/

/-- The escapes of a path, a query and a fragment stand for bytes that are legal there. -/
structure LegalEscapes (path : UriPath) : Prop where
  path_legal : EscapesLegal pathc path.path
  query_legal : ∀ text ∈ path.query, EscapesLegal queryc text
  fragment_legal : ∀ text ∈ path.fragment, EscapesLegal fragc text

theorem escaped_strMarked (mark : UInt8) (mark_lt : mark < 128) (plain : mark ≠ percent)
    {component : Option Text} (escaped : ∀ text ∈ component, Escaped text) :
    Escaped (strMarked mark component) := by
  cases component with
  | none => exact escaped_nil
  | some text => exact (escaped_cons_iff plain).mpr ⟨mark_lt, escaped text rfl⟩

theorem unescape_strMarked {mark : UInt8} (plain : mark ≠ percent) (component : Option Text) :
    unescape (strMarked mark component) = strMarked mark (component.map unescape) := by
  cases component with
  | none => rfl
  | some text => exact unescape_cons text plain

/-- Decoding the components is decoding the text they are printed as. -/
theorem EscapedPath.unescape_strPath {path : UriPath} (escaped : EscapedPath path) :
    Escaped (strPath path) ∧ unescape (strPath path) = strPath (unescapePath path) := by
  have query := escaped_strMarked question (by decide) (by decide)
    escaped.query_escaped
  have fragment := escaped_strMarked hash (by decide) (by decide)
    escaped.fragment_escaped
  unfold strPath
  rw [List.append_assoc, List.append_assoc]
  constructor
  · rw [escaped_append_iff _ escaped.path_escaped, escaped_append_iff _ query]
    exact fragment
  · rw [unescape_append _ escaped.path_escaped, unescape_append _ query,
      unescape_strMarked (by decide), unescape_strMarked (by decide)]
    rfl

theorem forall_mem_map {component : Option Text} {property : Text → Prop} :
    (∀ text ∈ component.map unescape, property text) ↔
      ∀ text ∈ component, property (unescape text) := by
  cases component with
  | none => simp
  | some text => simp

/-- The decoded components consist of bytes that are printed and read as they are. -/
structure PlainPath (path : UriPath) : Prop where
  path_plain : ∀ c ∈ path.path, isc pathc c = true ∧ c ≠ percent
  query_plain : ∀ text ∈ path.query, ∀ c ∈ text, isc queryc c = true ∧ c ≠ percent
  fragment_plain : ∀ text ∈ path.fragment, ∀ c ∈ text, isc fragc c = true ∧ c ≠ percent

theorem plainPath_unescapePath_iff {path : UriPath} (legal : LegalPath path)
    (escaped : EscapedPath path) : PlainPath (unescapePath path) ↔ LegalEscapes path := by
  have first := forall_mem_unescape_iff escaped.path_escaped legal.path_legal
  have query : ∀ text ∈ path.query,
      (∀ c ∈ unescape text, isc queryc c = true ∧ c ≠ percent) ↔ EscapesLegal queryc text :=
    fun text member =>
      forall_mem_unescape_iff (escaped.query_escaped text member) (legal.query_legal text member)
  have fragment : ∀ text ∈ path.fragment,
      (∀ c ∈ unescape text, isc fragc c = true ∧ c ≠ percent) ↔ EscapesLegal fragc text :=
    fun text member => forall_mem_unescape_iff (escaped.fragment_escaped text member)
      (legal.fragment_legal text member)
  constructor
  · rintro ⟨pathPlain, queryPlain, fragmentPlain⟩
    exact ⟨first.mp pathPlain,
      fun text member => (query text member).mp (forall_mem_map.mp queryPlain text member),
      fun text member => (fragment text member).mp (forall_mem_map.mp fragmentPlain text member)⟩
  · rintro ⟨pathLegal, queryLegal, fragmentLegal⟩
    exact ⟨first.mpr pathLegal,
      forall_mem_map.mpr fun text member => (query text member).mpr (queryLegal text member),
      forall_mem_map.mpr fun text member =>
        (fragment text member).mpr (fragmentLegal text member)⟩

theorem isc_or_left {what : Nat} (other : Nat) {c : UInt8} (legal : isc what c = true) :
    isc (what ||| other) c = true := by
  rw [isc_or, legal]
  rfl

theorem plain_of_legal {what : Nat} {text : Text}
    (legal : ∀ c ∈ text, isc (what ||| highc) c = true)
    (sevenBit : ∀ c ∈ text, c < 128) (noPercent : percent ∉ text) :
    ∀ c ∈ text, isc what c = true ∧ c ≠ percent := by
  intro c member
  have either := legal c member
  rw [isc_or, Bool.or_eq_true, isc_highc_iff] at either
  refine ⟨either.resolve_right fun high => UInt8.not_le.mpr (sevenBit c member) high.1, ?_⟩
  rintro rfl
  exact noPercent member

theorem escaped_of_plain {what : Nat} (notHigh : highc &&& what = 0) {text : Text}
    (plain : ∀ c ∈ text, isc what c = true ∧ c ≠ percent) :
    Escaped text ∧ unescape text = text := by
  have noPercent : percent ∉ text := fun member => (plain percent member).2 rfl
  exact ⟨escaped_of_not_mem (fun c member => lt_of_isc notHigh (plain c member).1) noPercent,
    unescape_of_not_mem noPercent⟩

namespace PlainPath

variable {path : UriPath}

theorem legal (plain : PlainPath path) (slashFirst : ∃ tail, path.path = slash :: tail) :
    LegalPath path where
  slash_first := slashFirst
  path_legal c member := isc_or_left _ (plain.path_plain c member).1
  query_legal text found c member := isc_or_left _ (plain.query_plain text found c member).1
  fragment_legal text found c member :=
    isc_or_left _ (plain.fragment_plain text found c member).1

theorem escaped (plain : PlainPath path) : EscapedPath path where
  path_escaped := (escaped_of_plain (by decide) plain.path_plain).1
  query_escaped text found := (escaped_of_plain (by decide) (plain.query_plain text found)).1
  fragment_escaped text found :=
    (escaped_of_plain (by decide) (plain.fragment_plain text found)).1

theorem unescapePath_eq (plain : PlainPath path) : unescapePath path = path := by
  have query : path.query.map unescape = path.query := by
    cases found : path.query with
    | none => rfl
    | some text =>
        exact congrArg some (escaped_of_plain (by decide) (plain.query_plain text found)).2
  have fragment : path.fragment.map unescape = path.fragment := by
    cases found : path.fragment with
    | none => rfl
    | some text =>
        exact congrArg some (escaped_of_plain (by decide) (plain.fragment_plain text found)).2
  rw [unescapePath, query, fragment, (escaped_of_plain (by decide) plain.path_plain).2]

end PlainPath

theorem mem_strPath_of_query {path : UriPath} {text : Text} (found : text ∈ path.query)
    {c : UInt8} (member : c ∈ text) : c ∈ strPath path := by
  rw [Option.mem_def] at found
  simp [strPath, strMarked, found, member]

theorem mem_strPath_of_fragment {path : UriPath} {text : Text} (found : text ∈ path.fragment)
    {c : UInt8} (member : c ∈ text) : c ∈ strPath path := by
  rw [Option.mem_def] at found
  simp [strPath, strMarked, found, member]

theorem mem_strPath_of_path {path : UriPath} {c : UInt8} (member : c ∈ path.path) :
    c ∈ strPath path := by
  simp [strPath, member]

/-- A path that is printed like its decoding has no escapes. -/
theorem plainPath_of_strPath_eq {path : UriPath} (legal : LegalPath path)
    (escaped : EscapedPath path) (printed : strPath path = strPath (unescapePath path)) :
    PlainPath path := by
  rcases escaped.unescape_strPath with ⟨whole, decoded⟩
  have noPercent : percent ∉ strPath path :=
    not_mem_of_unescape_eq whole (decoded.trans printed.symm)
  constructor
  · exact plain_of_legal legal.path_legal escaped.path_escaped.sevenBit
      fun member => noPercent (mem_strPath_of_path member)
  · intro text found
    exact plain_of_legal (legal.query_legal text found) (escaped.query_escaped text found).sevenBit
      fun member => noPercent (mem_strPath_of_query found member)
  · intro text found
    exact plain_of_legal (legal.fragment_legal text found)
      (escaped.fragment_escaped text found).sevenBit
      fun member => noPercent (mem_strPath_of_fragment found member)

/-- The decoded path is read again, from what is printed for it, exactly if the escapes
are legal. -/
theorem exists_reading_iff {path : UriPath} (legal : LegalPath path)
    (escaped : EscapedPath path) :
    (∃ again, LegalPath again ∧ strPath (unescapePath path) = strPath again ∧
        EscapedPath again ∧ unescapePath again = unescapePath path) ↔ LegalEscapes path := by
  rw [← plainPath_unescapePath_iff legal escaped]
  constructor
  · rintro ⟨again, legal', printed, escaped', same⟩
    have plain : PlainPath again := by
      apply plainPath_of_strPath_eq legal' escaped'
      rw [same, printed]
    rw [← same, plain.unescapePath_eq]
    exact plain
  · intro plain
    have slashFirst : ∃ tail, (unescapePath path).path = slash :: tail := by
      rcases legal.slash_first with ⟨tail, path_eq⟩
      refine ⟨unescape tail, ?_⟩
      rw [unescapePath, path_eq]
      exact unescape_cons tail (by decide)
    exact ⟨_, plain.legal slashFirst, rfl, plain.escaped, plain.unescapePath_eq⟩

/-! ## URIs -/

/-- What is printed for an accepted text can be read again: if its components have a
decoding, then their escapes are legal, and without an authority the decoded text does
not begin with one. -/
def PrintsLegibly (s : Text) (options : UriOptions) : Prop :=
  ∀ raw, rawParseUri s = .ok raw → Accepts options raw →
    (∀ path ∈ raw.path, EscapedPath path) →
      (∀ path ∈ raw.path, LegalEscapes path) ∧
        (raw.authority = none → (matchAuthority (unescape s)).1 = none)

/-- What is printed for a decoded URI is parsed as that URI again. -/
theorem parseUri_str_eq_ok_iff {options : UriOptions} {u : Uri}
    (decodes : ¬ isSet options skipPathDecode) (accepted : Accepts options u) :
    parseUri (str u) options = .ok u ↔
      ∃ path, rawParseUri (str u) = .ok { u with path := path } ∧
        (∀ found ∈ path, EscapedPath found) ∧ path.map unescapePath = u.path := by
  rw [parseUri_eq_ok_iff_decoded]
  constructor
  · rintro ⟨raw, parsed, _, decoded⟩
    rcases (decodeUri_eq_some_iff decodes).mp decoded with ⟨escaped, rfl⟩
    exact ⟨raw.path, parsed, escaped, rfl⟩
  · rintro ⟨path, parsed, escaped, path_eq⟩
    refine ⟨_, parsed, accepted, (decodeUri_eq_some_iff decodes).mpr ⟨escaped, ?_⟩⟩
    rw [path_eq]

/-- The case of a text with an authority. -/
theorem reparsed_iff_of_authority {s : Text} {raw : Uri} {authority : UriAuthority}
    (parsed : rawParseUri s = .ok raw) (found : raw.authority = some authority)
    (escaped : ∀ path ∈ raw.path, EscapedPath path) :
    (∃ path, rawParseUri (str { raw with path := raw.path.map unescapePath }) =
          .ok { raw with path := path } ∧
        (∀ found ∈ path, EscapedPath found) ∧
        path.map unescapePath = raw.path.map unescapePath) ↔
      ∀ path ∈ raw.path, LegalEscapes path := by
  rcases rawParseUri_eq_ok_iff.mp parsed with ⟨_, _, w, _, _, path_eq⟩
  cases hasPath : raw.path with
  | none =>
      have again : rawParseUri (str { raw with path := none }) = .ok { raw with path := none } :=
        (rawParseUri_str_iff parsed found (Or.inl rfl)).mpr ⟨rfl, rfl, rfl⟩
      exact iff_of_true ⟨none, again, by simp, rfl⟩ (by simp)
  | some path =>
      rw [hasPath] at path_eq escaped
      have legal := (matchPath_eq_iff.mp path_eq).1
      have escaped := escaped path rfl
      have after : AfterAuthority (strOptionalPath (some (unescapePath path))) := by
        rcases legal.slash_first with ⟨tail, starts⟩
        right
        simp only [strOptionalPath, strPath, unescapePath, starts,
          unescape_cons tail (show slash ≠ percent by decide), List.cons_append]
        exact ⟨_, rfl⟩
      have one : (∀ found ∈ some path, LegalEscapes found) ↔ LegalEscapes path := by simp
      rw [Option.map_some, one, ← exists_reading_iff legal escaped]
      constructor
      · rintro ⟨reread, again, escaped', meaning⟩
        rcases ((rawParseUri_str_iff parsed found after).mp again).2.2 with path_eq'
        cases reread with
        | none => cases meaning
        | some reread =>
            rcases matchPath_eq_iff.mp path_eq' with ⟨legal', printed⟩
            exact ⟨reread, legal', printed, escaped' reread rfl, Option.some.inj meaning⟩
      · rintro ⟨reread, legal', printed, escaped', meaning⟩
        refine ⟨some reread, (rawParseUri_str_iff parsed found after).mpr ⟨rfl, rfl, ?_⟩, ?_, ?_⟩
        · exact matchPath_eq_iff.mpr ⟨legal', printed⟩
        · rintro _ ⟨⟩
          exact escaped'
        · exact congrArg some meaning

/-- The case of a relative reference. -/
theorem reparsed_iff_of_relative {s : Text} {path : UriPath} (reference : RelativeReference s path)
    (escaped : EscapedPath path) :
    (∃ reread, rawParseUri (str ⟨none, none, some (unescapePath path)⟩) =
          .ok ⟨none, none, reread⟩ ∧
        (∀ found ∈ reread, EscapedPath found) ∧
        reread.map unescapePath = some (unescapePath path)) ↔
      LegalEscapes path ∧ (matchAuthority (unescape s)).1 = none := by
  have printed : str ⟨none, none, some (unescapePath path)⟩ = strPath (unescapePath path) := by
    rw [str_eq]
    rfl
  rw [printed, reference.text_eq, escaped.unescape_strPath.2,
    ← exists_reading_iff reference.legal escaped]
  constructor
  · rintro ⟨reread, again, escaped', meaning⟩
    rcases rawParseUri_eq_relative_iff.mp again with ⟨found, rfl, reference'⟩
    exact ⟨⟨found, reference'.legal, reference'.text_eq, escaped' found rfl,
      Option.some.inj meaning⟩, reference'.no_authority⟩
  · rintro ⟨⟨found, legal', text_eq, escaped', meaning⟩, noAuthority⟩
    refine ⟨some found, rawParseUri_eq_relative_iff.mpr ⟨found, rfl, legal', text_eq, noAuthority⟩,
      ?_, congrArg some meaning⟩
    rintro _ ⟨⟩
    exact escaped'

/-- For a text that is accepted with decoding, what is printed is parsed as the same URI
exactly if the text prints legibly. -/
theorem reparsed_iff {s : Text} {options : UriOptions} {raw : Uri}
    (decodes : ¬ isSet options skipPathDecode) (parsed : rawParseUri s = .ok raw)
    (accepted : Accepts options raw) (escaped : ∀ path ∈ raw.path, EscapedPath path) :
    parseUri (str { raw with path := raw.path.map unescapePath }) options =
        .ok { raw with path := raw.path.map unescapePath } ↔
      (∀ path ∈ raw.path, LegalEscapes path) ∧
        (raw.authority = none → (matchAuthority (unescape s)).1 = none) := by
  have accepted' : Accepts options { raw with path := raw.path.map unescapePath } := accepted
  rw [parseUri_str_eq_ok_iff decodes accepted']
  cases hasAuthority : raw.authority with
  | some authority =>
      rw [← hasAuthority, reparsed_iff_of_authority parsed hasAuthority escaped, hasAuthority]
      exact (and_iff_left fun impossible => by cases impossible).symm
  | none =>
      rcases raw with ⟨scheme, authority, path⟩
      cases hasAuthority
      cases scheme with
      | some scheme =>
          exact absurd ⟨rfl, fun impossible => by cases impossible⟩ accepted.2.2.2
      | none =>
          rcases rawParseUri_eq_relative_iff.mp parsed with ⟨found, rfl, reference⟩
          have one : (∀ path ∈ some found, LegalEscapes path) ↔ LegalEscapes found := by simp
          have relative := reparsed_iff_of_relative reference (escaped found rfl)
          rw [one]
          exact ⟨fun again => ⟨(relative.mp again).1, fun _ => (relative.mp again).2⟩,
            fun legible => relative.mpr ⟨legible.1, legible.2 rfl⟩⟩

/-- With decoding, what is printed for a URI is parsed as that URI again for exactly the
texts and options that print legibly. -/
theorem parseUri_str_iff_printsLegibly (s : Text) {options : UriOptions}
    (decodes : ¬ isSet options skipPathDecode) :
    (∀ u, parseUri s options = .ok u → parseUri (str u) options = .ok u) ↔
      PrintsLegibly s options := by
  constructor
  · intro same raw parsed accepted escaped
    rw [← reparsed_iff decodes parsed accepted escaped]
    apply same
    exact parseUri_eq_ok_iff_decoded.mpr
      ⟨raw, parsed, accepted, (decodeUri_eq_some_iff decodes).mpr ⟨escaped, rfl⟩⟩
  · intro legible u parsed
    rcases parseUri_eq_ok_iff_decoded.mp parsed with ⟨raw, rawParsed, accepted, decoded⟩
    rcases (decodeUri_eq_some_iff decodes).mp decoded with ⟨escaped, rfl⟩
    exact (reparsed_iff decodes rawParsed accepted escaped).mpr
      (legible raw rawParsed accepted escaped)

theorem parseUri_str_iff_printsLegibly_of_letter :
    (∀ u, parseUri (ascii "http://h/%41") 0 = .ok u → parseUri (str u) 0 = .ok u) ↔
      PrintsLegibly (ascii "http://h/%41") 0 :=
  parseUri_str_iff_printsLegibly _ (by decide)

/-- An escaped question mark is printed as one, and then there is a query. -/
theorem not_parseUri_str_of_escaped_question :
    ¬ ∀ (s : Text) (options : UriOptions), ¬ isSet options skipPathDecode → ∀ u,
      parseUri s options = .ok u → parseUri (str u) options = .ok u := by
  intro same
  have again := same (ascii "http://h/%3F") 0 (by decide)
    ⟨some (ascii "http"), some ⟨none, none, ascii "h", none⟩, some ⟨ascii "/?", none, none⟩⟩
    (by decide +kernel)
  revert again
  decide +kernel

end SkAsync.Net.UriSyntax

import SkAsync.Net.Uri.Decoding

/-!
# Which URIs a caller is handed

The options say which kinds of URI, other than absolute ones, a caller wants to
see.  The check for relative URIs asks for either of two options, so the option
for protocol-relative URIs lets relative ones through as well.  This file says
which texts are read as relative URIs and that they are the only exception.
-/

namespace SkAsync.Net.UriSyntax

open SkAsync.Library

/-! ## Legal paths -/

/-- The bytes of a path, its query and its fragment are those the parser takes. -/
structure LegalPath (path : UriPath) : Prop where
  slash_first : ∃ tail, path.path = slash :: tail
  path_legal : ∀ c ∈ path.path, isc (pathc ||| highc) c = true
  query_legal : ∀ text ∈ path.query, ∀ c ∈ text, isc (queryc ||| highc) c = true
  fragment_legal : ∀ text ∈ path.fragment, ∀ c ∈ text, isc (fragc ||| highc) c = true

/-- A marked component is taken up to the first byte that is not legal in it. -/
theorem matchMarked_strMarked (mark : UInt8) {what : Nat} {component : Option Text} (rest : Text)
    (legal : ∀ text ∈ component, ∀ c ∈ text, isc what c = true)
    (stops : Stops (isc what) rest) (notMark : rest.head? ≠ some mark) :
    matchMarked mark what (strMarked mark component ++ rest) = (component, rest) := by
  cases component with
  | none =>
      cases rest with
      | nil => rfl
      | cons c rest => exact if_neg fun isMark => notMark (congrArg some isMark)
  | some text =>
      have split := span_eq_iff.mpr ⟨rfl, legal text rfl, stops⟩
      change matchMarked mark what (mark :: (text ++ rest)) = _
      unfold matchMarked
      dsimp only
      rw [if_pos rfl, split]

theorem matchMarked_legal {mark : UInt8} {what : Nat} {s rest : Text} {component : Option Text}
    (matched : matchMarked mark what s = (component, rest)) :
    ∀ text ∈ component, ∀ c ∈ text, isc what c = true := by
  intro text member
  unfold matchMarked at matched
  cases s with
  | nil =>
      cases matched
      cases member
  | cons c v =>
      dsimp only at matched
      split at matched
      · generalize split' : span v what = parts at matched
        rcases parts with ⟨first, behind⟩
        cases matched
        cases member
        exact (span_eq_iff.mp split').2.1
      · cases matched
        cases member

theorem matchPathOnly_legal {s rest path : Text} (matched : matchPathOnly s = (some path, rest)) :
    (∃ tail, path = slash :: tail) ∧ ∀ c ∈ path, isc (pathc ||| highc) c = true := by
  unfold matchPathOnly at matched
  cases s with
  | nil => cases matched
  | cons c v =>
      dsimp only at matched
      split at matched
      · rename_i isSlash
        subst isSlash
        generalize split' : span (slash :: v) (pathc ||| highc) = parts at matched
        rcases parts with ⟨taken, behind⟩
        cases matched
        rcases span_eq_iff.mp split' with ⟨text_eq, legal, stops⟩
        refine ⟨?_, legal⟩
        cases taken with
        | nil =>
            rw [List.nil_append] at text_eq
            rw [← text_eq, stops_cons] at stops
            exact absurd stops (by decide)
        | cons d taken =>
            rw [List.cons_append, List.cons.injEq] at text_eq
            exact ⟨taken, by rw [text_eq.1]⟩
      · cases matched

theorem stops_fragment {what : Nat} (fragment : Option Text) (notHash : isc what hash = false) :
    Stops (isc what) (strMarked hash fragment) := by
  cases fragment with
  | none => exact stops_nil _
  | some text => exact (stops_cons _ _ _).mpr notHash

/-- What stands behind a path does not belong to it. -/
theorem stops_query (what : Nat) (query fragment : Option Text)
    (notQuestion : isc what question = false) (notHash : isc what hash = false) :
    Stops (isc what) (strMarked question query ++ strMarked hash fragment) := by
  cases query with
  | none => exact stops_fragment fragment notHash
  | some text => exact (stops_cons _ _ _).mpr notQuestion

theorem LegalPath.matchPathOnly {path : UriPath} (legal : LegalPath path) :
    matchPathOnly (strPath path) =
      (some path.path, strMarked question path.query ++ strMarked hash path.fragment) := by
  have split := span_eq_iff.mpr ⟨rfl, legal.path_legal,
    stops_query (pathc ||| highc) path.query path.fragment (by decide) (by decide)⟩
  rcases legal.slash_first with ⟨tail, path_eq⟩
  unfold strPath
  rw [List.append_assoc]
  generalize strMarked question path.query ++ strMarked hash path.fragment = behind at split ⊢
  rw [path_eq] at split ⊢
  unfold UriSyntax.matchPathOnly
  rw [List.cons_append] at split ⊢
  dsimp only
  rw [if_pos rfl, split]

/-- A text is read as a path, with nothing left, exactly if it is a legal one. -/
theorem matchPath_eq_iff {s : Text} {path : UriPath} :
    matchPath s = (some path, []) ↔ LegalPath path ∧ s = strPath path := by
  constructor
  · intro matched
    refine ⟨?_, (matchPath_text matched).1.symm⟩
    unfold matchPath at matched
    generalize pathOnly : matchPathOnly s = parts at matched
    rcases parts with ⟨first, v⟩
    cases first with
    | none => cases matched
    | some first =>
        dsimp only at matched
        generalize query : matchPathQuery v = parts at matched
        rcases parts with ⟨query', v'⟩
        dsimp only at matched
        generalize fragment : matchPathFrag v' = parts at matched
        rcases parts with ⟨fragment', v''⟩
        cases matched
        rcases matchPathOnly_legal pathOnly with ⟨slashFirst, legal⟩
        exact ⟨slashFirst, legal, matchMarked_legal query, matchMarked_legal fragment⟩
  · rintro ⟨legal, rfl⟩
    have query : matchPathQuery (strMarked question path.query ++ strMarked hash path.fragment) =
        (path.query, strMarked hash path.fragment) := by
      apply matchMarked_strMarked question _ legal.query_legal (stops_fragment _ (by decide))
      cases path.fragment with
      | none => exact fun impossible => (by cases impossible)
      | some text => exact fun impossible => absurd (Option.some.inj impossible) (by decide)
    have fragment : matchPathFrag (strMarked hash path.fragment) = (path.fragment, []) := by
      have found := matchMarked_strMarked hash [] legal.fragment_legal
        (stops_nil _) (fun impossible => by cases impossible)
      rwa [List.append_nil] at found
    unfold matchPath
    rw [legal.matchPathOnly]
    dsimp only
    rw [query]
    dsimp only
    rw [fragment]

/-! ## Relative references -/

/-- A text is a relative reference: a legal path that does not begin with an
authority. -/
structure RelativeReference (s : Text) (path : UriPath) : Prop where
  legal : LegalPath path
  text_eq : s = strPath path
  no_authority : (matchAuthority s).1 = none

theorem RelativeReference.starts_with_slash {s : Text} {path : UriPath}
    (reference : RelativeReference s path) : ∃ tail, s = slash :: tail := by
  rcases reference.legal.slash_first with ⟨tail, path_eq⟩
  refine ⟨tail ++ strMarked question path.query ++ strMarked hash path.fragment, ?_⟩
  rw [reference.text_eq, strPath, path_eq, List.cons_append, List.cons_append]

/-- The texts without scheme and authority that the parser takes apart are the
relative references. -/
theorem rawParseUri_eq_relative_iff {s : Text} {path : Option UriPath} :
    rawParseUri s = .ok ⟨none, none, path⟩ ↔
      ∃ found, path = some found ∧ RelativeReference s found := by
  rw [rawParseUri_eq_ok_iff]
  constructor
  · rintro ⟨nonempty, v, w, scheme_eq, authority_eq, path_eq⟩
    rcases matchScheme_cases scheme_eq with ⟨_, rfl⟩ | ⟨_, found, _⟩
    · rcases matchAuthority_cases authority_eq with ⟨_, rfl⟩ | ⟨_, found, _⟩
      · cases path with
        | none => exact absurd (matchPath_text path_eq).1.symm nonempty
        | some found =>
            rcases matchPath_eq_iff.mp path_eq with ⟨legal, text_eq⟩
            exact ⟨found, rfl, legal, text_eq, congrArg Prod.fst authority_eq⟩
      · cases found
    · cases found
  · rintro ⟨found, rfl, reference⟩
    rcases reference.starts_with_slash with ⟨tail, starts⟩
    refine ⟨fun empty => ?_, s, s, ?_, ?_,
      matchPath_eq_iff.mpr ⟨reference.legal, reference.text_eq⟩⟩
    · rw [empty] at starts
      cases starts
    · rw [starts]
      exact matchScheme_slash tail
    · generalize matched : matchAuthority s = parts
      rcases parts with ⟨authority, rest⟩
      have absent := reference.no_authority
      rw [matched] at absent
      rcases matchAuthority_cases matched with ⟨_, rfl⟩ | ⟨_, found, _⟩
      · exact Prod.ext absent rfl
      · rw [show authority = none from absent] at found
        cases found

/-! ## The policy -/

/-- A kind of URI is one the options ask for, and its port is a port. -/
def Wanted (options : UriOptions) (u : Uri) : Prop :=
  (isAbsolute u ∨ (isRelative u ∧ isSet options allowRelative) ∨
    (isProtocolRelative u ∧ isSet options allowProtocolRelative)) ∧
  ∀ authority ∈ u.authority, ∀ port ∈ authority.port, port ≤ 65535

/-- Relative URIs are not asked for, but the check for them is passed because
protocol-relative ones are; and the text is a relative reference, with legal
escapes if it is decoded. -/
def RelativeSlipsThrough (s : Text) (options : UriOptions) : Prop :=
  isSet options allowProtocolRelative ∧ ¬ isSet options allowRelative ∧
    ∃ path, RelativeReference s path ∧
      (isSet options skipPathDecode ∨ (decodeUriPath path).isSome)

/-- Either of the options opens the check for relative URIs. -/
theorem isSet_or (options first second : UriOptions) :
    isSet options (first ||| second) = (isSet options first || isSet options second) := by
  have distributes : options &&& (first ||| second) = options &&& first ||| options &&& second := by
    rw [← UInt8.toBitVec_inj]
    ext i
    simp [Bool.and_or_distrib_left]
  rw [Bool.eq_iff_iff]
  simp only [isSet, distributes, bne_iff_ne, ne_eq, UInt8.or_eq_zero_iff, Bool.or_eq_true,
    not_and_or]

theorem decodeUri_keeps {options : UriOptions} {raw u : Uri}
    (decoded : decodeUri options raw = some u) :
    u.scheme = raw.scheme ∧ u.authority = raw.authority := by
  unfold decodeUri at decoded
  split_ifs at decoded
  · cases decoded
    exact ⟨rfl, rfl⟩
  · split at decoded
    · cases decoded
      exact ⟨rfl, rfl⟩
    · rcases Option.map_eq_some_iff.mp decoded with ⟨path, _, rfl⟩
      exact ⟨rfl, rfl⟩

/-- What the checks let through is what the options ask for, except a relative URI
where only protocol-relative ones are asked for. -/
theorem Accepts.wanted_or_relative {options : UriOptions} {u : Uri} (accepted : Accepts options u) :
    Wanted options u ∨ (isRelative u ∧ isSet options allowProtocolRelative ∧
      ¬ isSet options allowRelative) := by
  rcases accepted with ⟨portFits, protocolRelative, relative, complete⟩
  have port_le : ∀ authority ∈ u.authority, ∀ port ∈ authority.port, port ≤ 65535 := by
    intro authority hasAuthority port hasPort
    apply Nat.not_lt.mp
    intro large
    rw [Option.mem_def] at hasAuthority
    exact portFits ⟨port, by rwa [hasAuthority], large⟩
  cases scheme_eq : u.scheme with
  | some scheme =>
      cases authority_eq : u.authority with
      | some authority =>
          left
          exact ⟨Or.inl (by rw [isAbsolute, scheme_eq, authority_eq]; rfl), port_le⟩
      | none =>
          exfalso
          apply complete
          rw [scheme_eq, authority_eq]
          exact ⟨rfl, fun impossible => by cases impossible⟩
  | none =>
      cases authority_eq : u.authority with
      | some authority =>
          left
          have kind : isProtocolRelative u = true := by
            rw [isProtocolRelative, scheme_eq, authority_eq]
            rfl
          refine ⟨Or.inr (Or.inr ⟨kind, ?_⟩), port_le⟩
          by_contra notSet
          exact protocolRelative ⟨kind, notSet⟩
      | none =>
          have kind : isRelative u = true := by
            rw [isRelative, scheme_eq, authority_eq]
            rfl
          have notAbsolute : ¬ isAbsolute u = true := by
            rw [isAbsolute, scheme_eq]
            exact fun impossible => by cases impossible
          have either : isSet options allowRelative ∨ isSet options allowProtocolRelative := by
            rw [← Bool.or_eq_true, ← isSet_or]
            by_contra notSet
            exact relative ⟨notAbsolute, notSet⟩
          by_cases asked : isSet options allowRelative = true
          · left
            exact ⟨Or.inr (Or.inl ⟨kind, asked⟩), port_le⟩
          · right
            exact ⟨kind, either.resolve_left asked, asked⟩

/-- Decoding does not change the kind of a URI nor its port. -/
theorem Wanted.of_decodeUri {options : UriOptions} {raw u : Uri} (wanted : Wanted options raw)
    (decoded : decodeUri options raw = some u) : Wanted options u := by
  rcases decodeUri_keeps decoded with ⟨scheme_eq, authority_eq⟩
  unfold Wanted isAbsolute isRelative isProtocolRelative at wanted ⊢
  rw [scheme_eq, authority_eq]
  exact wanted

/-- A relative reference is accepted under either of the two options. -/
theorem accepts_relative {options : UriOptions} (path : Option UriPath)
    (asked : isSet options allowProtocolRelative) : Accepts options ⟨none, none, path⟩ := by
  refine ⟨?_, ?_, ?_, ?_⟩
  · rintro ⟨port, impossible, _⟩
    cases impossible
  · rintro ⟨impossible, _⟩
    cases impossible
  · rintro ⟨_, notSet⟩
    apply notSet
    rw [isSet_or, asked, Bool.or_true]
  · rintro ⟨impossible, _⟩
    cases impossible

/-- A caller is handed only the kinds of URI it asks for, for exactly the texts and
options where no relative reference slips through the check for the
protocol-relative ones. -/
theorem wanted_iff (s : Text) (options : UriOptions) :
    (∀ u, parseUri s options = .ok u → Wanted options u) ↔ ¬ RelativeSlipsThrough s options := by
  constructor
  · rintro wanted ⟨asked, notAsked, path, reference, escapes⟩
    have parsed : rawParseUri s = .ok ⟨none, none, some path⟩ :=
      rawParseUri_eq_relative_iff.mpr ⟨path, rfl, reference⟩
    have decodes : ∃ u, decodeUri options ⟨none, none, some path⟩ = some u := by
      unfold decodeUri
      rcases escapes with skip | decodes
      · exact ⟨_, if_pos skip⟩
      · rcases Option.isSome_iff_exists.mp decodes with ⟨decoded, decoded_eq⟩
        dsimp only
        rw [decoded_eq, Option.map_some]
        split_ifs
        · exact ⟨_, rfl⟩
        · exact ⟨_, rfl⟩
    rcases decodes with ⟨u, decoded⟩
    have accepted := accepts_relative (some path) asked
    have handed := wanted u (parseUri_eq_ok_iff_decoded.mpr ⟨_, parsed, accepted, decoded⟩)
    rcases decodeUri_keeps decoded with ⟨scheme_eq, authority_eq⟩
    unfold Wanted isAbsolute isRelative isProtocolRelative at handed
    rw [scheme_eq, authority_eq] at handed
    rcases handed.1 with impossible | ⟨_, isAsked⟩ | ⟨impossible, _⟩
    · cases impossible
    · exact notAsked isAsked
    · cases impossible
  · intro notSlips u parsed
    rcases parseUri_eq_ok_iff_decoded.mp parsed with ⟨raw, rawParsed, accepted, decoded⟩
    rcases accepted.wanted_or_relative with wanted | ⟨relative, asked, notAsked⟩
    · exact wanted.of_decodeUri decoded
    · exfalso
      rcases raw with ⟨scheme, authority, path⟩
      cases scheme with
      | some scheme => cases relative
      | none =>
          cases authority with
          | some authority => cases relative
          | none =>
              rcases rawParseUri_eq_relative_iff.mp rawParsed with ⟨found, rfl, reference⟩
              refine notSlips ⟨asked, notAsked, found, reference, ?_⟩
              by_cases skip : isSet options skipPathDecode = true
              · exact Or.inl skip
              · right
                unfold decodeUri at decoded
                rw [if_neg skip] at decoded
                rcases Option.map_eq_some_iff.mp decoded with ⟨path, path_eq, _⟩
                rw [path_eq]
                rfl

/-- A caller that asks for protocol-relative URIs is handed a relative one. -/
theorem not_wanted_of_relative_path :
    ¬ ∀ (s : Text) (options : UriOptions) (u : Uri), parseUri s options = .ok u →
      Wanted options u := by
  intro wanted
  have handed := wanted (ascii "/some/path") allowProtocolRelative
    ⟨none, none, some ⟨ascii "/some/path", none, none⟩⟩ (by decide +kernel)
  unfold Wanted at handed
  exact absurd handed.1 (by decide)

end SkAsync.Net.UriSyntax

import SkAsync.Net.Uri.Reparsing

/-!
# Text with high bytes

Text in UTF-8 may stand in a path, a query and a fragment without escapes, if it is
not decoded.  The table has no entries for the bytes from `F0` on, so a text is
accepted exactly if it has none of them.
-/

namespace SkAsync.Net.UriSyntax

open SkAsync.Library

/-! ## More text behind an authority -/

variable {rest : Text}

/-- A span does not reach into a path behind it. -/
theorem span_append (s : Text) {what : Nat} (after : AfterAuthority rest)
    (notLegal : isc what slash = false) :
    span (s ++ rest) what = ((span s what).1, (span s what).2 ++ rest) := by
  generalize split : span s what = parts
  rcases parts with ⟨first, behind⟩
  rcases span_eq_iff.mp split with ⟨rfl, legal, stops⟩
  apply span_eq_iff.mpr
  refine ⟨List.append_assoc .., legal, ?_⟩
  cases behind with
  | nil => exact after.stops notLegal
  | cons c behind => exact stops

theorem AfterAuthority.head_ne (after : AfterAuthority rest) {c : UInt8} {v : Text}
    (starts : rest = c :: v) {mark : UInt8} (notSlash : mark ≠ slash) : c ≠ mark := by
  rcases after with rfl | ⟨path, rfl⟩
  · cases starts
  · cases starts
    exact Ne.symm notSlash

theorem matchNumber_append (s : Text) (after : AfterAuthority rest) :
    matchNumber (s ++ rest) = ((matchNumber s).1, (matchNumber s).2 ++ rest) := by
  unfold matchNumber
  rw [span_append s after (by decide)]
  dsimp only
  split_ifs
  · rfl
  · split
    · rfl
    · rfl

theorem matchUsernamePassword_append_rest (s : Text) (after : AfterAuthority rest) :
    matchUsernamePassword (s ++ rest) =
      ((matchUsernamePassword s).1, (matchUsernamePassword s).2.1,
        (matchUsernamePassword s).2.2 ++ rest) := by
  unfold matchUsernamePassword
  rw [span_append s after (by decide)]
  generalize span s userc = parts
  rcases parts with ⟨username, v⟩
  dsimp only
  split_ifs
  · rfl
  · cases v with
    | nil =>
        rw [List.nil_append]
        cases behind : rest with
        | nil => rfl
        | cons c v =>
            dsimp only
            rw [if_neg (after.head_ne behind (by decide)),
              if_pos (after.head_ne behind (by decide))]
    | cons c v =>
        rw [List.cons_append]
        dsimp only
        split_ifs
        · rfl
        · rfl
        · rw [span_append v after (by decide)]
          generalize span v userc = parts
          rcases parts with ⟨password, w⟩
          cases w with
          | nil =>
              rw [List.nil_append]
              cases behind : rest with
              | nil => rfl
              | cons d w =>
                  dsimp only
                  rw [if_neg (after.head_ne behind (by decide))]
          | cons d w =>
              rw [List.cons_append]
              dsimp only
              split_ifs
              · rfl
              · rfl

theorem matchIp6Host_append (s : Text) (after : AfterAuthority rest) :
    matchIp6Host (s ++ rest) = ((matchIp6Host s).1, (matchIp6Host s).2 ++ rest) := by
  unfold matchIp6Host
  cases s with
  | nil =>
      rw [List.nil_append]
      cases behind : rest with
      | nil => rfl
      | cons c v =>
          dsimp only
          rw [if_pos (after.head_ne behind (by decide))]
  | cons c v =>
      rw [List.cons_append]
      dsimp only
      split_ifs
      · rfl
      · rw [span_append v after (by decide)]
        generalize span v ip6c = parts
        rcases parts with ⟨host, w⟩
        cases host with
        | nil => rfl
        | cons d host =>
            cases w with
            | nil =>
                rw [List.nil_append]
                cases behind : rest with
                | nil => rfl
                | cons e w =>
                    dsimp only
                    rw [if_neg (after.head_ne behind (by decide))]
                    rfl
            | cons e w =>
                rw [List.cons_append]
                dsimp only
                split_ifs
                · rfl
                · rfl

theorem matchHost_append_rest {s : Text} (nonempty : (matchHost s).1 ≠ [])
    (after : AfterAuthority rest) :
    matchHost (s ++ rest) =
      ((matchHost s).1, (matchHost s).2.1, (matchHost s).2.2 ++ rest) := by
  cases s with
  | nil => exact absurd rfl nonempty
  | cons first text =>
      unfold matchHost at nonempty ⊢
      have whole : first :: text ++ rest = first :: (text ++ rest) := rfl
      rw [whole]
      dsimp only at nonempty ⊢
      rw [← whole, matchIp6Host_append _ after, span_append _ after (by decide)]
      dsimp only
      rw [← apply_ite (fun parts : Text × Text => (parts.1, parts.2 ++ rest))]
      generalize (if (matchIp6Host (first :: text)).1 = [] then span (first :: text) hostc
        else matchIp6Host (first :: text)) = parts at nonempty ⊢
      rcases parts with ⟨host, behind⟩
      dsimp only at nonempty ⊢
      split_ifs at nonempty ⊢ with empty
      · exact absurd rfl nonempty
      · cases behind with
        | nil =>
            rw [List.nil_append]
            cases behind : rest with
            | nil => rfl
            | cons c v =>
                dsimp only
                rw [if_neg (after.head_ne behind (by decide))]
        | cons c v =>
            rw [List.cons_append]
            dsimp only
            split_ifs
            · rw [matchNumber_append v after]
            · rfl

/-- An authority at the end of a text is read as the same in front of a path. -/
theorem matchAuthority_append_rest {s : Text} {authority : UriAuthority}
    (matched : matchAuthority s = (some authority, [])) (after : AfterAuthority rest) :
    matchAuthority (s ++ rest) = (some authority, rest) := by
  unfold matchAuthority at matched
  split at matched
  · rename_i first second v
    split_ifs at matched with marks
    · unfold matchAuthority
      have whole : first :: second :: v ++ rest = first :: second :: (v ++ rest) := rfl
      rw [whole]
      dsimp only
      rw [if_pos marks, matchUsernamePassword_append_rest v after]
      generalize matchUsernamePassword v = parts at matched ⊢
      rcases parts with ⟨username, password, w⟩
      dsimp only at matched ⊢
      split_ifs at matched with noHost
      · cases matched
      · rw [matchHost_append_rest noHost after]
        rcases Prod.mk.inj matched with ⟨found, consumed⟩
        dsimp only
        rw [if_neg noHost, found, consumed]
        rfl
    · cases matched
  · cases matched

/-! ## Paths of high bytes -/

/-- A text of high bytes and of ASCII bytes that are legal in a component. -/
def RawText (what : Nat) (text : Text) : Prop :=
  ∀ c ∈ text, 128 ≤ c ∨ isc what c = true

instance (what : Nat) (text : Text) : Decidable (RawText what text) :=
  inferInstanceAs (Decidable (∀ c ∈ text, 128 ≤ c ∨ isc what c = true))

theorem RawText.legal_iff {what : Nat} {text : Text} (raw : RawText what text)
    (notHigh : highc &&& what = 0) :
    (∀ c ∈ text, isc (what ||| highc) c = true) ↔ ∀ c ∈ text, c < 240 := by
  apply forall₂_congr
  intro c member
  rw [isc_or, Bool.or_eq_true, isc_highc_iff]
  constructor
  · rintro (legal | ⟨_, low⟩)
    · exact UInt8.lt_trans (lt_of_isc notHigh legal) (by decide)
    · exact low
  · intro low
    rcases raw c member with high | legal
    · exact Or.inr ⟨high, low⟩
    · exact Or.inl legal

/-- The last part of a URI is read behind a scheme and an authority that are accepted
without it. -/
theorem rawParseUri_append_iff {front : Text} {scheme : Text} {authority : UriAuthority} {u : Uri}
    (parsed : rawParseUri front = .ok ⟨some scheme, some authority, none⟩)
    (after : AfterAuthority rest) :
    rawParseUri (front ++ rest) = .ok u ↔
      u.scheme = some scheme ∧ u.authority = some authority ∧ matchPath rest = (u.path, []) := by
  rcases rawParseUri_eq_ok_iff.mp parsed with ⟨nonempty, v, w, scheme_eq, authority_eq, path_eq⟩
  have consumed : [] = w := (matchPath_text path_eq).1
  subst consumed
  rcases matchScheme_cases scheme_eq with ⟨impossible, _⟩ | ⟨_, found, rfl, legal⟩
  · cases impossible
  · cases found
    have schemeAgain := matchScheme_append (v ++ rest) legal
    have authorityAgain := matchAuthority_append_rest authority_eq after
    rw [List.append_assoc, List.cons_append, rawParseUri_eq_ok_iff, schemeAgain]
    constructor
    · rintro ⟨_, v', w', readScheme, readAuthority, readPath⟩
      rcases Prod.mk.inj readScheme with ⟨schemeSame, rfl⟩
      rcases Prod.mk.inj (authorityAgain.symm.trans readAuthority) with ⟨authoritySame, rfl⟩
      exact ⟨schemeSame.symm, authoritySame.symm, readPath⟩
    · rintro ⟨schemeSame, authoritySame, readPath⟩
      exact ⟨by simp, _, _, by rw [schemeSame], by rw [authoritySame, authorityAgain], readPath⟩

/-- Behind a scheme and a host that are accepted, a path, a query and a fragment with high
bytes are accepted and returned exactly if none of the bytes is `F0` or above. -/
theorem parseUri_rawText_iff {scheme host p q f : Text} {authority : UriAuthority}
    (accepted : parseUri (scheme ++ ascii "://" ++ host) skipPathDecode =
      .ok ⟨some scheme, some authority, none⟩)
    (slashFirst : ∃ tail, p = slash :: tail) (pathRaw : RawText pathc p)
    (queryRaw : RawText queryc q) (fragmentRaw : RawText fragc f) :
    (∃ u, parseUri (scheme ++ ascii "://" ++ host ++ p ++ question :: q ++ hash :: f)
          skipPathDecode = .ok u ∧ u.path = some ⟨p, some q, some f⟩) ↔
      ∀ c ∈ p ++ q ++ f, c < 240 := by
  have skips : isSet skipPathDecode skipPathDecode := by decide
  rcases (parseUri_eq_ok_iff skips).mp accepted with ⟨parsed, accepts⟩
  have whole : scheme ++ ascii "://" ++ host ++ p ++ question :: q ++ hash :: f =
      scheme ++ ascii "://" ++ host ++ strPath ⟨p, some q, some f⟩ := by
    simp only [strPath, strMarked, List.append_assoc]
  have after : AfterAuthority (strPath ⟨p, some q, some f⟩) := by
    rcases slashFirst with ⟨tail, rfl⟩
    exact Or.inr ⟨_, rfl⟩
  have legal : LegalPath ⟨p, some q, some f⟩ ↔ ∀ c ∈ p ++ q ++ f, c < 240 := by
    simp only [List.forall_mem_append]
    rw [← pathRaw.legal_iff (by decide), ← queryRaw.legal_iff (by decide),
      ← fragmentRaw.legal_iff (by decide)]
    constructor
    · rintro ⟨_, pathLegal, queryLegal, fragmentLegal⟩
      exact ⟨⟨pathLegal, queryLegal q rfl⟩, fragmentLegal f rfl⟩
    · rintro ⟨⟨pathLegal, queryLegal⟩, fragmentLegal⟩
      exact ⟨slashFirst, pathLegal, by simpa using queryLegal, by simpa using fragmentLegal⟩
  rw [whole, ← legal]
  constructor
  · rintro ⟨u, found, path_eq⟩
    have readPath := ((rawParseUri_append_iff parsed after).mp
      ((parseUri_eq_ok_iff skips).mp found).1).2.2
    rw [path_eq] at readPath
    exact (matchPath_eq_iff.mp readPath).1
  · intro isLegal
    refine ⟨⟨some scheme, some authority, some ⟨p, some q, some f⟩⟩, ?_, rfl⟩
    rw [parseUri_eq_ok_iff skips, rawParseUri_append_iff parsed after]
    exact ⟨⟨rfl, rfl, matchPath_eq_iff.mpr ⟨isLegal, rfl⟩⟩, accepts⟩

theorem parseUri_rawText_iff_of_letters :
    (∃ u, parseUri (ascii "http" ++ ascii "://" ++ ascii "h" ++ [slash, 195, 179] ++
          question :: ascii "q" ++ hash :: [195, 169]) skipPathDecode = .ok u ∧
        u.path = some ⟨[slash, 195, 179], some (ascii "q"), some [195, 169]⟩) ↔
      ∀ c ∈ [slash, 195, 179] ++ ascii "q" ++ [195, 169], c < 240 := by
  have accepted : parseUri (ascii "http" ++ ascii "://" ++ ascii "h") skipPathDecode =
      .ok ⟨some (ascii "http"), some ⟨none, none, ascii "h", none⟩, none⟩ := by
    decide +kernel
  exact parseUri_rawText_iff accepted ⟨_, rfl⟩ (by decide +kernel)
    (by decide +kernel) (by decide +kernel)

/-- A character beyond the first plane, in UTF-8, is not accepted in a path. -/
theorem not_parseUri_rawText_of_emoji :
    ¬ ∀ (scheme host p q f : Text) (authority : UriAuthority),
      parseUri (scheme ++ ascii "://" ++ host) skipPathDecode =
          .ok ⟨some scheme, some authority, none⟩ →
        (∃ tail, p = slash :: tail) → RawText pathc p → RawText queryc q → RawText fragc f →
          ∃ u, parseUri (scheme ++ ascii "://" ++ host ++ p ++ question :: q ++ hash :: f)
            skipPathDecode = .ok u ∧ u.path = some ⟨p, some q, some f⟩ := by
  intro accepted
  rcases accepted (ascii "http") (ascii "h") [slash, 240, 159, 152, 128] [] []
    ⟨none, none, ascii "h", none⟩ (by decide +kernel) ⟨_, rfl⟩ (by decide +kernel)
    (by decide +kernel) (by decide +kernel) with ⟨u, found, _⟩
  have rejected : parseUri (ascii "http" ++ ascii "://" ++ ascii "h" ++
      [slash, 240, 159, 152, 128] ++ question :: [] ++ hash :: []) skipPathDecode =
        .error .parseFailed := by
    decide +kernel
  rw [rejected] at found
  cases found

end SkAsync.Net.UriSyntax

import SkAsync.Net.Uri.Core

/-!
# Printing and parsing a URI again

Most components are printed as they were read, so reading them again is the
same computation.  Only the host and the port may be printed differently: the
brackets of an IPv6 host without a colon are lost, and a port is printed in
canonical form, without its colon if there is no number.  The lemmas on
`matchHost` and on the guess for a user name show that this is read as before.
-/

namespace SkAsync.Net.UriSyntax

open SkAsync.Library

/-! ## Character classes -/

/-- A property of bytes can be checked byte by byte. -/
theorem forall_byte (property : UInt8 → Prop) (all : ∀ n < 256, property (UInt8.ofNat n))
    (c : UInt8) : property c := by
  have checked := all c.toNat c.toNat_lt
  rwa [UInt8.ofNat_toNat] at checked

/-- If every entry of the table with one flag has another, at the places that are
looked at, so have the bytes. -/
theorem isc_of_isc_at (place : Nat → Prop) {what what' : Nat}
    (all : ∀ entry ∈ chars.zipIdx, place entry.2 → entry.1 &&& what ≠ 0 → entry.1 &&& what' ≠ 0)
    {c : UInt8} (here : place c.toNat) (legal : isc what c = true) : isc what' c = true := by
  rw [isc, bne_iff_ne, List.getD_eq_getElem?_getD] at legal ⊢
  cases found : chars[c.toNat]? with
  | none =>
      rw [found] at legal
      exact absurd (Nat.zero_and what) legal
  | some entry =>
      rw [found] at legal
      exact all (entry, c.toNat) (List.mk_mem_zipIdx_iff_getElem?.mpr found) here legal

/-- If every entry of the table with one flag has another, so have the bytes. -/
theorem isc_of_isc {what what' : Nat}
    (all : ∀ entry ∈ chars, entry &&& what ≠ 0 → entry &&& what' ≠ 0) {c : UInt8}
    (legal : isc what c = true) : isc what' c = true := by
  apply isc_of_isc_at (fun _ => True) _ trivial legal
  intro entry member _
  exact all entry.1 (List.fst_mem_of_mem_zipIdx member)

/-- What is legal in an IPv6 host, other than a colon, is legal in any host. -/
theorem isc_hostc_of_ip6c {c : UInt8} (ip6 : isc ip6c c = true) (notColon : c ≠ colon) :
    isc hostc c = true := by
  apply isc_of_isc_at (fun n => n ≠ colon.toNat) (by decide +kernel) _ ip6
  intro same
  exact notColon (UInt8.toNat_inj.mp same)

theorem isc_userc_of_hostc {c : UInt8} (host : isc hostc c = true) : isc userc c = true :=
  isc_of_isc (by decide +kernel) host

theorem isc_numc_of_isDigit {c : UInt8} (digit : IsDigit 10 c) : isc numc c = true := by
  have all : ∀ n < 256, IsDigit 10 (UInt8.ofNat n) → isc numc (UInt8.ofNat n) = true := by
    decide +kernel
  exact forall_byte (fun c => IsDigit 10 c → isc numc c = true) all c digit

theorem isc_userc_of_isDigit {c : UInt8} (digit : IsDigit 10 c) : isc userc c = true := by
  have all : ∀ n < 256, IsDigit 10 (UInt8.ofNat n) → isc userc (UInt8.ofNat n) = true := by
    decide +kernel
  exact forall_byte (fun c => IsDigit 10 c → isc userc c = true) all c digit

theorem span_eq_iff {s first rest : Text} {what : Nat} :
    span s what = (first, rest) ↔
      s = first ++ rest ∧ (∀ c ∈ first, isc what c = true) ∧ Stops (isc what) rest := by
  rw [← split_eq_iff]
  exact Prod.ext_iff

/-! ## Scheme -/

theorem matchScheme_append {scheme : Text} (rest : Text)
    (legal : ∀ c ∈ scheme, isc schemec c = true) :
    matchScheme (scheme ++ colon :: rest) = (some scheme, rest) := by
  have notLegal : isc schemec colon = false := by decide
  have split := span_eq_iff.mpr ⟨rfl, legal, (stops_cons _ colon rest).mpr notLegal⟩
  unfold matchScheme
  rw [split]
  exact if_pos rfl

theorem matchScheme_slash (rest : Text) : matchScheme (slash :: rest) = (none, slash :: rest) := by
  have notLegal : isc schemec slash = false := by decide
  have split : span (slash :: rest) schemec = ([], slash :: rest) :=
    span_eq_iff.mpr ⟨rfl, by simp, (stops_cons _ slash rest).mpr notLegal⟩
  unfold matchScheme
  rw [split]
  rfl

/-- A scheme is read up to the colon behind it; without one nothing is read. -/
theorem matchScheme_cases {s rest : Text} {scheme : Option Text}
    (matched : matchScheme s = (scheme, rest)) :
    (scheme = none ∧ rest = s) ∨
      ∃ text, scheme = some text ∧ s = text ++ colon :: rest ∧
        ∀ c ∈ text, isc schemec c = true := by
  unfold matchScheme at matched
  generalize split : span s schemec = parts at matched
  rcases parts with ⟨text, v⟩
  rcases span_eq_iff.mp split with ⟨text_eq, legal, _⟩
  cases v with
  | nil =>
      cases matched
      exact Or.inl ⟨rfl, rfl⟩
  | cons c v =>
      dsimp only at matched
      split at matched
      · rename_i isColon
        subst isColon
        cases matched
        exact Or.inr ⟨text, rfl, text_eq, legal⟩
      · cases matched
        exact Or.inl ⟨rfl, rfl⟩

/-! ## User name and password -/

/-- A user name with an optional password, both of legal bytes. -/
structure LegalUserinfo (username : Text) (password : Option Text) : Prop where
  nonempty : username ≠ []
  username_legal : ∀ c ∈ username, isc userc c = true
  password_legal : ∀ text, password = some text → ∀ c ∈ text, isc userc c = true

theorem matchUsernamePassword_append {username : Text} {password : Option Text} (rest : Text)
    (legal : LegalUserinfo username password) :
    matchUsernamePassword (username ++ strMarked colon password ++ [atSign] ++ rest) =
      (some username, password, rest) := by
  have atNotLegal : isc userc atSign = false := by decide
  have colonNotLegal : isc userc colon = false := by decide
  unfold matchUsernamePassword
  cases password with
  | none =>
      have split : span (username ++ strMarked colon none ++ [atSign] ++ rest) userc =
          (username, atSign :: rest) :=
        span_eq_iff.mpr ⟨by simp [strMarked], legal.username_legal,
          (stops_cons _ atSign rest).mpr atNotLegal⟩
      rw [split]
      dsimp only
      rw [if_neg legal.nonempty, if_pos rfl]
  | some text =>
      have split : span (username ++ strMarked colon (some text) ++ [atSign] ++ rest) userc =
          (username, colon :: (text ++ atSign :: rest)) :=
        span_eq_iff.mpr ⟨by simp [strMarked], legal.username_legal,
          (stops_cons _ colon _).mpr colonNotLegal⟩
      have split' : span (text ++ atSign :: rest) userc = (text, atSign :: rest) :=
        span_eq_iff.mpr ⟨rfl, legal.password_legal text rfl,
          (stops_cons _ atSign rest).mpr atNotLegal⟩
      have notAt : colon ≠ atSign := by decide
      rw [split]
      dsimp only
      rw [if_neg legal.nonempty, if_neg notAt, if_neg (not_not.mpr rfl), split']
      exact if_pos rfl

/-- Either nothing is taken, or legal user information and the sign behind it. -/
theorem matchUsernamePassword_cases {s rest : Text} {username password : Option Text}
    (matched : matchUsernamePassword s = (username, password, rest)) :
    (username = none ∧ password = none ∧ rest = s) ∨
      ∃ text, username = some text ∧ LegalUserinfo text password := by
  unfold matchUsernamePassword at matched
  generalize split : span s userc = parts at matched
  rcases parts with ⟨text, v⟩
  rcases span_eq_iff.mp split with ⟨_, legal, _⟩
  dsimp only at matched
  split at matched
  · cases matched
    exact Or.inl ⟨rfl, rfl, rfl⟩
  · rename_i nonempty
    cases v with
    | nil =>
        cases matched
        exact Or.inl ⟨rfl, rfl, rfl⟩
    | cons c v =>
        dsimp only at matched
        split at matched
        · cases matched
          exact Or.inr ⟨text, rfl, nonempty, legal, fun _ impossible => by cases impossible⟩
        · split at matched
          · cases matched
            exact Or.inl ⟨rfl, rfl, rfl⟩
          · generalize split' : span v userc = parts at matched
            rcases parts with ⟨text', v'⟩
            rcases span_eq_iff.mp split' with ⟨_, legal', _⟩
            cases v' with
            | nil =>
                cases matched
                exact Or.inl ⟨rfl, rfl, rfl⟩
            | cons c' v' =>
                dsimp only at matched
                split at matched
                · cases matched
                  refine Or.inr ⟨text, rfl, nonempty, legal, ?_⟩
                  intro text'' same
                  cases same
                  exact legal'
                · cases matched
                  exact Or.inl ⟨rfl, rfl, rfl⟩

/-! ## Host and port -/

/-- A host name and a port as the parser can return them. -/
structure LegalHost (hostname : Text) (port : Option Nat) : Prop where
  nonempty : hostname ≠ []
  legal : (∀ c ∈ hostname, isc hostc c = true) ∨ ∀ c ∈ hostname, isc ip6c c = true
  port_le : ∀ n, port = some n → n ≤ unsignedMax

/-- What follows an authority: nothing or a path. -/
def AfterAuthority (rest : Text) : Prop :=
  rest = [] ∨ ∃ path, rest = slash :: path

theorem AfterAuthority.stops {rest : Text} (after : AfterAuthority rest) {what : Nat}
    (notLegal : isc what slash = false) : Stops (isc what) rest := by
  rcases after with rfl | ⟨path, rfl⟩
  · exact stops_nil _
  · exact (stops_cons _ slash path).mpr notLegal

/-- A host name that is printed without brackets is legal as a host. -/
theorem LegalHost.hostc_of_not_mem {hostname : Text} {port : Option Nat}
    (host : LegalHost hostname port) (noColon : colon ∉ hostname) :
    ∀ c ∈ hostname, isc hostc c = true := by
  intro c member
  rcases host.legal with legal | legal
  · exact legal c member
  · apply isc_hostc_of_ip6c (legal c member)
    rintro rfl
    exact noColon member

/-- A host name that is printed in brackets was read in brackets. -/
theorem LegalHost.ip6c_of_mem {hostname : Text} {port : Option Nat}
    (host : LegalHost hostname port) (hasColon : colon ∈ hostname) :
    ∀ c ∈ hostname, isc ip6c c = true := by
  rcases host.legal with legal | legal
  · exact absurd (legal colon hasColon) (by decide)
  · exact legal

/-- A printed port is read as the number it was. -/
theorem matchNumber_toChars {n : Nat} {rest : Text} (bound : n ≤ unsignedMax)
    (after : AfterAuthority rest) : matchNumber (toChars n ++ rest) = (some n, rest) := by
  have numeral := numeral_toChars bound
  have digits : ∀ c ∈ toChars n, isc numc c = true :=
    fun c member => isc_numc_of_isDigit (numeral.digits c member)
  have split := span_eq_iff.mpr ⟨rfl, digits, after.stops (by decide)⟩
  have parsed : fromChars 10 unsignedMax (toChars n) = some (n, []) :=
    fromChars_eq_some_iff.mpr ⟨toChars n, (List.append_nil _).symm, numeral, endsNumeral_nil 10⟩
  unfold matchNumber
  rw [split]
  dsimp only
  rw [if_neg numeral.nonempty, parsed]

/-- The end of `match_host`, once the host itself is known. -/
theorem matchHost_of_host {s hostname rest : Text} {port : Option Nat}
    (host : LegalHost hostname port) (after : AfterAuthority rest)
    (found : (if (matchIp6Host s).1 = [] then span s hostc else matchIp6Host s) =
      (hostname, strMarked colon (port.map toChars) ++ rest)) :
    matchHost s = (hostname, port, rest) := by
  cases s with
  | nil =>
      simp only [matchIp6Host, if_true, span, List.takeWhile_nil, Prod.mk.injEq] at found
      exact absurd found.1.symm host.nonempty
  | cons c v =>
      unfold matchHost
      dsimp only
      rw [found]
      dsimp only
      rw [if_neg host.nonempty]
      cases port with
      | none =>
          rcases after with rfl | ⟨path, rfl⟩
          · rfl
          · exact if_neg (by decide)
      | some n =>
          have number := matchNumber_toChars (host.port_le n rfl) after
          simp only [Option.map_some, strMarked, List.cons_append, if_true, number]

/-- What is printed for a host and a port is read as that host and port. -/
theorem matchHost_append {hostname rest : Text} {port : Option Nat}
    (host : LegalHost hostname port) (after : AfterAuthority rest) :
    matchHost (strHostname hostname ++ strMarked colon (port.map toChars) ++ rest) =
      (hostname, port, rest) := by
  apply matchHost_of_host host after
  rw [List.append_assoc]
  generalize behind_eq : strMarked colon (port.map toChars) ++ rest = behind
  unfold strHostname
  by_cases hasColon : colon ∈ hostname
  · have notLegal : isc ip6c closeBracket = false := by decide
    have split : span (hostname ++ closeBracket :: behind) ip6c =
        (hostname, closeBracket :: behind) :=
      span_eq_iff.mpr ⟨rfl, host.ip6c_of_mem hasColon, (stops_cons _ _ _).mpr notLegal⟩
    have matched : matchIp6Host (openBracket :: (hostname ++ closeBracket :: behind)) =
        (hostname, behind) := by
      unfold matchIp6Host
      dsimp only
      rw [if_neg (not_not.mpr rfl), split]
      cases hostname with
      | nil => exact absurd rfl host.nonempty
      | cons c hostname => exact if_pos rfl
    rw [if_pos hasColon, List.append_assoc, List.cons_append, List.singleton_append, matched]
    exact if_neg host.nonempty
  · have stops : Stops (isc hostc) behind := by
      rw [← behind_eq]
      cases port with
      | none => exact after.stops (by decide)
      | some n => exact (stops_cons _ _ _).mpr (by decide)
    have legal := host.hostc_of_not_mem hasColon
    have split : span (hostname ++ behind) hostc = (hostname, behind) :=
      span_eq_iff.mpr ⟨rfl, legal, stops⟩
    have noBracket : (matchIp6Host (hostname ++ behind)).1 = [] := by
      cases hostname with
      | nil => exact absurd rfl host.nonempty
      | cons c hostname =>
          have notBracket : c ≠ openBracket := by
            rintro rfl
            exact absurd (legal openBracket List.mem_cons_self) (by decide)
          unfold matchIp6Host
          exact congrArg Prod.fst (if_pos notBracket)
    rw [if_neg hasColon, if_pos noBracket]
    exact split

/-- No user name is guessed in what is printed for a host and a port. -/
theorem matchUsernamePassword_of_host {hostname rest : Text} {port : Option Nat}
    (host : LegalHost hostname port) (after : AfterAuthority rest) :
    matchUsernamePassword (strHostname hostname ++ strMarked colon (port.map toChars) ++ rest) =
      (none, none, strHostname hostname ++ strMarked colon (port.map toChars) ++ rest) := by
  generalize text_eq : strHostname hostname ++ strMarked colon (port.map toChars) ++ rest = text
  unfold matchUsernamePassword
  by_cases hasColon : colon ∈ hostname
  · have bracket : ∃ tail, text = openBracket :: tail := by
      rw [← text_eq, strHostname, if_pos hasColon]
      exact ⟨_, rfl⟩
    rcases bracket with ⟨tail, rfl⟩
    have notLegal : isc userc openBracket = false := by decide
    have split : span (openBracket :: tail) userc = ([], openBracket :: tail) :=
      span_eq_iff.mpr ⟨rfl, by simp, (stops_cons _ _ _).mpr notLegal⟩
    rw [split]
    exact if_pos rfl
  · have legal : ∀ c ∈ hostname, isc userc c = true :=
      fun c member => isc_userc_of_hostc (host.hostc_of_not_mem hasColon c member)
    rw [strHostname, if_neg hasColon, List.append_assoc] at text_eq
    subst text_eq
    cases port with
    | none =>
        have split : span (hostname ++ (strMarked colon none ++ rest)) userc = (hostname, rest) :=
          span_eq_iff.mpr ⟨rfl, legal, after.stops (by decide)⟩
        rw [Option.map_none, split]
        dsimp only
        rw [if_neg host.nonempty]
        rcases after with rfl | ⟨path, rfl⟩
        · rfl
        · exact (if_neg (by decide)).trans (if_pos (by decide))
    | some n =>
        have numeral := numeral_toChars (host.port_le n rfl)
        have split : span (hostname ++ (strMarked colon (some (toChars n)) ++ rest)) userc =
            (hostname, colon :: (toChars n ++ rest)) :=
          span_eq_iff.mpr ⟨rfl, legal, (stops_cons _ _ _).mpr (by decide)⟩
        have split' : span (toChars n ++ rest) userc = (toChars n, rest) :=
          span_eq_iff.mpr ⟨rfl, fun c member => isc_userc_of_isDigit (numeral.digits c member),
            after.stops (by decide)⟩
        have notAt : colon ≠ atSign := by decide
        rw [Option.map_some, split]
        dsimp only
        rw [if_neg host.nonempty, if_neg notAt, if_neg (not_not.mpr rfl), split']
        rcases after with rfl | ⟨path, rfl⟩
        · rfl
        · exact if_neg (by decide)

theorem matchNumber_le {s rest : Text} {n : Nat} (matched : matchNumber s = (some n, rest)) :
    n ≤ unsignedMax := by
  unfold matchNumber at matched
  dsimp only at matched
  split at matched
  · cases matched
  · split at matched
    · rename_i i parsed
      cases matched
      rcases fromChars_eq_some_iff.mp parsed with ⟨_, _, numeral, _⟩
      exact numeral.le_max
    · cases matched

theorem matchIp6Host_legal {s hostname rest : Text}
    (matched : matchIp6Host s = (hostname, rest)) : ∀ c ∈ hostname, isc ip6c c = true := by
  unfold matchIp6Host at matched
  split at matched
  · cases matched
    simp
  · split at matched
    · cases matched
      simp
    · rename_i c v _
      generalize split : span v ip6c = parts at matched
      rcases parts with ⟨host, behind⟩
      rcases span_eq_iff.mp split with ⟨_, legal, _⟩
      dsimp only at matched
      split at matched
      · split at matched
        · cases matched
          exact legal
        · cases matched
          simp
      · cases matched
        simp

/-- A host that is found is legal. -/
theorem matchHost_legal {s hostname rest : Text} {port : Option Nat}
    (matched : matchHost s = (hostname, port, rest)) (nonempty : hostname ≠ []) :
    LegalHost hostname port := by
  unfold matchHost at matched
  split at matched
  · cases matched
    exact absurd rfl nonempty
  · rename_i c v
    dsimp only at matched
    generalize found : (if (matchIp6Host (c :: v)).1 = [] then span (c :: v) hostc
      else matchIp6Host (c :: v)) = parts at matched
    rcases parts with ⟨host, behind⟩
    have legal : (∀ c ∈ host, isc hostc c = true) ∨ ∀ c ∈ host, isc ip6c c = true := by
      split at found
      · exact Or.inl (span_eq_iff.mp found).2.1
      · exact Or.inr (matchIp6Host_legal found)
    dsimp only at matched
    split at matched
    · cases matched
      exact absurd rfl nonempty
    · cases behind with
      | nil =>
          cases matched
          exact ⟨nonempty, legal, fun _ impossible => by cases impossible⟩
      | cons c' v' =>
          dsimp only at matched
          split at matched
          · generalize number : matchNumber v' = result at matched
            rcases result with ⟨port', rest'⟩
            cases matched
            refine ⟨nonempty, legal, ?_⟩
            rintro n rfl
            exact matchNumber_le number
          · cases matched
            exact ⟨nonempty, legal, fun _ impossible => by cases impossible⟩

/-! ## Authority -/

/-- An authority as the parser can return it. -/
structure LegalAuthority (authority : UriAuthority) : Prop where
  userinfo : (authority.username = none ∧ authority.password = none) ∨
    ∃ username, authority.username = some username ∧ LegalUserinfo username authority.password
  host : LegalHost authority.hostname authority.port

/-- An authority that is found is legal; otherwise nothing is taken. -/
theorem matchAuthority_cases {s rest : Text} {authority : Option UriAuthority}
    (matched : matchAuthority s = (authority, rest)) :
    (authority = none ∧ rest = s) ∨ ∃ found, authority = some found ∧ LegalAuthority found := by
  unfold matchAuthority at matched
  split at matched
  · rename_i first second v
    split at matched
    · generalize userinfo : matchUsernamePassword v = parts at matched
      rcases parts with ⟨username, password, v'⟩
      dsimp only at matched
      generalize host : matchHost v' = parts at matched
      rcases parts with ⟨hostname, port, v''⟩
      dsimp only at matched
      split at matched
      · cases matched
        exact Or.inl ⟨rfl, rfl⟩
      · rename_i nonempty
        cases matched
        have legalHost := matchHost_legal host nonempty
        rcases matchUsernamePassword_cases userinfo with ⟨noName, noPassword, _⟩ | legal
        · exact Or.inr ⟨_, rfl, Or.inl ⟨noName, noPassword⟩, legalHost⟩
        · exact Or.inr ⟨_, rfl, Or.inr legal, legalHost⟩
    · cases matched
      exact Or.inl ⟨rfl, rfl⟩
  · cases matched
    exact Or.inl ⟨rfl, rfl⟩

/-- What is printed for an authority is read as that authority. -/
theorem matchAuthority_append {authority : UriAuthority} {rest : Text}
    (legal : LegalAuthority authority) (after : AfterAuthority rest) :
    matchAuthority (strAuthority authority ++ rest) = (some authority, rest) := by
  have host := matchHost_append legal.host after
  have userinfo : matchUsernamePassword (strUserinfo authority ++
      (strHostname authority.hostname ++ strMarked colon (authority.port.map toChars) ++ rest)) =
      (authority.username, authority.password,
        strHostname authority.hostname ++
          strMarked colon (authority.port.map toChars) ++ rest) := by
    rcases legal.userinfo with ⟨noName, noPassword⟩ | ⟨username, name_eq, userLegal⟩
    · rw [strUserinfo, noName, noPassword]
      exact matchUsernamePassword_of_host legal.host after
    · rw [strUserinfo, name_eq]
      exact matchUsernamePassword_append _ userLegal
  have printed : strAuthority authority ++ rest = slash :: slash :: (strUserinfo authority ++
      (strHostname authority.hostname ++
        strMarked colon (authority.port.map toChars) ++ rest)) := by
    simp only [strAuthority, List.cons_append, List.append_assoc]
  rw [printed]
  unfold matchAuthority
  dsimp only
  rw [if_pos ⟨rfl, rfl⟩, userinfo]
  dsimp only
  rw [host]
  exact if_neg legal.host.nonempty

/-! ## Path -/

theorem matchMarked_text {mark : UInt8} {what : Nat} {s rest : Text} {text : Option Text}
    (matched : matchMarked mark what s = (text, rest)) : s = strMarked mark text ++ rest := by
  unfold matchMarked at matched
  cases s with
  | nil =>
      cases matched
      rfl
  | cons c v =>
      dsimp only at matched
      split at matched
      · rename_i isMark
        subst isMark
        generalize split' : span v what = parts at matched
        rcases parts with ⟨first, behind⟩
        cases matched
        rw [(span_eq_iff.mp split').1]
        rfl
      · cases matched
        rfl

theorem matchPathOnly_text {s rest : Text} {path : Option Text}
    (matched : matchPathOnly s = (path, rest)) :
    s = path.getD [] ++ rest ∧ (path.isSome → ∃ tail, s = slash :: tail) := by
  unfold matchPathOnly at matched
  cases s with
  | nil =>
      cases matched
      exact ⟨rfl, fun impossible => by cases impossible⟩
  | cons c v =>
      dsimp only at matched
      split at matched
      · rename_i isSlash
        subst isSlash
        generalize split' : span (slash :: v) (pathc ||| highc) = parts at matched
        rcases parts with ⟨first, behind⟩
        cases matched
        exact ⟨(span_eq_iff.mp split').1, fun _ => ⟨v, rfl⟩⟩
      · cases matched
        exact ⟨rfl, fun impossible => by cases impossible⟩

/-- What is printed for an optional path. -/
def strOptionalPath (path : Option UriPath) : Text :=
  match path with
  | none => []
  | some path => strPath path

/-- A path that reaches the end of the text is printed as it was read. -/
theorem matchPath_text {s : Text} {path : Option UriPath} (matched : matchPath s = (path, [])) :
    strOptionalPath path = s ∧ AfterAuthority s := by
  unfold matchPath at matched
  generalize pathOnly : matchPathOnly s = parts at matched
  rcases parts with ⟨first, v⟩
  rcases matchPathOnly_text pathOnly with ⟨text_eq, startsWithSlash⟩
  cases first with
  | none =>
      cases matched
      have empty : s = [] := text_eq
      exact ⟨empty.symm, Or.inl empty⟩
  | some first =>
      dsimp only at matched
      generalize query : matchPathQuery v = parts at matched
      rcases parts with ⟨query', v'⟩
      dsimp only at matched
      generalize fragment : matchPathFrag v' = parts at matched
      rcases parts with ⟨fragment', v''⟩
      cases matched
      have fragment_eq : v' = strMarked hash fragment' ++ [] := matchMarked_text fragment
      have query_eq : v = strMarked question query' ++ v' := matchMarked_text query
      constructor
      · rw [text_eq, query_eq, fragment_eq]
        simp only [strOptionalPath, strPath, Option.getD_some, List.append_nil, List.append_assoc]
      · exact Or.inr (startsWithSlash rfl)

/-! ## Parsing what is printed -/

theorem str_eq (u : Uri) :
    str u = (match u.scheme with | none => [] | some scheme => scheme ++ [colon]) ++
      ((match u.authority with | none => [] | some authority => strAuthority authority) ++
        strOptionalPath u.path) := by
  rw [← List.append_assoc]
  rfl

/-- The text was taken apart from front to back, with nothing left. -/
theorem rawParseUri_eq_ok_iff {s : Text} {u : Uri} :
    rawParseUri s = .ok u ↔ s ≠ [] ∧ ∃ v w, matchScheme s = (u.scheme, v) ∧
      matchAuthority v = (u.authority, w) ∧ matchPath w = (u.path, []) := by
  unfold rawParseUri
  generalize scheme_eq : matchScheme s = parts
  rcases parts with ⟨scheme, v⟩
  dsimp only
  generalize authority_eq : matchAuthority v = parts
  rcases parts with ⟨authority, w⟩
  dsimp only
  generalize path_eq : matchPath w = parts
  rcases parts with ⟨path, rest⟩
  dsimp only
  constructor
  · intro parsed
    split at parsed
    · cases parsed
    · rename_i nonempty
      split at parsed
      · rename_i consumed
        cases parsed
        subst consumed
        exact ⟨nonempty, v, w, rfl, authority_eq, path_eq⟩
      · cases parsed
  · rintro ⟨nonempty, v', w', same, authority_eq', path_eq'⟩
    cases same
    rw [authority_eq] at authority_eq'
    cases authority_eq'
    rw [path_eq] at path_eq'
    cases path_eq'
    rw [if_neg nonempty, if_pos rfl]

/-- A parsed scheme and authority are read again in front of any path, or of none. -/
theorem rawParseUri_str_iff {s : Text} {u again : Uri} {authority : UriAuthority}
    (parsed : rawParseUri s = .ok u) (found : u.authority = some authority)
    {path : Option UriPath} (after : AfterAuthority (strOptionalPath path)) :
    rawParseUri (str { u with path := path }) = .ok again ↔
      again.scheme = u.scheme ∧ again.authority = u.authority ∧
        matchPath (strOptionalPath path) = (again.path, []) := by
  rcases rawParseUri_eq_ok_iff.mp parsed with ⟨_, v, w, scheme_eq, authority_eq, _⟩
  rcases matchAuthority_cases authority_eq with ⟨absent, _⟩ | ⟨_, found', legal⟩
  · rw [absent] at found
    cases found
  · rw [found'] at found
    cases found
    have authorityAgain := matchAuthority_append legal after
    have printed : str { u with path := path } ≠ [] ∧
        matchScheme (str { u with path := path }) =
          (u.scheme, strAuthority authority ++ strOptionalPath path) := by
      rw [str_eq, found']
      rcases matchScheme_cases scheme_eq with ⟨noScheme, _⟩ | ⟨scheme, found'', _, legal'⟩
      · rw [noScheme]
        exact ⟨List.cons_ne_nil _ _, matchScheme_slash _⟩
      · rw [found'']
        refine ⟨by simp, ?_⟩
        rw [List.append_assoc, List.singleton_append]
        exact matchScheme_append _ legal'
    rw [rawParseUri_eq_ok_iff, printed.2]
    constructor
    · rintro ⟨_, v', w', readScheme, readAuthority, path_eq⟩
      rcases Prod.mk.inj readScheme with ⟨schemeSame, rfl⟩
      rcases Prod.mk.inj (authorityAgain.symm.trans readAuthority) with ⟨authoritySame, rfl⟩
      exact ⟨schemeSame.symm, by rw [← authoritySame, found'], path_eq⟩
    · rintro ⟨schemeSame, authoritySame, path_eq⟩
      refine ⟨printed.1, _, _, by rw [schemeSame], ?_, path_eq⟩
      rw [authoritySame, found', authorityAgain]

/-- With an authority, the printed text is parsed as the same URI. -/
theorem rawParseUri_str_of_authority {s : Text} {u : Uri} (parsed : rawParseUri s = .ok u)
    (hasAuthority : u.authority.isSome) : rawParseUri (str u) = .ok u := by
  rcases rawParseUri_eq_ok_iff.mp parsed with ⟨_, v, w, _, _, path_eq⟩
  rcases matchPath_text path_eq with ⟨path_text, after⟩
  rcases Option.isSome_iff_exists.mp hasAuthority with ⟨authority, found⟩
  rw [← path_text] at after path_eq
  exact (rawParseUri_str_iff parsed found after).mpr ⟨rfl, rfl, path_eq⟩

/-- Without a scheme and an authority, the printed text is the text that was read. -/
theorem str_eq_of_isRelative {s : Text} {u : Uri} (parsed : rawParseUri s = .ok u)
    (relative : u.scheme = none ∧ u.authority = none) : str u = s := by
  rcases rawParseUri_eq_ok_iff.mp parsed with ⟨_, v, w, scheme_eq, authority_eq, path_eq⟩
  rcases matchScheme_cases scheme_eq with ⟨_, sameText⟩ | ⟨_, found, _⟩
  · rcases matchAuthority_cases authority_eq with ⟨_, sameText'⟩ | ⟨_, found, _⟩
    · rw [str_eq, relative.1, relative.2, (matchPath_text path_eq).1, sameText', sameText]
      rfl
    · rw [relative.2] at found
      cases found
  · rw [relative.1] at found
    cases found

/-- The checks that `parse_uri` makes on a parsed URI. -/
def Accepts (options : UriOptions) (u : Uri) : Prop :=
  ¬ (∃ port ∈ u.authority.bind UriAuthority.port, 65535 < port) ∧
    ¬ (isProtocolRelative u ∧ ¬ isSet options allowProtocolRelative) ∧
    ¬ (¬ isAbsolute u ∧ ¬ isSet options (allowRelative ||| allowProtocolRelative)) ∧
    ¬ (u.scheme.isSome ∧ ¬ u.authority.isSome)

/-- What follows the checks of `parse_uri` is reached exactly if they accept. -/
theorem checks_eq_ok_iff {options : UriOptions} {ret u : Uri} {rest : Except UriError Uri} :
    (if ∃ port ∈ ret.authority.bind UriAuthority.port, 65535 < port then
        Except.error UriError.invalidPort
      else if isProtocolRelative ret ∧ ¬ isSet options allowProtocolRelative then
        .error .protocolRelative
      else if ¬ isAbsolute ret ∧ ¬ isSet options (allowRelative ||| allowProtocolRelative) then
        .error .relative
      else if ret.scheme.isSome ∧ ¬ ret.authority.isSome then .error .parseFailed
      else rest) = Except.ok u ↔ Accepts options ret ∧ rest = .ok u := by
  unfold Accepts
  constructor
  · intro parsed
    split at parsed
    · cases parsed
    · rename_i portFits
      split at parsed
      · cases parsed
      · rename_i notProtocolRelative
        split at parsed
        · cases parsed
        · rename_i notRelative
          split at parsed
          · cases parsed
          · rename_i complete
            exact ⟨⟨portFits, notProtocolRelative, notRelative, complete⟩, parsed⟩
  · rintro ⟨⟨portFits, notProtocolRelative, notRelative, complete⟩, parsed⟩
    rw [if_neg portFits, if_neg notProtocolRelative, if_neg notRelative, if_neg complete]
    exact parsed

/-- Without decoding, the parser is `raw_parse_uri` and the checks. -/
theorem parseUri_eq_ok_iff {s : Text} {options : UriOptions} {u : Uri}
    (skip : isSet options skipPathDecode) :
    parseUri s options = .ok u ↔ rawParseUri s = .ok u ∧ Accepts options u := by
  unfold parseUri
  cases rawParseUri s with
  | error error =>
      constructor
      · intro impossible
        cases impossible
      · rintro ⟨impossible, _⟩
        cases impossible
  | ok ret =>
      have reached : Accepts options ret ∧ Except.ok (ε := UriError) ret = .ok u ↔
          Except.ok (ε := UriError) ret = .ok u ∧ Accepts options u := by
        constructor
        · rintro ⟨accepted, same⟩
          cases same
          exact ⟨rfl, accepted⟩
        · rintro ⟨same, accepted⟩
          cases same
          exact ⟨accepted, rfl⟩
      dsimp only
      rw [checks_eq_ok_iff, ← reached]
      cases ret.path with
      | none => rfl
      | some path =>
          dsimp only
          rw [if_pos skip]

/-- Without decoding, parsing what is printed for a parsed URI succeeds again and
returns the same URI. -/
theorem parseUri_str {s : Text} {options : UriOptions} {u : Uri}
    (skip : isSet options skipPathDecode) (parsed : parseUri s options = .ok u) :
    parseUri (str u) options = .ok u := by
  rw [parseUri_eq_ok_iff skip] at parsed ⊢
  rcases parsed with ⟨rawParsed, accepted⟩
  refine ⟨?_, accepted⟩
  cases hasAuthority : u.authority with
  | some authority =>
      exact rawParseUri_str_of_authority rawParsed (by rw [hasAuthority]; rfl)
  | none =>
      have noScheme : u.scheme = none := by
        cases hasScheme : u.scheme with
        | none => rfl
        | some scheme =>
            exact absurd ⟨by rw [hasScheme]; rfl, by rw [hasAuthority]; simp⟩ accepted.2.2.2
      rw [str_eq_of_isRelative rawParsed ⟨noScheme, hasAuthority⟩]
      exact rawParsed

/-- The brackets and the zero in front of the port are lost in print, and the
parts are the same. -/
theorem parseUri_str_of_brackets :
    parseUri (str ⟨some (ascii "http"), some ⟨none, none, ascii "abcd", some 80⟩,
      some ⟨ascii "/x", some [], some []⟩⟩) skipPathDecode =
      .ok ⟨some (ascii "http"), some ⟨none, none, ascii "abcd", some 80⟩,
        some ⟨ascii "/x", some [], some []⟩⟩ :=
  parseUri_str (s := ascii "http://[abcd]:080/x?#") (by decide) (by decide +kernel)

end SkAsync.Net.UriSyntax

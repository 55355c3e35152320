import SkAsync.Library.Memory
import SkAsync.Library.Text

/-!
# URIs

The parser and the printer of `uri.hxx`.  Every `match_*` function takes a
component off the front of a text; what it does not recognise it leaves in
place.  Decoding happens in the memory the text was copied to: the path, the
query and the fragment are the end of that memory, so their positions in it
follow from their lengths.
-/

namespace SkAsync.Net.UriSyntax

open SkAsync.Library

/-- `uri_errors`, without `no_error`. -/
inductive UriError
  | parseFailed
  | invalidPort
  | noData
  | relative
  | protocolRelative
  | invalidEncoding
  deriving DecidableEq, Repr

/-- `uri_authority`. -/
structure UriAuthority where
  username : Option Text
  password : Option Text
  hostname : Text
  port : Option Nat
  deriving DecidableEq, Repr

/-- `uri_path`. -/
structure UriPath where
  path : Text
  query : Option Text
  fragment : Option Text
  deriving DecidableEq, Repr

/-- `uri`. -/
structure Uri where
  scheme : Option Text
  authority : Option UriAuthority
  path : Option UriPath
  deriving DecidableEq, Repr

def isAbsolute (u : Uri) : Bool :=
  u.scheme.isSome && u.authority.isSome

def isRelative (u : Uri) : Bool :=
  !u.scheme.isSome && !u.authority.isSome

def isProtocolRelative (u : Uri) : Bool :=
  u.authority.isSome && !u.scheme.isSome

/-! ## Character classes -/

abbrev hostc : Nat := 2 ^ 1
abbrev userc : Nat := 2 ^ 2
abbrev pathc : Nat := 2 ^ 3
abbrev highc : Nat := 2 ^ 4
abbrev schemec : Nat := 2 ^ 5
abbrev numc : Nat := 2 ^ 6
abbrev queryc : Nat := 2 ^ 7
abbrev fragc : Nat := 2 ^ 8
abbrev ip6c : Nat := 2 ^ 9

/-- Flags that most bytes share: those legal in a path, a query and a fragment,
with the punctuation, letters and digits that are legal elsewhere too. -/
abbrev textc : Nat := pathc ||| queryc ||| fragc
abbrev punctc : Nat := userc ||| hostc ||| textc
abbrev namec : Nat := schemec ||| punctc
abbrev letterc : Nat := namec
abbrev hexc : Nat := namec ||| ip6c
abbrev digitc : Nat := namec ||| numc ||| ip6c

/-- The table `chars`, by rows of sixteen bytes.  The initialiser in the source
has no entries for one row (it goes from `BF` to `D0`), so the 48 entries after
`BF` take the places `C0` to `EF` and the places `F0` to `FF` are zero. -/
def chars : List Nat :=
  List.replicate 32 0 ++
  [0, punctc, 0, 0, punctc, textc, punctc, punctc,
    punctc, punctc, punctc, namec, punctc, namec, namec, textc] ++
  List.replicate 10 digitc ++
  [textc ||| ip6c, punctc, 0, punctc, 0, queryc ||| fragc] ++
  [textc] ++ List.replicate 6 hexc ++ List.replicate 20 letterc ++ [0, 0, 0, 0, namec] ++
  [0] ++ List.replicate 6 hexc ++ List.replicate 20 letterc ++ [0, 0, 0, namec, 0] ++
  List.replicate 112 highc

/-- `isc`. -/
def isc (what : Nat) (c : UInt8) : Bool :=
  chars.getD c.toNat 0 &&& what != 0

/-- `span`. -/
def span (s : Text) (what : Nat) : Text × Text :=
  (s.takeWhile (isc what), s.dropWhile (isc what))

/-! ## Matching components -/

abbrev colon : UInt8 := 58
abbrev atSign : UInt8 := 64
abbrev slash : UInt8 := 47
abbrev question : UInt8 := 63
abbrev hash : UInt8 := 35
abbrev percent : UInt8 := 37
abbrev openBracket : UInt8 := 91
abbrev closeBracket : UInt8 := 93

/-- `match_scheme`. -/
def matchScheme (s : Text) : Option Text × Text :=
  let (scheme, rest) := span s schemec
  match rest with
  | [] => (none, s)
  | c :: rest => if c = colon then (some scheme, rest) else (none, s)

/-- `match_username_password`. -/
def matchUsernamePassword (s : Text) : Option Text × Option Text × Text :=
  let (username, v) := span s userc
  if username = [] then (none, none, s)
  else
    match v with
    | [] => (none, none, s)
    | c :: v =>
        if c = atSign then (some username, none, v)
        else if c ≠ colon then (none, none, s)
        else
          let (password, v) := span v userc
          match v with
          | [] => (none, none, s)
          | c :: v =>
              if c = atSign then (some username, some password, v) else (none, none, s)

/-- The largest `unsigned`. -/
abbrev unsignedMax : Nat := 4294967295

/-- `match_number`. -/
def matchNumber (s : Text) : Option Nat × Text :=
  let (istr, rest) := span s numc
  if istr = [] then (none, s)
  else
    match fromChars 10 unsignedMax istr with
    | some (i, []) => (some i, rest)
    | _ => (none, s)

/-- `match_ip6_host`. -/
def matchIp6Host (s : Text) : Text × Text :=
  match s with
  | [] => ([], s)
  | c :: v =>
      if c ≠ openBracket then ([], s)
      else
        let (host, rest) := span v ip6c
        match host, rest with
        | _ :: _, c :: rest => if c = closeBracket then (host, rest) else ([], s)
        | _, _ => ([], s)

/-- `match_host`.  A colon behind the host is taken off even when no port follows. -/
def matchHost (s : Text) : Text × Option Nat × Text :=
  match s with
  | [] => ([], none, s)
  | _ :: _ =>
      let ip6 := matchIp6Host s
      let (host, rest) := if ip6.1 = [] then span s hostc else ip6
      if host = [] then ([], none, s)
      else
        match rest with
        | [] => (host, none, rest)
        | c :: v =>
            if c = colon then
              let (port, rest) := matchNumber v
              (host, port, rest)
            else
              (host, none, rest)

/-- `match_path_only`. -/
def matchPathOnly (s : Text) : Option Text × Text :=
  match s with
  | [] => (none, s)
  | c :: _ =>
      if c = slash then
        let (path, rest) := span s (pathc ||| highc)
        (some path, rest)
      else
        (none, s)

/-- `match_path_query` and `match_path_frag`: a mark and the text behind it. -/
def matchMarked (mark : UInt8) (what : Nat) (s : Text) : Option Text × Text :=
  match s with
  | [] => (none, s)
  | c :: v =>
      if c = mark then
        let (text, rest) := span v what
        (some text, rest)
      else
        (none, s)

/-- `match_path_query`. -/
def matchPathQuery (s : Text) : Option Text × Text :=
  matchMarked question (queryc ||| highc) s

/-- `match_path_frag`. -/
def matchPathFrag (s : Text) : Option Text × Text :=
  matchMarked hash (fragc ||| highc) s

/-- `match_path`. -/
def matchPath (s : Text) : Option UriPath × Text :=
  match matchPathOnly s with
  | (none, s) => (none, s)
  | (some path, s) =>
      let (query, s) := matchPathQuery s
      let (fragment, s) := matchPathFrag s
      (some ⟨path, query, fragment⟩, s)

/-- `match_authority`. -/
def matchAuthority (s : Text) : Option UriAuthority × Text :=
  match s with
  | first :: second :: v =>
      if first = slash ∧ second = slash then
        let (username, password, v) := matchUsernamePassword v
        let (hostname, port, v) := matchHost v
        if hostname = [] then (none, s) else (some ⟨username, password, hostname, port⟩, v)
      else
        (none, s)
  | _ => (none, s)

/-- `raw_parse_uri`. -/
def rawParseUri (s : Text) : Except UriError Uri :=
  if s = [] then .error .noData
  else
    let (scheme, v) := matchScheme s
    let (authority, v) := matchAuthority v
    let (path, v) := matchPath v
    if v = [] then .ok ⟨scheme, authority, path⟩ else .error .parseFailed

/-! ## Decoding in place -/

/-- `dehex` of one byte. -/
def dehexDigit (c : UInt8) : Option Nat :=
  if 48 ≤ c ∧ c ≤ 57 then some (c.toNat - 48)
  else if 65 ≤ c ∧ c ≤ 70 then some (c.toNat - 65 + 10)
  else if 97 ≤ c ∧ c ≤ 102 then some (c.toNat - 97 + 10)
  else none

/-- `dehex` of two bytes. -/
def dehex (high low : UInt8) : Option Nat :=
  match dehexDigit high, dehexDigit low with
  | some a, some b => some ((a <<< 4) ||| b)
  | _, _ => none

/-- The loop of `decode_path`, from the read position `p` and the write position
`q` to the end of the view.  Every iteration moves `p`; the fuel bounds their
count. -/
def decodeLoop (finish : Nat) : (fuel : Nat) → Memory UInt8 → (p q : Nat) →
    Option (Memory UInt8 × Nat)
  | 0, data, _, q => some (data, q)
  | fuel + 1, data, p, q =>
      if p < finish then
        if 128 ≤ data p then none
        else if data p ≠ percent then
          decodeLoop finish fuel (data.store q [data p]) (p + 1) (q + 1)
        else if finish - (p + 1) < 2 then none
        else
          match dehex (data (p + 1)) (data (p + 2)) with
          | none => none
          | some n =>
              decodeLoop finish fuel (data.store q [UInt8.ofNat n]) (p + 3) (q + 1)
      else
        some (data, q)

/-- A part of the memory that holds the text. -/
structure View where
  start : Nat
  size : Nat
  deriving DecidableEq, Repr

/-- `decode_path`: decode the view where it is and shorten it. -/
def decodePath (data : Memory UInt8) (view : View) : Option (Memory UInt8 × View) :=
  match decodeLoop (view.start + view.size) view.size data view.start view.start with
  | none => none
  | some (data, q) => some (data, ⟨view.start, q - view.start⟩)

/-- The same for a component that may be absent. -/
def decodeOptional (data : Memory UInt8) :
    Option View → Option (Memory UInt8 × Option View)
  | none => some (data, none)
  | some view =>
      match decodePath data view with
      | none => none
      | some (data, view) => some (data, some view)

/-- The length of an optional component with its mark. -/
def markedLength (component : Option Text) : Nat :=
  match component with
  | none => 0
  | some text => text.length + 1

/-- The positions of the path, the query and the fragment in a text that ends
with them. -/
def pathViews (length : Nat) (path : UriPath) : View × Option View × Option View :=
  let fragmentMark := length - markedLength path.fragment
  let queryMark := fragmentMark - markedLength path.query
  (⟨queryMark - path.path.length, path.path.length⟩,
    path.query.map fun query => ⟨queryMark + 1, query.length⟩,
    path.fragment.map fun fragment => ⟨fragmentMark + 1, fragment.length⟩)

/-- The decoding step of `parse_uri`: the path, the query and the fragment, in
this order, in the memory the text was copied to. -/
def decodeComponents (s : Text) (path : UriPath) : Except UriError UriPath :=
  let (pathView, queryView, fragmentView) := pathViews s.length path
  let originalData : Memory UInt8 := fun offset => s.getD offset 0
  match decodePath originalData pathView with
  | none => .error .invalidEncoding
  | some (data, pathView) =>
      match decodeOptional data queryView with
      | none => .error .invalidEncoding
      | some (data, queryView) =>
          match decodeOptional data fragmentView with
          | none => .error .invalidEncoding
          | some (data, fragmentView) =>
              .ok ⟨data.slice pathView.start pathView.size,
                queryView.map fun view => data.slice view.start view.size,
                fragmentView.map fun view => data.slice view.start view.size⟩

/-! ## Options and parsing -/

/-- `urioption::flagset`. -/
abbrev UriOptions := UInt8

abbrev allowRelative : UriOptions := 1
abbrev allowProtocolRelative : UriOptions := 2
abbrev skipPathDecode : UriOptions := 4

/-- `is_set` and `any_set`: some bit of the second set is in the first. -/
def isSet (options flags : UriOptions) : Bool :=
  options &&& flags != 0

/-- `parse_uri`. -/
def parseUri (s : Text) (options : UriOptions) : Except UriError Uri :=
  match rawParseUri s with
  | .error error => .error error
  | .ok ret =>
      if ∃ port ∈ ret.authority.bind UriAuthority.port, 65535 < port then .error .invalidPort
      else if isProtocolRelative ret ∧ ¬ isSet options allowProtocolRelative then
        .error .protocolRelative
      else if ¬ isAbsolute ret ∧ ¬ isSet options (allowRelative ||| allowProtocolRelative) then
        .error .relative
      else if ret.scheme.isSome ∧ ¬ ret.authority.isSome then .error .parseFailed
      else
        match ret.path with
        | none => .ok ret
        | some path =>
            if isSet options skipPathDecode then .ok ret
            else
              match decodeComponents s path with
              | .error error => .error error
              | .ok path => .ok { ret with path := some path }

/-! ## Printing -/

/-- An optional component with a mark in front. -/
def strMarked (mark : UInt8) : Option Text → Text
  | none => []
  | some text => mark :: text

/-- What is printed for the user name and the password. -/
def strUserinfo (authority : UriAuthority) : Text :=
  match authority.username with
  | none => []
  | some username => username ++ strMarked colon authority.password ++ [atSign]

/-- What is printed for the host name: in brackets if it contains a colon. -/
def strHostname (hostname : Text) : Text :=
  if colon ∈ hostname then openBracket :: hostname ++ [closeBracket] else hostname

/-- What is printed for an authority. -/
def strAuthority (authority : UriAuthority) : Text :=
  slash :: slash :: (strUserinfo authority ++ strHostname authority.hostname ++
    strMarked colon (authority.port.map toChars))

/-- What is printed for a path with its query and fragment. -/
def strPath (path : UriPath) : Text :=
  path.path ++ strMarked question path.query ++ strMarked hash path.fragment

/-- `operator<<` and `str`. -/
def str (u : Uri) : Text :=
  (match u.scheme with
    | none => []
    | some scheme => scheme ++ [colon]) ++
  (match u.authority with
    | none => []
    | some authority => strAuthority authority) ++
  match u.path with
    | none => []
    | some path => strPath path

end SkAsync.Net.UriSyntax

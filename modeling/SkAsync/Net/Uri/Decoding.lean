import SkAsync.Net.Uri.Roundtrip

/-!
# Decoding in place

`parse_uri` decodes the path, the query and the fragment one after the other in
the array they share.  A decoded component is never longer than the text it came
from, so the write position stays behind the read position and inside the
component.  The result is the decoding of each component by itself.
-/

namespace SkAsync.Net.UriSyntax

open SkAsync.Library

/-- The bytes a component stands for, if all its bytes are ASCII and every percent
sign starts an escape. -/
def percentDecode : Text → Option Text
  | [] => some []
  | c :: v =>
      if 128 ≤ c then none
      else if c ≠ percent then (percentDecode v).map (c :: ·)
      else
        match v with
        | high :: low :: v =>
            match dehex high low with
            | none => none
            | some n => (percentDecode v).map (UInt8.ofNat n :: ·)
        | _ => none

/-- The same for a component that may be absent. -/
def percentDecodeOptional : Option Text → Option (Option Text)
  | none => some none
  | some text => (percentDecode text).map some

/-- A path with its query and fragment, each decoded by itself. -/
def decodeUriPath (path : UriPath) : Option UriPath :=
  match percentDecode path.path, percentDecodeOptional path.query,
    percentDecodeOptional path.fragment with
  | some first, some query, some fragment => some ⟨first, query, fragment⟩
  | _, _, _ => none

/-! ## One component -/

theorem percentDecode_length_le {text decoded : Text}
    (denotes : percentDecode text = some decoded) :
    decoded.length ≤ text.length := by
  fun_induction percentDecode text generalizing decoded with
  | case1 =>
      cases denotes
      exact Nat.le_refl _
  | case2 c v high => cases denotes
  | case3 c v ascii plain ih =>
      rcases Option.map_eq_some_iff.mp denotes with ⟨rest, rest_eq, rfl⟩
      exact Nat.succ_le_succ (ih rest_eq)
  | case4 c ascii escape high low v invalid => cases denotes
  | case5 c ascii escape high low v n valid ih =>
      rcases Option.map_eq_some_iff.mp denotes with ⟨rest, rest_eq, rfl⟩
      exact Nat.succ_le_succ (Nat.le_trans (ih rest_eq) (Nat.le_add_right _ 2))
  | case6 c v ascii escape short => cases denotes

/-- Storing one byte and then the decoding of the rest is storing them together. -/
theorem map_store_byte (data : Memory UInt8) (q : Nat) (c : UInt8) (rest : Option Text) :
    (rest.map fun text => ((data.store q [c]).store (q + 1) text, q + 1 + text.length)) =
      (rest.map (c :: ·)).map fun text => (data.store q text, q + text.length) := by
  cases rest with
  | none => rfl
  | some text =>
      have adjacent := Memory.store_store data q [c] text
      rw [List.length_singleton] at adjacent
      simp only [Option.map_some, adjacent, List.singleton_append, List.length_cons,
        Nat.add_assoc, Nat.add_comm 1]

/-- The loop stores the decoding of what is left from the write position on. -/
theorem decodeLoop_eq {finish fuel p q : Nat} {data : Memory UInt8} (ordered : q ≤ p)
    (bounded : p ≤ finish) (enough : finish - p ≤ fuel) :
    decodeLoop finish fuel data p q =
      (percentDecode (data.slice p (finish - p))).map
        fun text => (data.store q text, q + text.length) := by
  induction fuel generalizing data p q with
  | zero =>
      rw [Nat.le_zero.mp enough]
      simp [decodeLoop, percentDecode]
  | succ fuel ih =>
      unfold decodeLoop
      by_cases atEnd : p < finish
      · -- what is behind the read position is not overwritten
        have ahead : ∀ (c : UInt8) (step : Nat), p + (step + 1) ≤ finish →
            (data.store q [c]).slice (p + (step + 1)) (finish - (p + (step + 1))) =
              data.slice (p + (step + 1)) (finish - (p + (step + 1))) := by
          intro c step _
          apply Memory.slice_store_of_disjoint
          right
          rw [List.length_singleton]
          omega
        have count : finish - p = finish - (p + 1) + 1 := by omega
        rw [if_pos atEnd, count, Memory.slice_succ]
        unfold percentDecode
        by_cases high : 128 ≤ data p
        · rw [if_pos high, if_pos high]
          rfl
        · rw [if_neg high, if_neg high]
          by_cases plain : data p ≠ percent
          · rw [if_pos plain, if_pos plain, ih (by omega) (by omega) (by omega),
              ahead _ 0 (by omega), map_store_byte]
          · rw [if_neg plain, if_neg plain]
            by_cases short : finish - (p + 1) < 2
            · have few : finish - (p + 1) = 0 ∨ finish - (p + 1) = 1 := by omega
              rw [if_pos short]
              rcases few with none_left | one_left
              · rw [none_left]
                rfl
              · rw [one_left]
                rfl
            · have more : finish - (p + 1) = finish - (p + 3) + 1 + 1 := by omega
              rw [if_neg short, more, Memory.slice_succ, Memory.slice_succ]
              dsimp only
              cases dehex (data (p + 1)) (data (p + 1 + 1)) with
              | none => rfl
              | some n =>
                  dsimp only
                  rw [ih (by omega) (by omega) (by omega), ahead _ 2 (by omega), map_store_byte]
      · have nothing : finish - p = 0 := by omega
        rw [if_neg atEnd, nothing]
        simp [percentDecode]

/-- A view is decoded to a view of the decoded component, where it starts. -/
theorem decodePath_eq (data : Memory UInt8) (view : View) :
    decodePath data view =
      (percentDecode (data.slice view.start view.size)).map
        fun text => (data.store view.start text, ⟨view.start, text.length⟩) := by
  unfold decodePath
  rw [decodeLoop_eq (Nat.le_refl _) (Nat.le_add_right _ _) (by omega), Nat.add_sub_cancel_left]
  cases percentDecode (data.slice view.start view.size) with
  | none => rfl
  | some text => simp

/-! ## The three components of a path -/

/-- The memory behind an optional component that was decoded. -/
def storeOptional (data : Memory UInt8) (start : Nat) : Option Text → Memory UInt8
  | none => data
  | some text => data.store start text

theorem decodeOptional_eq {data : Memory UInt8} {start : Nat} {component : Option Text}
    (reads : ∀ text ∈ component, data.slice start text.length = text) :
    decodeOptional data (component.map fun text => ⟨start, text.length⟩) =
      (percentDecodeOptional component).map fun decoded =>
        (storeOptional data start decoded, decoded.map fun text => ⟨start, text.length⟩) := by
  cases component with
  | none => rfl
  | some text =>
      simp only [Option.map_some, decodeOptional, decodePath_eq, reads text rfl,
        percentDecodeOptional]
      cases percentDecode text with
      | none => rfl
      | some decoded => rfl

/-- Slices that miss an optional component are unchanged when it is decoded. -/
theorem slice_storeOptional {data : Memory UInt8} {start count position : Nat}
    {component : Option Text}
    (disjoint : ∀ text ∈ component,
      start + count ≤ position ∨ position + text.length ≤ start) :
    (storeOptional data position component).slice start count = data.slice start count := by
  cases component with
  | none => rfl
  | some text => exact Memory.slice_store_of_disjoint data (disjoint text rfl)

/-- A decoded component reads back. -/
theorem map_slice_storeOptional (data : Memory UInt8) (start : Nat) (component : Option Text) :
    (component.map fun text => ((storeOptional data start component).slice start text.length)) =
      component := by
  cases component with
  | none => rfl
  | some text => exact congrArg some (Memory.slice_store_self data start text)

/-- The array a text was copied to. -/
def originalData (s : Text) : Memory UInt8 :=
  fun offset => s.getD offset 0

theorem slice_originalData {s : Text} (front text behind : Text) {start : Nat}
    (text_eq : s = front ++ (text ++ behind)) (start_eq : start = front.length) :
    (originalData s).slice start text.length = text := by
  subst text_eq start_eq
  apply List.ext_getElem (Memory.length_slice _ _ _)
  intro index _ inRange
  rw [Memory.getElem_slice, originalData, List.getD_eq_getElem?_getD,
    List.getElem?_append_right (Nat.le_add_right _ _), Nat.add_sub_cancel_left,
    List.getElem?_append_left inRange, List.getElem?_eq_getElem inRange, Option.getD_some]

theorem length_strMarked (mark : UInt8) (component : Option Text) :
    (strMarked mark component).length = markedLength component := by
  cases component with
  | none => rfl
  | some text => rfl

/-- The views of the components of a path at the end of a text. -/
theorem pathViews_eq {s front : Text} {path : UriPath} (text_eq : s = front ++ strPath path) :
    pathViews s.length path =
      (⟨front.length, path.path.length⟩,
        path.query.map fun query => ⟨front.length + path.path.length + 1, query.length⟩,
        path.fragment.map fun fragment =>
          ⟨front.length + path.path.length + markedLength path.query + 1, fragment.length⟩) := by
  have length_eq : s.length = front.length + (path.path.length + markedLength path.query +
      markedLength path.fragment) := by
    rw [text_eq, strPath, List.length_append, List.length_append, List.length_append,
      length_strMarked, length_strMarked]
  have fragmentMark : s.length - markedLength path.fragment =
      front.length + path.path.length + markedLength path.query := by omega
  have queryMark : front.length + path.path.length + markedLength path.query -
      markedLength path.query = front.length + path.path.length := by omega
  unfold pathViews
  dsimp only
  rw [fragmentMark, queryMark, Nat.add_sub_cancel]

theorem percentDecodeOptional_length_le {component decoded : Option Text}
    (denotes : percentDecodeOptional component = some decoded) :
    ∀ text ∈ decoded, text.length + 1 ≤ markedLength component := by
  intro text member
  cases component with
  | none =>
      cases denotes
      cases member
  | some source =>
      rcases Option.map_eq_some_iff.mp denotes with ⟨found, found_eq, rfl⟩
      cases member
      exact Nat.succ_le_succ (percentDecode_length_le found_eq)

/-- Components that were stored from front to back all read back. -/
theorem slices_storeOptional (data : Memory UInt8) (first : Text) (query fragment : Option Text)
    {p q f : Nat} (first_le : p + first.length ≤ q) (ordered : q ≤ f)
    (query_le : ∀ text ∈ query, q + text.length ≤ f) {final : Memory UInt8}
    (final_eq : final = storeOptional (storeOptional (data.store p first) q query) f fragment) :
    final.slice p first.length = first ∧
      (query.map fun text => final.slice q text.length) = query ∧
      (fragment.map fun text => final.slice f text.length) = fragment := by
  constructor
  · rw [final_eq, slice_storeOptional (fun _ _ => Or.inl (Nat.le_trans first_le ordered)),
      slice_storeOptional (fun _ _ => Or.inl first_le), Memory.slice_store_self]
  · constructor
    · have unchanged : ∀ text ∈ query, final.slice q text.length =
          (storeOptional (data.store p first) q query).slice q text.length := by
        intro text member
        rw [final_eq, slice_storeOptional (fun _ _ => Or.inl (query_le text member))]
      rw [Option.map_congr unchanged, map_slice_storeOptional]
    · rw [final_eq]
      exact map_slice_storeOptional _ f fragment

/-- Decoding the components in the array they share is decoding each by itself. -/
theorem decodeComponents_eq {s front : Text} {path : UriPath}
    (text_eq : s = front ++ strPath path) :
    decodeComponents s path =
      match decodeUriPath path with
      | none => .error .invalidEncoding
      | some decoded => .ok decoded := by
  have readsPath : (originalData s).slice front.length path.path.length = path.path :=
    slice_originalData front path.path
      (strMarked question path.query ++ strMarked hash path.fragment)
      (by rw [text_eq, strPath, List.append_assoc]) rfl
  have readsQuery : ∀ text ∈ path.query,
      (originalData s).slice (front.length + path.path.length + 1) text.length = text := by
    intro text query_eq
    rw [Option.mem_def] at query_eq
    apply slice_originalData (front ++ path.path ++ [question]) text (strMarked hash path.fragment)
    · simp [text_eq, strPath, query_eq, strMarked]
    · simp [Nat.add_assoc]
  have readsFragment : ∀ text ∈ path.fragment,
      (originalData s).slice (front.length + path.path.length + markedLength path.query + 1)
        text.length = text := by
    intro text fragment_eq
    rw [Option.mem_def] at fragment_eq
    apply slice_originalData (front ++ path.path ++ strMarked question path.query ++ [hash]) text []
    · simp [text_eq, strPath, fragment_eq, strMarked]
    · simp [length_strMarked, Nat.add_assoc]
  have copied : (fun offset => s.getD offset 0 : Memory UInt8) = originalData s := rfl
  unfold decodeComponents decodeUriPath
  rw [pathViews_eq text_eq]
  dsimp only
  rw [copied, decodePath_eq, readsPath]
  cases path_eq : percentDecode path.path with
  | none => rfl
  | some first =>
      have first_le := percentDecode_length_le path_eq
      dsimp only [Option.map_some]
      rw [decodeOptional_eq (fun text member => by
        rw [Memory.slice_store_of_disjoint _ (Or.inr (by omega))]
        exact readsQuery text member)]
      cases query_eq : percentDecodeOptional path.query with
      | none => rfl
      | some query =>
          have query_le := percentDecodeOptional_length_le query_eq
          dsimp only [Option.map_some]
          rw [decodeOptional_eq (fun text member => by
            rw [slice_storeOptional (fun stored isStored => Or.inr (by
                have := query_le stored isStored
                omega)),
              Memory.slice_store_of_disjoint _ (Or.inr (by omega))]
            exact readsFragment text member)]
          cases fragment_eq : percentDecodeOptional path.fragment with
          | none => rfl
          | some fragment =>
              have stored := slices_storeOptional (originalData s) first query fragment
                (p := front.length)
                (q := front.length + path.path.length + 1)
                (f := front.length + path.path.length + markedLength path.query + 1)
                (by omega) (by omega)
                (fun text member => by
                  have := query_le text member
                  omega) rfl
              dsimp only [Option.map_some]
              rw [Option.map_map, Option.map_map]
              exact congrArg Except.ok (UriPath.mk.injEq .. ▸ stored)

/-! ## What the parser returns -/

theorem span_suffix {s first rest : Text} {what : Nat} (split : span s what = (first, rest)) :
    rest <:+ s :=
  ⟨first, (span_eq_iff.mp split).1.symm⟩

theorem matchNumber_suffix (s : Text) : (matchNumber s).2 <:+ s := by
  unfold matchNumber
  generalize split : span s numc = parts
  rcases parts with ⟨istr, rest⟩
  dsimp only
  split_ifs
  · exact List.suffix_refl s
  · split
    · exact span_suffix split
    · exact List.suffix_refl s

theorem matchUsernamePassword_suffix (s : Text) : (matchUsernamePassword s).2.2 <:+ s := by
  unfold matchUsernamePassword
  generalize split : span s userc = parts
  rcases parts with ⟨username, v⟩
  have left := span_suffix split
  dsimp only
  split_ifs
  · exact List.suffix_refl s
  · cases v with
    | nil => exact List.suffix_refl s
    | cons c v =>
        have behind : v <:+ s := (List.suffix_cons c v).trans left
        dsimp only
        split_ifs
        · exact behind
        · exact List.suffix_refl s
        · generalize split' : span v userc = parts
          rcases parts with ⟨password, w⟩
          cases w with
          | nil => exact List.suffix_refl s
          | cons d w =>
              dsimp only
              split_ifs
              · exact ((List.suffix_cons d w).trans (span_suffix split')).trans behind
              · exact List.suffix_refl s

theorem matchIp6Host_suffix (s : Text) : (matchIp6Host s).2 <:+ s := by
  unfold matchIp6Host
  cases s with
  | nil => exact List.suffix_refl _
  | cons c v =>
      dsimp only
      split_ifs
      · exact List.suffix_refl _
      · generalize split' : span v ip6c = parts
        rcases parts with ⟨host, w⟩
        have left := span_suffix split'
        dsimp only
        split
        · split_ifs
          · exact ((List.suffix_cons _ _).trans left).trans (List.suffix_cons c v)
          · exact List.suffix_refl _
        · exact List.suffix_refl _

theorem matchHost_suffix (s : Text) : (matchHost s).2.2 <:+ s := by
  unfold matchHost
  cases s with
  | nil => exact List.suffix_refl _
  | cons first text =>
      dsimp only
      generalize parts_eq : (if (matchIp6Host (first :: text)).1 = [] then
        span (first :: text) hostc else matchIp6Host (first :: text)) = parts
      have left : parts.2 <:+ first :: text := by
        rw [← parts_eq]
        split_ifs
        · exact span_suffix rfl
        · exact matchIp6Host_suffix _
      rcases parts with ⟨host, rest⟩
      dsimp only
      split_ifs
      · exact List.suffix_refl _
      · cases rest with
        | nil => exact left
        | cons c v =>
            dsimp only
            split_ifs
            · exact ((matchNumber_suffix v).trans (List.suffix_cons c v)).trans left
            · exact left

theorem matchAuthority_suffix (s : Text) : (matchAuthority s).2 <:+ s := by
  unfold matchAuthority
  split
  · rename_i first second v
    split_ifs
    · have skipMarks : v <:+ first :: second :: v :=
        (List.suffix_cons second v).trans (List.suffix_cons first _)
      generalize userinfo : matchUsernamePassword v = parts
      rcases parts with ⟨username, password, w⟩
      have afterUserinfo := matchUsernamePassword_suffix v
      rw [userinfo] at afterUserinfo
      dsimp only
      split_ifs
      · exact List.suffix_refl _
      · exact ((matchHost_suffix w).trans afterUserinfo).trans skipMarks
    · exact List.suffix_refl _
  · exact List.suffix_refl _

theorem matchScheme_suffix (s : Text) : (matchScheme s).2 <:+ s := by
  generalize matched : matchScheme s = parts
  rcases parts with ⟨scheme, rest⟩
  rcases matchScheme_cases matched with ⟨_, rfl⟩ | ⟨text, _, rfl, _⟩
  · exact List.suffix_refl _
  · exact (List.suffix_cons colon rest).trans (List.suffix_append text _)

/-- The path that is found is the end of the text. -/
theorem path_at_end {s : Text} {u : Uri} {path : UriPath} (parsed : rawParseUri s = .ok u)
    (hasPath : u.path = some path) : ∃ front, s = front ++ strPath path := by
  rcases rawParseUri_eq_ok_iff.mp parsed with ⟨_, v, w, scheme_eq, authority_eq, path_eq⟩
  have text_eq := (matchPath_text path_eq).1
  have afterScheme := matchScheme_suffix s
  have afterAuthority := matchAuthority_suffix v
  rw [scheme_eq] at afterScheme
  rw [authority_eq] at afterAuthority
  rw [hasPath] at text_eq
  rcases afterAuthority.trans afterScheme with ⟨front, front_eq⟩
  exact ⟨front, by rw [← front_eq, ← text_eq, strOptionalPath]⟩

/-- What `parse_uri` makes of what `raw_parse_uri` found. -/
def decodeUri (options : UriOptions) (raw : Uri) : Option Uri :=
  if isSet options skipPathDecode then some raw
  else
    match raw.path with
    | none => some raw
    | some path => (decodeUriPath path).map fun decoded => { raw with path := some decoded }

/-- `parse_uri` is `raw_parse_uri`, the checks, and the decoding of each component
of the path by itself. -/
theorem parseUri_eq_ok_iff_decoded {s : Text} {options : UriOptions} {u : Uri} :
    parseUri s options = .ok u ↔
      ∃ raw, rawParseUri s = .ok raw ∧ Accepts options raw ∧ decodeUri options raw = some u := by
  unfold parseUri
  cases parsed : rawParseUri s with
  | error error =>
      constructor
      · intro impossible
        cases impossible
      · rintro ⟨raw, impossible, _⟩
        cases impossible
  | ok ret =>
      have same : Accepts options ret ∧ decodeUri options ret = some u ↔
          ∃ raw, Except.ok (ε := UriError) ret = .ok raw ∧ Accepts options raw ∧
            decodeUri options raw = some u := by
        constructor
        · rintro ⟨accepted, result⟩
          exact ⟨ret, rfl, accepted, result⟩
        · rintro ⟨raw, same, accepted, result⟩
          cases same
          exact ⟨accepted, result⟩
      dsimp only
      rw [checks_eq_ok_iff, ← same]
      apply and_congr_right
      intro _
      unfold decodeUri
      cases path_eq : ret.path with
      | none =>
          dsimp only
          rw [ite_self, Except.ok.injEq, Option.some.injEq]
      | some path =>
          rcases path_at_end parsed path_eq with ⟨front, text_eq⟩
          dsimp only
          rw [decodeComponents_eq text_eq]
          by_cases skip : isSet options skipPathDecode = true
          · rw [if_pos skip, if_pos skip, Except.ok.injEq, Option.some.injEq]
          · rw [if_neg skip, if_neg skip]
            cases decodeUriPath path with
            | none =>
                constructor
                · intro impossible
                  cases impossible
                · intro impossible
                  cases impossible
            | some decoded =>
                dsimp only
                rw [Option.map_some, Except.ok.injEq, Option.some.injEq]

end SkAsync.Net.UriSyntax

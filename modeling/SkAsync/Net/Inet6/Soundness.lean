import SkAsync.Net.Inet6.Grammar

/-!
# What the IPv6 parser accepts

The loop of `from_string` follows `Scan` and `Tail`: each way through its body
is one of their constructors.  So the texts it accepts are the literals, for the
bytes they denote, and the defects, and no text is both.
-/

namespace SkAsync.Net.Inet6

open SkAsync.Library

/-! ## Segments -/

theorem swap_eq {group : Nat} (bound : group ≤ 65535) :
    swap group = group % 256 * 256 + group / 256 := by
  have high : group / 256 < 2 ^ 8 := by omega
  unfold swap
  rw [Nat.shiftRight_eq_div_pow, ← Nat.shiftLeft_add_eq_or_of_lt high, Nat.shiftLeft_eq]
  omega

/-- A swapped segment is stored as the bytes of its group. -/
theorem segmentBytes_swap {group : Nat} (bound : group ≤ 65535) :
    segmentBytes (swap group) = groupBytes group := by
  have low : (group % 256 * 256 + group / 256) % 256 = group / 256 := by omega
  have high : (group % 256 * 256 + group / 256) / 256 = group % 256 := by omega
  rw [segmentBytes, swap_eq bound, low, high, groupBytes]

theorem join_eq_swap {high low : Nat} (highBound : high ≤ 255)
    (lowBound : low ≤ 255) :
    join (UInt8.ofNat high) (UInt8.ofNat low) = swap (low * 256 + high) := by
  have highValue : (UInt8.ofNat high).toNat = high :=
    UInt8.toNat_ofNat_of_lt' (Nat.lt_succ_of_le highBound)
  have lowValue : (UInt8.ofNat low).toNat = low :=
    UInt8.toNat_ofNat_of_lt' (Nat.lt_succ_of_le lowBound)
  have small : low < 2 ^ 8 := by omega
  rw [swap_eq (by omega), join, highValue, lowValue, ← Nat.shiftLeft_add_eq_or_of_lt small,
    Nat.shiftLeft_eq]
  have middle : (low * 256 + high) / 256 = low := by omega
  have rest : (low * 256 + high) % 256 = high := by omega
  rw [middle, rest]
  exact Nat.mod_eq_of_lt (by omega)

/-- The segments of an embedded address are those of its two groups. -/
theorem v4Segments_of_quad {text : Text} {octets : List Nat} {v4 : Address 4}
    (quad : Inet.Quad text octets) (bytes_eq : v4.bytes = octets.map UInt8.ofNat) :
    [(v4Segments v4).1, (v4Segments v4).2] = (quadGroups octets).map swap := by
  have bound := quad.le_of_mem
  rcases v4 with ⟨bytes, size_eq⟩
  match octets, quad.length_eq with
  | [a, b, c, d], _ =>
      cases bytes_eq
      have first := join_eq_swap (bound b (by simp)) (bound a (by simp))
      have second := join_eq_swap (bound d (by simp)) (bound c (by simp))
      change _ = [swap (a * 256 + b), swap (c * 256 + d)]
      rw [← first, ← second]
      rfl

/-- `final` is `segments` with values pushed to the current vector. -/
structure Appends (segments final : Segments) (values : List Nat) : Prop where
  inEnd_eq : final.inEnd = segments.inEnd
  start_items : final.startSegments.items =
    segments.startSegments.items ++ if segments.inEnd then [] else values
  end_items : final.endSegments.items =
    segments.endSegments.items ++ if segments.inEnd then values else []

theorem Appends.refl (segments : Segments) : Appends segments segments [] :=
  ⟨rfl, by simp, by simp⟩

theorem Appends.trans {segments middle final : Segments} {first second : List Nat}
    (left : Appends segments middle first) (right : Appends middle final second) :
    Appends segments final (first ++ second) := by
  rcases left with ⟨inEnd_eq, start_items, end_items⟩
  rcases right with ⟨inEnd_eq', start_items', end_items'⟩
  rw [inEnd_eq] at start_items' end_items'
  refine ⟨inEnd_eq'.trans inEnd_eq, ?_, ?_⟩
  · rw [start_items', start_items]
    split <;> simp
  · rw [end_items', end_items]
    split <;> simp

theorem appends_of_pushBack {build : Build} {segments final : Segments} {value : Nat}
    (pushed : segments.pushBack build value = .ok final) : Appends segments final [value] := by
  unfold Segments.pushBack at pushed
  cases inEnd : segments.inEnd with
  | true =>
      rw [inEnd, if_pos rfl] at pushed
      rcases bind_eq_ok_iff.mp pushed with ⟨vector, pushed', result⟩
      cases result
      exact ⟨inEnd.symm, by simp [inEnd], by simp [inEnd, StaticVector.items_of_pushBack pushed']⟩
  | false =>
      rw [inEnd, if_neg Bool.false_ne_true] at pushed
      rcases bind_eq_ok_iff.mp pushed with ⟨vector, pushed', result⟩
      cases result
      exact ⟨inEnd.symm, by simp [inEnd, StaticVector.items_of_pushBack pushed'], by simp [inEnd]⟩

/-- There is room in both vectors for a segment from each iteration left. -/
structure Room (segments : Segments) (left : Nat) : Prop where
  start_le : segments.startSegments.items.length + left ≤ 8
  end_le : segments.endSegments.items.length + left ≤ 8

theorem exists_pushBack (build : Build) {segments : Segments} {left : Nat} (value : Nat)
    (room : Room segments (left + 1)) :
    ∃ final, segments.pushBack build value = .ok final ∧ Appends segments final [value] ∧
      Room final left := by
  have startLt : segments.startSegments.items.length < 8 := by
    have := room.start_le
    omega
  have endLt : segments.endSegments.items.length < 8 := by
    have := room.end_le
    omega
  have pushed : ∃ final, segments.pushBack build value = .ok final := by
    unfold Segments.pushBack
    cases segments.inEnd with
    | true =>
        rcases StaticVector.pushBack_of_lt build value endLt with ⟨vector, pushed, _⟩
        exact ⟨_, by rw [if_pos rfl, pushed]; rfl⟩
    | false =>
        rcases StaticVector.pushBack_of_lt build value startLt with ⟨vector, pushed, _⟩
        exact ⟨_, by rw [if_neg Bool.false_ne_true, pushed]; rfl⟩
  rcases pushed with ⟨final, pushed⟩
  have appends := appends_of_pushBack pushed
  refine ⟨final, pushed, appends, ?_, ?_⟩
  · rw [appends.start_items, List.length_append]
    have := room.start_le
    split
    · simp only [List.length_nil]
      omega
    · simp only [List.length_singleton]
      omega
  · rw [appends.end_items, List.length_append]
    have := room.end_le
    split
    · simp only [List.length_singleton]
      omega
    · simp only [List.length_nil]
      omega

/-! ## One iteration -/

/-- The ways through the loop body once an IPv4 address was ruled out. -/
theorem segmentStep_eq_ok_iff (build : Build) {segments : Segments} {s : Text} {step : Step} :
    segmentStep build segments s = .ok (.ok step) ↔
      (s = [] ∧ segments.inEnd = true ∧ step = .done segments []) ∨
      (∃ rest, s = colon :: rest ∧ segments.inEnd = false ∧
        step = .next { segments with inEnd := true } rest) ∨
      (∃ value pushed, Group s value ∧ segments.pushBack build (swap value) = .ok pushed ∧
        step = .done pushed []) ∨
      ∃ text value pushed rest, s = text ++ colon :: rest ∧ Group text value ∧
        segments.pushBack build (swap value) = .ok pushed ∧ step = .next pushed rest := by
  constructor
  · intro stepped
    unfold segmentStep at stepped
    cases s with
    | nil =>
        cases inEnd : segments.inEnd with
        | false => simp [inEnd] at stepped
        | true =>
            simp only [inEnd, if_true, Except.ok.injEq] at stepped
            exact Or.inl ⟨rfl, rfl, stepped.symm⟩
    | cons c rest =>
        dsimp only at stepped
        split at stepped
        · rename_i isColon
          subst isColon
          cases inEnd : segments.inEnd with
          | true => simp [inEnd] at stepped
          | false =>
              simp only [inEnd, Bool.false_eq_true, if_false, Except.ok.injEq] at stepped
              exact Or.inr (Or.inl ⟨rest, rfl, rfl, stepped.symm⟩)
        · split at stepped
          · cases stepped
          · rename_i seg after number
            rcases Inet.spanNumber_eq_some_iff.mp number with ⟨text, text_eq, group, _⟩
            rcases bind_eq_ok_iff.mp stepped with ⟨pushed, pushed_eq, result⟩
            right; right
            cases after with
            | nil =>
                cases result
                rw [text_eq, List.append_nil]
                exact Or.inl ⟨seg, pushed, group, pushed_eq, rfl⟩
            | cons c' rest' =>
                dsimp only at result
                split at result
                · rename_i isColon
                  subst isColon
                  cases result
                  exact Or.inr ⟨text, seg, pushed, rest', text_eq, group, pushed_eq, rfl⟩
                · cases result
  · rintro (⟨rfl, inEnd, rfl⟩ | ⟨rest, rfl, inEnd, rfl⟩ | ⟨value, pushed, group, pushed_eq, rfl⟩ |
      ⟨text, value, pushed, rest, rfl, group, pushed_eq, rfl⟩)
    · simp [segmentStep, inEnd]
    · simp [segmentStep, inEnd]
    · rcases group_eq_cons group with ⟨c, tail, rfl, notColon⟩
      have number := Inet.spanNumber_of_numeral group (endsNumeral_nil 16)
      rw [List.append_nil] at number
      simp [segmentStep, notColon, number, pushed_eq]
    · have number := Inet.spanNumber_of_numeral group
        ((endsNumeral_cons 16 colon rest).mpr not_isDigit_colon)
      rcases group_eq_cons group with ⟨c, tail, rfl, notColon⟩
      rw [List.cons_append] at number
      simp [segmentStep, notColon, number, pushed_eq]

theorem embedded_eq_ok_iff {left : Nat} {s : Text} {v4 : Address 4} :
    embedded left s = .ok v4 ↔
      2 ≤ left ∧ left ≤ 7 ∧ ∃ octets, Inet.Quad s octets ∧ v4.bytes = octets.map UInt8.ofNat := by
  unfold embedded
  split
  · rename_i inside
    rw [Inet.fromString_eq_ok_iff_quad]
    constructor
    · exact fun quad => ⟨inside.1, inside.2, quad⟩
    · exact fun quad => quad.2.2
  · rename_i outside
    constructor
    · exact fun parsed => by cases parsed
    · exact fun inside => absurd ⟨inside.1, inside.2.1⟩ outside

/-- Where there is no IPv4 address, an iteration is its second half. -/
theorem parseLoop_of_not_quad {build : Build} {left : Nat} {segments : Segments} {s : Text}
    (notQuad : ∀ octets, ¬ Inet.Quad s octets) :
    parseLoop build (left + 1) segments s =
      segmentStep build segments s >>= fun
        | .error error => pure (.error error)
        | .ok (.done segments rest) => pure (.ok (segments, rest))
        | .ok (.next segments rest) => parseLoop build left segments rest := by
  rw [parseLoop]
  cases lookup : embedded (left + 1) s with
  | ok v4 =>
      rcases (embedded_eq_ok_iff.mp lookup).2.2 with ⟨octets, quad, _⟩
      exact absurd quad (notQuad octets)
  | error error => rfl

/-- Where there is one, its segments end the loop. -/
theorem parseLoop_of_quad (build : Build) {left : Nat} (segments : Segments) {s : Text}
    {octets : List Nat} (two_le : 2 ≤ left) (bound : left ≤ 7) (quad : Inet.Quad s octets) :
    ∃ first second, [first, second] = (quadGroups octets).map swap ∧
      parseLoop build left segments s =
        (segments.pushBack build first >>= fun segments =>
          segments.pushBack build second >>= fun segments => pure (.ok (segments, []))) := by
  have sized : (octets.map UInt8.ofNat).length = 4 := by
    rw [List.length_map, quad.length_eq]
  let v4 : Address 4 := ⟨octets.map UInt8.ofNat, sized⟩
  have lookup : embedded left s = .ok v4 :=
    embedded_eq_ok_iff.mpr ⟨two_le, bound, octets, quad, rfl⟩
  refine ⟨(v4Segments v4).1, (v4Segments v4).2, v4Segments_of_quad quad rfl, ?_⟩
  cases left with
  | zero => cases two_le
  | succ left =>
      rw [parseLoop, lookup]

/-! ## The loop -/

/-- An accepting iteration that found an IPv4 address. -/
theorem appends_of_quad {build : Build} {left : Nat} {segments final : Segments} {s : Text}
    {octets : List Nat} (two_le : 2 ≤ left) (bound : left ≤ 7) (quad : Inet.Quad s octets)
    (accepted : parseLoop build left segments s = .ok (.ok (final, []))) :
    Appends segments final ((quadGroups octets).map swap) := by
  rcases parseLoop_of_quad build segments two_le bound quad with ⟨first, second, values, loop⟩
  rw [loop] at accepted
  rcases bind_eq_ok_iff.mp accepted with ⟨middle, pushed, accepted'⟩
  rcases bind_eq_ok_iff.mp accepted' with ⟨last, pushed', result⟩
  cases result
  rw [← values]
  exact (appends_of_pushBack pushed).trans (appends_of_pushBack pushed')

/-- After an empty segment, the loop only accepts what `Tail` describes. -/
theorem tail_of_parseLoop {build : Build} {left : Nat} {segments final : Segments} {s : Text}
    (inEnd : segments.inEnd = true) (bound : left ≤ 7)
    (accepted : parseLoop build left segments s = .ok (.ok (final, []))) :
    ∃ values, Tail left s values ∧ Appends segments final (values.map swap) := by
  induction left generalizing segments s with
  | zero =>
      cases accepted
      exact ⟨[], .done 0, Appends.refl _⟩
  | succ left ih =>
      have accepted_eq := accepted
      rw [parseLoop] at accepted
      cases lookup : embedded (left + 1) s with
      | ok v4 =>
          rcases embedded_eq_ok_iff.mp lookup with ⟨two_le, _, octets, quad, _⟩
          exact ⟨quadGroups octets, .quad two_le bound quad,
            appends_of_quad two_le bound quad accepted_eq⟩
      | error error =>
          rw [lookup] at accepted
          rcases bind_eq_ok_iff.mp accepted with ⟨result, stepped, accepted'⟩
          cases result with
          | error error => cases accepted'
          | ok step =>
              rcases (segmentStep_eq_ok_iff build).mp stepped with
                ⟨rfl, _, rfl⟩ | ⟨_, _, notInEnd, _⟩ |
                ⟨value, pushed, group, pushed_eq, rfl⟩ |
                ⟨text, value, pushed, rest, rfl, group, pushed_eq, rfl⟩
              · cases accepted'
                exact ⟨[], .done _, Appends.refl _⟩
              · rw [inEnd] at notInEnd
                cases notInEnd
              · cases accepted'
                exact ⟨[value], .last group, appends_of_pushBack pushed_eq⟩
              · have first := appends_of_pushBack pushed_eq
                rcases ih (first.inEnd_eq.trans inEnd) (Nat.le_of_succ_le bound) accepted' with
                  ⟨values, tail, appends⟩
                exact ⟨value :: values, .next group tail, first.trans appends⟩

/-- How the vectors end up for the groups before and after an empty segment. -/
def Reads (segments final : Segments) (before : List Nat) : Option (List Nat) → Prop
  | none => Appends segments final (before.map swap)
  | some after => ∃ middle, Appends segments middle (before.map swap) ∧
      Appends { middle with inEnd := true } final (after.map swap)

theorem Reads.cons {segments middle final : Segments} {value : Nat} {before : List Nat}
    {after : Option (List Nat)} (first : Appends segments middle [swap value])
    (reads : Reads middle final before after) : Reads segments final (value :: before) after := by
  cases after with
  | none => exact first.trans reads
  | some after =>
      rcases reads with ⟨last, appends, appends'⟩
      exact ⟨last, first.trans appends, appends'⟩

/-- From its start, the loop only accepts what `Scan` describes. -/
theorem scan_of_parseLoop {build : Build} {left : Nat} {segments final : Segments} {s : Text}
    (inStart : segments.inEnd = false) (bound : left ≤ 8)
    (accepted : parseLoop build left segments s = .ok (.ok (final, []))) :
    ∃ before after, Scan left s before after ∧ Reads segments final before after := by
  induction left generalizing segments s with
  | zero =>
      cases accepted
      exact ⟨[], none, .done, Appends.refl _⟩
  | succ left ih =>
      have accepted_eq := accepted
      rw [parseLoop] at accepted
      cases lookup : embedded (left + 1) s with
      | ok v4 =>
          rcases embedded_eq_ok_iff.mp lookup with ⟨two_le, bound', octets, quad, _⟩
          exact ⟨quadGroups octets, none, .quad two_le bound' quad,
            appends_of_quad two_le bound' quad accepted_eq⟩
      | error error =>
          rw [lookup] at accepted
          rcases bind_eq_ok_iff.mp accepted with ⟨result, stepped, accepted'⟩
          cases result with
          | error error => cases accepted'
          | ok step =>
              rcases (segmentStep_eq_ok_iff build).mp stepped with
                ⟨_, inEnd, _⟩ | ⟨rest, rfl, _, rfl⟩ |
                ⟨value, pushed, group, pushed_eq, rfl⟩ |
                ⟨text, value, pushed, rest, rfl, group, pushed_eq, rfl⟩
              · rw [inStart] at inEnd
                cases inEnd
              · rcases tail_of_parseLoop rfl (Nat.le_of_succ_le_succ bound) accepted' with
                  ⟨values, tail, appends⟩
                exact ⟨[], some values, .empty tail, segments, Appends.refl segments, appends⟩
              · cases accepted'
                exact ⟨[value], none, .last group, appends_of_pushBack pushed_eq⟩
              · have first := appends_of_pushBack pushed_eq
                rcases ih (first.inEnd_eq.trans inStart) (Nat.le_of_succ_le bound) accepted' with
                  ⟨before, after, scan, reads⟩
                exact ⟨value :: before, after, .next group scan, reads.cons first⟩

/-- A found IPv4 address fits into the current vector. -/
theorem parseLoop_of_quad_room (build : Build) {left : Nat} {segments : Segments} {s : Text}
    {octets : List Nat} (room : Room segments left) (two_le : 2 ≤ left) (bound : left ≤ 7)
    (quad : Inet.Quad s octets) :
    ∃ final, parseLoop build left segments s = .ok (.ok (final, [])) ∧
      Appends segments final ((quadGroups octets).map swap) := by
  rcases Nat.exists_eq_add_of_le two_le with ⟨more, rfl⟩
  rw [Nat.add_comm 2 more] at room
  rcases parseLoop_of_quad build segments two_le bound quad with ⟨first, second, values, loop⟩
  rcases exists_pushBack build first room with ⟨middle, pushed, appends, room'⟩
  rcases exists_pushBack build second room' with ⟨final, pushed', appends', _⟩
  refine ⟨final, ?_, values ▸ appends.trans appends'⟩
  rw [loop, pushed, ok_bind, pushed', ok_bind, pure_eq_ok]

/-- A group that ends the text ends the loop. -/
theorem parseLoop_of_last (build : Build) {left value : Nat} {segments : Segments} {s : Text}
    (room : Room segments (left + 1)) (group : Group s value) :
    ∃ final, parseLoop build (left + 1) segments s = .ok (.ok (final, [])) ∧
      Appends segments final [swap value] := by
  rcases exists_pushBack build (swap value) room with ⟨final, pushed, appends, _⟩
  refine ⟨final, ?_, appends⟩
  have stepped := (segmentStep_eq_ok_iff build).mpr
    (Or.inr (Or.inr (Or.inl ⟨value, final, group, pushed, rfl⟩)))
  rw [parseLoop_of_not_quad (not_quad_of_group group), stepped]
  rfl

/-- A group and a colon are one iteration. -/
theorem parseLoop_of_next (build : Build) {left value : Nat} {segments : Segments}
    {text rest : Text} (room : Room segments (left + 1)) (group : Group text value) :
    ∃ pushed, parseLoop build (left + 1) segments (text ++ colon :: rest) =
        parseLoop build left pushed rest ∧
      Appends segments pushed [swap value] ∧ Room pushed left := by
  rcases exists_pushBack build (swap value) room with ⟨pushed, pushed_eq, appends, room'⟩
  refine ⟨pushed, ?_, appends, room'⟩
  have stepped := (segmentStep_eq_ok_iff build).mpr
    (Or.inr (Or.inr (Or.inr ⟨text, value, pushed, rest, rfl, group, pushed_eq, rfl⟩)))
  rw [parseLoop_of_not_quad (not_quad_of_colon_mem (by simp)), stepped, ok_bind]

/-- The loop accepts what `Tail` describes. -/
theorem parseLoop_of_tail (build : Build) {left : Nat} {segments : Segments} {s : Text}
    {values : List Nat} (tail : Tail left s values) (inEnd : segments.inEnd = true)
    (room : Room segments left) :
    ∃ final, parseLoop build left segments s = .ok (.ok (final, [])) ∧
      Appends segments final (values.map swap) := by
  induction tail generalizing segments with
  | done left =>
      refine ⟨segments, ?_, Appends.refl segments⟩
      cases left with
      | zero => rfl
      | succ left =>
          have notQuad : ∀ octets, ¬ Inet.Quad [] octets :=
            fun octets quad => List.not_mem_nil quad.dot_mem
          have stepped := (segmentStep_eq_ok_iff build).mpr (Or.inl ⟨rfl, inEnd, rfl⟩)
          rw [parseLoop_of_not_quad notQuad, stepped]
          rfl
  | quad two_le bound quad => exact parseLoop_of_quad_room build room two_le bound quad
  | last group => exact parseLoop_of_last build room group
  | next group _ ih =>
      rcases parseLoop_of_next build room group with ⟨pushed, loop, first, room'⟩
      rcases ih (first.inEnd_eq.trans inEnd) room' with ⟨final, accepted, appends⟩
      exact ⟨final, loop ▸ accepted, first.trans appends⟩

/-- The loop accepts what `Scan` describes. -/
theorem parseLoop_of_scan (build : Build) {left : Nat} {segments : Segments} {s : Text}
    {before : List Nat} {after : Option (List Nat)} (scan : Scan left s before after)
    (inStart : segments.inEnd = false) (room : Room segments left) :
    ∃ final, parseLoop build left segments s = .ok (.ok (final, [])) ∧
      Reads segments final before after := by
  induction scan generalizing segments with
  | done => exact ⟨segments, rfl, Appends.refl segments⟩
  | quad two_le bound quad => exact parseLoop_of_quad_room build room two_le bound quad
  | last group => exact parseLoop_of_last build room group
  | next group _ ih =>
      rcases parseLoop_of_next build room group with ⟨pushed, loop, first, room'⟩
      rcases ih (first.inEnd_eq.trans inStart) room' with ⟨final, accepted, reads⟩
      exact ⟨final, loop ▸ accepted, reads.cons first⟩
  | empty _ =>
      rename_i left rest after tail
      have stepped := (segmentStep_eq_ok_iff build).mpr (Or.inr (Or.inl ⟨rest, rfl, inStart, rfl⟩))
      have room' : Room { segments with inEnd := true } _ :=
        ⟨Nat.le_of_succ_le room.start_le, Nat.le_of_succ_le room.end_le⟩
      rcases parseLoop_of_tail build tail rfl room' with ⟨final, accepted, appends⟩
      refine ⟨final, ?_, segments, Appends.refl segments, appends⟩
      rw [parseLoop_of_not_quad (not_quad_of_colon_mem (by simp)), stepped, ok_bind]
      exact accepted

/-! ## The whole text -/

theorem room_new (inEnd : Bool) (left : Nat) (bound : left ≤ 8) :
    Room { Segments.new with inEnd := inEnd } left :=
  ⟨(Nat.zero_add left).trans_le bound, (Nat.zero_add left).trans_le bound⟩

theorem parse_of_empty (build : Build) (rest : Text) :
    parse build (colon :: colon :: rest) =
      parseLoop build 7 { Segments.new with inEnd := true } rest := by
  unfold parse
  exact if_pos ⟨rfl, rfl⟩

theorem parse_of_start (build : Build) {s : Text} (notEmpty : ∀ rest, s ≠ colon :: colon :: rest) :
    parse build s = parseLoop build 8 .new s := by
  match s with
  | [] => rfl
  | [_] => rfl
  | first :: second :: rest =>
      apply if_neg
      rintro ⟨rfl, rfl⟩
      exact notEmpty rest rfl

/-- The parser takes a text for groups exactly when it accepts it with them. -/
theorem parse_spec (build : Build) (s : Text) :
    (∀ before after, Accepts s before after → ∃ final, parse build s = .ok (.ok (final, [])) ∧
        Reads .new final before after) ∧
      ∀ final, parse build s = .ok (.ok (final, [])) → ∃ before after,
        Accepts s before after ∧ Reads .new final before after := by
  by_cases isEmpty : ∃ rest, s = colon :: colon :: rest
  · rcases isEmpty with ⟨rest, rfl⟩
    rw [parse_of_empty]
    constructor
    · rintro before after (⟨rest', values, text_eq, rfl, rfl, tail⟩ | ⟨notEmpty, _⟩)
      · cases text_eq
        rcases parseLoop_of_tail build tail rfl (room_new true 7 (by decide)) with
          ⟨final, accepted, appends⟩
        exact ⟨final, accepted, .new, Appends.refl .new, appends⟩
      · exact absurd rfl (notEmpty rest)
    · intro final accepted
      rcases tail_of_parseLoop rfl (Nat.le_refl 7) accepted with ⟨values, tail, appends⟩
      exact ⟨[], some values, Or.inl ⟨rest, values, rfl, rfl, rfl, tail⟩, .new, Appends.refl .new,
        appends⟩
  · push Not at isEmpty
    rw [parse_of_start build isEmpty]
    constructor
    · rintro before after (⟨rest, _, rfl, _⟩ | ⟨_, scan⟩)
      · exact absurd rfl (isEmpty rest)
      · exact parseLoop_of_scan build scan rfl (room_new false 8 (by decide))
    · intro final accepted
      rcases scan_of_parseLoop rfl (Nat.le_refl 8) accepted with ⟨before, after, scan, reads⟩
      exact ⟨before, after, Or.inr ⟨isEmpty, scan⟩, reads⟩

/-- How many groups a text is taken for, and where, is determined. -/
theorem Accepts.unique {text : Text} {before before' : List Nat} {after after' : Option (List Nat)}
    (left : Accepts text before after) (right : Accepts text before' after') :
    before.length = before'.length ∧ after.map List.length = after'.map List.length := by
  rcases (parse_spec .debug text).1 before after left with ⟨final, parsed, reads⟩
  rcases (parse_spec .debug text).1 before' after' right with ⟨final', parsed', reads'⟩
  rw [parsed] at parsed'
  cases parsed'
  have shape : ∀ before after, Reads .new final before after →
      final.inEnd = after.isSome ∧ final.startSegments.items.length = before.length ∧
        ∀ values, after = some values → final.endSegments.items.length = values.length := by
    intro before after reads
    cases after with
    | none =>
        refine ⟨reads.inEnd_eq, ?_, fun _ impossible => by cases impossible⟩
        simp [reads.start_items, Segments.new]
    | some values =>
        rcases reads with ⟨middle, first, second⟩
        refine ⟨second.inEnd_eq, ?_, ?_⟩
        · simp [second.start_items, first.start_items, Segments.new]
        · intro values' same
          cases same
          simp [second.end_items, first.end_items, Segments.new]
  rcases shape before after reads with ⟨inEnd, start, finish⟩
  rcases shape before' after' reads' with ⟨inEnd', start', finish'⟩
  refine ⟨start.symm.trans start', ?_⟩
  cases after with
  | none =>
      cases after' with
      | none => rfl
      | some values' => exact absurd (inEnd.symm.trans inEnd') Bool.false_ne_true
  | some values =>
      cases after' with
      | none => exact absurd (inEnd'.symm.trans inEnd) Bool.false_ne_true
      | some values' => exact congrArg some ((finish values rfl).symm.trans (finish' values' rfl))

/-- No defect is a literal. -/
theorem not_literal_of_defect {text : Text} (defect : Defect text) (groups : List Nat) :
    ¬ Literal text groups := by
  intro literal
  rcases accepts_of_literal literal with ⟨sequence, length_eq, accepts⟩ |
    ⟨left, right, before, after, text_eq, isGroups, sequence, accepts⟩
  · cases defect with
    | leadingColon _ _ =>
        rcases sequence_eq_cons sequence with ⟨c, rest, shape, notColon⟩
        exact notColon (List.cons.inj shape).1.symm
    | tooFewGroups sequence' few notQuad =>
        have same := (accepts.unique (accepts_of_sequence sequence' few.le notQuad)).1
        exact absurd (length_eq.symm.trans same) few.ne'
    | trailingColon _ _ => exact sequence_ne_append_colon sequence rfl
    | trailingColonAfterEmpty isGroups ending total =>
        have accepts' := accepts_of_ending isGroups (Or.inr ⟨_, rfl, ending⟩) total
        cases (accepts.unique accepts').2
  · cases defect with
    | leadingColon ending _ =>
        rcases isGroups with ⟨rfl, _⟩ | isGroups
        · exact ending_ne_colon_cons ending (List.cons.inj text_eq).2
        · rcases groups_eq_cons isGroups with ⟨c, rest, rfl, notColon⟩
          exact notColon (List.cons.inj text_eq).1.symm
    | tooFewGroups sequence' few notQuad =>
        cases (accepts.unique (accepts_of_sequence sequence' few.le notQuad)).2
    | trailingColon isGroups' length_eq =>
        cases (accepts.unique (accepts_of_trailingColon isGroups' length_eq)).2
    | trailingColonAfterEmpty isGroups' ending total =>
        have accepts' := accepts_of_ending isGroups' (Or.inr ⟨_, rfl, ending⟩) total
        have same := Option.some.inj (accepts.unique accepts').2
        rcases sequence with ⟨_, rfl⟩ | sequence
        · cases ending <;> cases same
        · rename_i left' right' _ _
          have split : left ++ colon :: colon :: right = left ++ [colon, colon] ++ right := by simp
          have split' : left' ++ colon :: colon :: (right' ++ [colon]) =
              left' ++ colon :: colon :: right' ++ [colon] := by simp
          rw [split, split'] at text_eq
          exact append_sequence_ne_append_colon sequence text_eq.symm

/-! ## The address -/

/-- The bytes of groups in a row. -/
theorem flatMap_segmentBytes_swap {groups : List Nat} (bound : ∀ group ∈ groups, group ≤ 65535) :
    (groups.map swap).flatMap segmentBytes = groups.flatMap groupBytes := by
  rw [List.flatMap_map]
  exact List.flatMap_congr fun group member => segmentBytes_swap (bound group member)

theorem length_flatMap_segmentBytes (segments : List Nat) :
    (segments.flatMap segmentBytes).length = segments.length * 2 := by
  induction segments with
  | nil => rfl
  | cons segment segments ih =>
      rw [List.flatMap_cons, List.length_append, ih, List.length_cons, segmentBytes]
      simp only [List.length_cons, List.length_nil]
      omega

theorem le_of_mem_quadGroups {octets : List Nat} (bound : ∀ octet ∈ octets, octet ≤ 255) :
    ∀ group ∈ quadGroups octets, group ≤ 65535 := by
  unfold quadGroups
  split
  · rename_i a b c d
    have ha := bound a (by simp)
    have hb := bound b (by simp)
    have hc := bound c (by simp)
    have hd := bound d (by simp)
    intro group member
    simp only [List.mem_cons, List.not_mem_nil, or_false] at member
    rcases member with rfl | rfl
    · omega
    · omega
  · simp

/-- Groups are 16-bit numbers. -/
theorem Tail.le_of_mem {left : Nat} {text : Text} {values : List Nat}
    (tail : Tail left text values) : ∀ value ∈ values, value ≤ 65535 := by
  induction tail with
  | done _ => simp
  | quad _ _ quad => exact le_of_mem_quadGroups quad.le_of_mem
  | last group => exact List.forall_mem_singleton.mpr group.le_max
  | next group _ ih => exact List.forall_mem_cons.mpr ⟨group.le_max, ih⟩

theorem Scan.le_of_mem {left : Nat} {text : Text} {before : List Nat}
    {after : Option (List Nat)} (scan : Scan left text before after) :
    ∀ value ∈ before, value ≤ 65535 := by
  induction scan with
  | done => simp
  | quad _ _ quad => exact le_of_mem_quadGroups quad.le_of_mem
  | last group => exact List.forall_mem_singleton.mpr group.le_max
  | next group _ ih => exact List.forall_mem_cons.mpr ⟨group.le_max, ih⟩
  | empty _ => simp

theorem Scan.le_of_mem_after {left : Nat} {text : Text} {before values : List Nat}
    {after : Option (List Nat)} (scan : Scan left text before after)
    (after_eq : after = some values) : ∀ value ∈ values, value ≤ 65535 := by
  induction scan with
  | done => cases after_eq
  | quad _ _ _ => cases after_eq
  | last _ => cases after_eq
  | next _ _ ih => exact ih after_eq
  | empty tail =>
      cases after_eq
      exact tail.le_of_mem

theorem Accepts.le_of_mem {text : Text} {before : List Nat} {after : Option (List Nat)}
    (accepts : Accepts text before after) :
    (∀ value ∈ before, value ≤ 65535) ∧
      ∀ values, after = some values → ∀ value ∈ values, value ≤ 65535 := by
  rcases accepts with ⟨rest, values, rfl, rfl, rfl, tail⟩ | ⟨_, scan⟩
  · refine ⟨by simp, ?_⟩
    intro values' same
    cases same
    exact tail.le_of_mem
  · exact ⟨scan.le_of_mem, fun values same => scan.le_of_mem_after same⟩

theorem flatMap_groupBytes_zeros (count : Nat) :
    (List.replicate count 0).flatMap groupBytes = List.replicate (count * 2) (0 : UInt8) := by
  induction count with
  | zero => rfl
  | succ count ih =>
      rw [List.replicate_succ, List.flatMap_cons, ih, Nat.succ_mul]
      rfl

/-- Both copies fit into the address: it is the bytes of the two vectors with zeros
between them. -/
theorem assemble_eq {segments : Segments}
    (total : segments.startSegments.items.length + segments.endSegments.items.length ≤ 8) :
    (assemble segments).bytes =
      segments.startSegments.items.flatMap segmentBytes ++
        List.replicate (16 -
          (segments.startSegments.items.length + segments.endSegments.items.length) * 2) 0 ++
        segments.endSegments.items.flatMap segmentBytes := by
  have firstLength := length_flatMap_segmentBytes segments.startSegments.items
  have lastLength := length_flatMap_segmentBytes segments.endSegments.items
  unfold assemble
  dsimp only
  generalize segments.startSegments.items.flatMap segmentBytes = firstBytes at firstLength
  generalize segments.endSegments.items.flatMap segmentBytes = lastBytes at lastLength
  generalize segments.startSegments.items.length = before at firstLength total
  generalize segments.endSegments.items.length = after at lastLength total
  generalize gap_eq : 16 - (before + after) * 2 = gap
  have parts : 16 = firstBytes.length + gap + lastBytes.length := by omega
  have gapEnd : 0 + firstBytes.length + gap = 16 - after * 2 := by omega
  have lastStart : 0 + (firstBytes.length + gap) = 16 - after * 2 := by omega
  rw [parts, Memory.slice_add, Memory.slice_add, ← parts]
  congr 1
  · congr 1
    · rw [Memory.slice_store_of_disjoint _ (Or.inl (by omega)), Memory.slice_store_self]
    · rw [Memory.slice_store_of_disjoint _ (Or.inl gapEnd.le),
        Memory.slice_store_of_disjoint _ (Or.inr (Nat.le_refl _)), Memory.slice_const]
  · rw [lastStart, Memory.slice_store_self]

/-- The address is the first groups, zeros, and the last groups. -/
theorem assemble_bytes {segments : Segments} {before after : List Nat}
    (beforeBound : ∀ value ∈ before, value ≤ 65535) (afterBound : ∀ value ∈ after, value ≤ 65535)
    (start_eq : segments.startSegments.items = before.map swap)
    (end_eq : segments.endSegments.items = after.map swap)
    (total : before.length + after.length ≤ 8) :
    (assemble segments).bytes = (before ++
      List.replicate (8 - (before.length + after.length)) 0 ++ after).flatMap groupBytes := by
  have startLength : segments.startSegments.items.length = before.length := by
    rw [start_eq, List.length_map]
  have endLength : segments.endSegments.items.length = after.length := by
    rw [end_eq, List.length_map]
  rw [assemble_eq (by rwa [startLength, endLength]), startLength, endLength, start_eq, end_eq,
    flatMap_segmentBytes_swap beforeBound, flatMap_segmentBytes_swap afterBound,
    List.flatMap_append, List.flatMap_append, flatMap_groupBytes_zeros, Nat.sub_mul]

/-- How many groups a text is taken for. -/
theorem Tail.length_le {left : Nat} {text : Text} {values : List Nat}
    (tail : Tail left text values) : values.length ≤ left := by
  induction tail with
  | done left => exact Nat.zero_le left
  | quad two_le _ quad =>
      rw [length_quadGroups quad.length_eq]
      exact two_le
  | last _ => exact Nat.succ_le_succ (Nat.zero_le _)
  | next _ _ ih => exact Nat.succ_le_succ ih

theorem Scan.length_le {left : Nat} {text : Text} {before : List Nat}
    {after : Option (List Nat)} (scan : Scan left text before after) :
    before.length + (after.getD []).length ≤ left := by
  induction scan with
  | done => exact Nat.le_refl 0
  | quad two_le _ quad =>
      rw [length_quadGroups quad.length_eq]
      exact two_le
  | last _ => exact Nat.succ_le_succ (Nat.zero_le _)
  | next _ _ ih =>
      rw [List.length_cons, Nat.succ_add]
      exact Nat.succ_le_succ ih
  | empty tail =>
      rw [List.length_nil, Nat.zero_add]
      exact Nat.le_succ_of_le tail.length_le

theorem Accepts.length_le {text : Text} {before : List Nat} {after : Option (List Nat)}
    (accepts : Accepts text before after) : before.length + (after.getD []).length ≤ 8 := by
  rcases accepts with ⟨rest, values, rfl, rfl, rfl, tail⟩ | ⟨_, scan⟩
  · rw [List.length_nil, Nat.zero_add]
    exact Nat.le_succ_of_le tail.length_le
  · exact scan.length_le

/-- The address assembled from an accepted text has the bytes of its groups, with
zeros for the missing ones. -/
theorem assemble_of_accepts {text : Text} {before : List Nat} {after : Option (List Nat)}
    {final : Segments} (accepts : Accepts text before after)
    (reads : Reads .new final before after) :
    (assemble final).bytes = (before ++
      List.replicate (8 - (before.length + (after.getD []).length)) 0 ++
        after.getD []).flatMap groupBytes := by
  rcases accepts.le_of_mem with ⟨beforeBound, afterBound⟩
  have total := accepts.length_le
  cases after with
  | none =>
      apply assemble_bytes beforeBound (by simp)
      · simp [reads.start_items, Segments.new]
      · simp [reads.end_items, Segments.new]
      · exact total
  | some values =>
      rcases reads with ⟨middle, first, second⟩
      apply assemble_bytes beforeBound (afterBound values rfl)
      · simp [second.start_items, first.start_items, Segments.new]
      · simp [second.end_items, first.end_items, Segments.new]
      · exact total

/-! ## Soundness -/

theorem fromString_eq_ok_iff {build : Build} {s : Text} {address : Address 16} :
    fromString build s = .ok (.ok address) ↔
      ∃ final, parse build s = .ok (.ok (final, [])) ∧ assemble final = address := by
  constructor
  · intro accepted
    rcases bind_eq_ok_iff.mp accepted with ⟨result, parsed, accepted'⟩
    cases result with
    | error error => cases accepted'
    | ok pair =>
        rcases pair with ⟨final, rest⟩
        dsimp only at accepted'
        split at accepted'
        · rename_i isNil
          subst isNil
          cases accepted'
          exact ⟨final, parsed, rfl⟩
        · cases accepted'
  · rintro ⟨final, parsed, rfl⟩
    rw [fromString, parsed]
    rfl

/-- The text is a literal and the bytes are those it denotes. -/
def Denotes (s : Text) (bytes : Text) : Prop :=
  ∃ groups, Literal s groups ∧ bytes = groups.flatMap groupBytes

/-- What `from_string` accepts is a literal with the bytes it denotes, or a defect. -/
theorem denotes_or_defect {build : Build} {s : Text} {address : Address 16}
    (accepted : fromString build s = .ok (.ok address)) :
    Denotes s address.bytes ∨ Defect s := by
  rcases fromString_eq_ok_iff.mp accepted with ⟨final, parsed, rfl⟩
  rcases (parse_spec build s).2 final parsed with ⟨before, after, accepts, reads⟩
  rcases literal_or_defect_of_accepts accepts with literal | defect
  · left
    refine ⟨_, literal, ?_⟩
    rw [assemble_of_accepts accepts reads]
    cases after with
    | some values => rfl
    | none =>
        rcases accepts_of_literal literal with ⟨_, length_eq, _⟩ | ⟨_, _, _, _, _, _, _, accepts'⟩
        · have length_eq' : before.length = 8 := length_eq
          simp [denoted, length_eq']
        · cases (accepts.unique accepts').2
  · exact Or.inr defect

/-- Every defect is accepted, in either build. -/
theorem accepted_of_defect (build : Build) {s : Text} (defect : Defect s) :
    ∃ address, fromString build s = .ok (.ok address) := by
  rcases accepts_of_defect defect with ⟨before, after, accepts⟩
  rcases (parse_spec build s).1 before after accepts with ⟨final, parsed, _⟩
  exact ⟨assemble final, fromString_eq_ok_iff.mpr ⟨final, parsed, rfl⟩⟩

/-- For every text, `from_string` is sound exactly when the text is not one of
the defects: if it succeeds, the text is an IPv6 literal and the bytes are the
ones it denotes. -/
theorem fromString_sound_iff (build : Build) (s : Text) :
    (∀ address, fromString build s = .ok (.ok address) → Denotes s address.bytes) ↔
      ¬ Defect s := by
  constructor
  · intro sound defect
    rcases accepted_of_defect build defect with ⟨address, accepted⟩
    rcases sound address accepted with ⟨groups, literal, _⟩
    exact not_literal_of_defect defect groups literal
  · intro noDefect address accepted
    rcases denotes_or_defect accepted with denotes | defect
    · exact denotes
    · exact absurd defect noDefect

/-- `"1"` is accepted as the address `1::`, though it is no literal. -/
theorem fromString_single_group :
    fromString .debug (ascii "1") =
        .ok (.ok ⟨[0, 1, 0, 0, 0, 0, 0, 0, 0, 0, 0, 0, 0, 0, 0, 0], rfl⟩) ∧
      ∀ bytes, ¬ Denotes (ascii "1") bytes := by
  constructor
  · decide +kernel
  · rintro bytes ⟨groups, literal, _⟩
    have group : Group (ascii "1") 1 :=
      ⟨by decide, by decide +kernel, by decide +kernel, by decide⟩
    have few : [1].length < 8 := by decide
    exact not_literal_of_defect
      (.tooFewGroups (.group group) few (not_quad_of_group group)) groups literal

end SkAsync.Net.Inet6

import SkAsync.Net.Inet6.Core

/-!
# IPv6 literals

`Literal` says which texts are IPv6 literals and which eight groups they
denote, without reference to the parser.  `Defect` lists texts that are not
literals, in the kinds the parser lets through.

`Scan` and `Tail` describe the texts the loop of the parser accepts, one
constructor for each way through its body.  The rest of the file relates them to
the grammar.
-/

namespace SkAsync.Net.Inet6

open SkAsync.Library

/-- A hexadecimal group. -/
abbrev Group : Text → Nat → Prop :=
  Numeral 16 segmentMax

/-- Groups separated by single colons. -/
abbrev Groups : Text → List Nat → Prop :=
  Separated colon Group

/-- The two groups an embedded IPv4 address stands for. -/
def quadGroups : List Nat → List Nat
  | [a, b, c, d] => [a * 256 + b, c * 256 + d]
  | _ => []

/-- Groups separated by single colons, possibly with an IPv4 address for the last two. -/
inductive Sequence : Text → List Nat → Prop
  | group {text : Text} {value : Nat} : Group text value → Sequence text [value]
  | quad {text : Text} {octets : List Nat} :
      Inet.Quad text octets → Sequence text (quadGroups octets)
  | cons {text rest : Text} {value : Nat} {values : List Nat} :
      Group text value → Sequence rest values →
      Sequence (text ++ colon :: rest) (value :: values)

/-- Nothing, or groups. -/
def OptGroups (text : Text) (values : List Nat) : Prop :=
  (text = [] ∧ values = []) ∨ Groups text values

/-- Nothing, or a sequence. -/
def OptSequence (text : Text) (values : List Nat) : Prop :=
  (text = [] ∧ values = []) ∨ Sequence text values

/-- IPv6 literals with the groups they denote: eight groups, or fewer with one
`::` for the missing ones. -/
inductive Literal : Text → List Nat → Prop
  | full {text : Text} {groups : List Nat} :
      Sequence text groups → groups.length = 8 → Literal text groups
  | compressed {left right : Text} {before after : List Nat} :
      OptGroups left before → OptSequence right after → before.length + after.length ≤ 7 →
      Literal (left ++ colon :: colon :: right)
        (before ++ List.replicate (8 - (before.length + after.length)) 0 ++ after)

/-- The bytes of a group, in network order. -/
def groupBytes (group : Nat) : Text :=
  [UInt8.ofNat (group / 256), UInt8.ofNat (group % 256)]

/-- A sequence, or groups with a dangling colon. -/
def Ending (text : Text) (values : List Nat) : Prop :=
  OptSequence text values ∨ ∃ groups, text = groups ++ [colon] ∧ Groups groups values

/-- Texts that are no literals: a single colon in front, too few groups without
`::`, or a colon behind the last group. -/
inductive Defect : Text → Prop
  | leadingColon {rest : Text} {after : List Nat} :
      Ending rest after → after.length ≤ 7 → Defect (colon :: rest)
  | tooFewGroups {text : Text} {groups : List Nat} :
      Sequence text groups → groups.length < 8 → (∀ octets, ¬ Inet.Quad text octets) →
      Defect text
  | trailingColon {text : Text} {groups : List Nat} :
      Groups text groups → groups.length = 8 → Defect (text ++ [colon])
  | trailingColonAfterEmpty {left right : Text} {before after : List Nat} :
      OptGroups left before → Groups right after → before.length + after.length ≤ 7 →
      Defect (left ++ colon :: colon :: (right ++ [colon]))

/-! ## Bytes of the grammar -/

theorem not_isDigit_colon : ¬ IsDigit 16 colon := by
  decide

theorem not_isDigit_dot : ¬ IsDigit 16 Inet.dot := by
  decide

/-- A group starts with a digit. -/
theorem group_eq_cons {text : Text} {value : Nat} (group : Group text value) :
    ∃ c rest, text = c :: rest ∧ c ≠ colon := by
  cases text with
  | nil => exact absurd rfl group.nonempty
  | cons c rest =>
      refine ⟨c, rest, rfl, ?_⟩
      rintro rfl
      exact not_isDigit_colon (group.digits colon List.mem_cons_self)

theorem groups_eq_cons {text : Text} {values : List Nat} (groups : Groups text values) :
    ∃ c rest, text = c :: rest ∧ c ≠ colon := by
  cases groups with
  | last group => exact group_eq_cons group
  | cons group _ =>
      rcases group_eq_cons group with ⟨c, rest, rfl, notColon⟩
      exact ⟨c, _, rfl, notColon⟩

theorem quad_eq_cons {text : Text} {octets : List Nat} (quad : Inet.Quad text octets) :
    ∃ c rest, text = c :: rest ∧ c ≠ colon := by
  cases text with
  | nil => exact absurd quad.dot_mem List.not_mem_nil
  | cons c rest =>
      refine ⟨c, rest, rfl, ?_⟩
      rintro rfl
      exact absurd (quad.mem_imp colon List.mem_cons_self) (by decide)

theorem sequence_eq_cons {text : Text} {values : List Nat} (sequence : Sequence text values) :
    ∃ c rest, text = c :: rest ∧ c ≠ colon := by
  cases sequence with
  | group group => exact group_eq_cons group
  | quad quad => exact quad_eq_cons quad
  | cons group _ =>
      rcases group_eq_cons group with ⟨c, rest, rfl, notColon⟩
      exact ⟨c, _, rfl, notColon⟩

theorem ending_ne_colon_cons {text rest : Text} {values : List Nat} (ending : Ending text values) :
    text ≠ colon :: rest := by
  rintro rfl
  rcases ending with (⟨isNil, _⟩ | sequence) | ⟨groups, text_eq, isGroups⟩
  · cases isNil
  · rcases sequence_eq_cons sequence with ⟨c, tail, shape, notColon⟩
    exact notColon (List.cons.inj shape).1.symm
  · rcases groups_eq_cons isGroups with ⟨c, tail, rfl, notColon⟩
    exact notColon (List.cons.inj text_eq).1.symm

/-- A sequence does not end with a colon. -/
theorem sequence_ne_append_colon {text front : Text} {values : List Nat}
    (sequence : Sequence text values) : text ≠ front ++ [colon] := by
  induction sequence generalizing front with
  | group group =>
      rintro rfl
      exact not_isDigit_colon (group.digits colon (by simp))
  | quad quad =>
      rintro rfl
      exact absurd (quad.mem_imp colon (by simp)) (by decide)
  | cons group rest ih =>
      rename_i text tail value values
      intro text_eq
      rcases List.eq_nil_or_concat tail with isNil | ⟨front', last, tail_eq⟩
      · rcases sequence_eq_cons rest with ⟨c, tail', shape, _⟩
        rw [isNil] at shape
        cases shape
      · rw [tail_eq, List.concat_eq_append, ← List.cons_append, ← List.append_assoc] at text_eq
        have last_eq := (List.append_inj' text_eq rfl).2
        rw [tail_eq, List.concat_eq_append, (List.cons.inj last_eq).1] at ih
        exact ih rfl

/-- Nor does a text that ends with a sequence. -/
theorem append_sequence_ne_append_colon {text front front' : Text} {values : List Nat}
    (sequence : Sequence text values) : front ++ text ≠ front' ++ [colon] := by
  intro same
  rcases List.eq_nil_or_concat text with rfl | ⟨text', last, rfl⟩
  · rcases sequence_eq_cons sequence with ⟨c, rest, shape, _⟩
    cases shape
  · rw [List.concat_eq_append, ← List.append_assoc] at same
    have last_eq := (List.append_inj' same rfl).2
    rw [List.concat_eq_append, (List.cons.inj last_eq).1] at sequence
    exact sequence_ne_append_colon sequence rfl

theorem length_quadGroups {octets : List Nat} (length_eq : octets.length = 4) :
    (quadGroups octets).length = 2 := by
  match octets, length_eq with
  | [_, _, _, _], _ => rfl

/-! ## The texts the loop accepts -/

/-- What the loop accepts after an empty segment, with `left` iterations left. -/
inductive Tail : Nat → Text → List Nat → Prop
  | done (left : Nat) : Tail left [] []
  | quad {left : Nat} {text : Text} {octets : List Nat} : 2 ≤ left → left ≤ 7 →
      Inet.Quad text octets → Tail left text (quadGroups octets)
  | last {left : Nat} {text : Text} {value : Nat} : Group text value → Tail (left + 1) text [value]
  | next {left : Nat} {text rest : Text} {value : Nat} {values : List Nat} : Group text value →
      Tail left rest values → Tail (left + 1) (text ++ colon :: rest) (value :: values)

/-- What the loop accepts from its start, with the groups before the empty
segment and, if there is one, those after it. -/
inductive Scan : Nat → Text → List Nat → Option (List Nat) → Prop
  | done : Scan 0 [] [] none
  | quad {left : Nat} {text : Text} {octets : List Nat} : 2 ≤ left → left ≤ 7 →
      Inet.Quad text octets → Scan left text (quadGroups octets) none
  | last {left : Nat} {text : Text} {value : Nat} : Group text value →
      Scan (left + 1) text [value] none
  | next {left : Nat} {text rest : Text} {value : Nat} {values : List Nat}
      {after : Option (List Nat)} : Group text value → Scan left rest values after →
      Scan (left + 1) (text ++ colon :: rest) (value :: values) after
  | empty {left : Nat} {rest : Text} {after : List Nat} : Tail left rest after →
      Scan (left + 1) (colon :: rest) [] (some after)

/-- After an empty segment the loop accepts sequences, also with a dangling colon. -/
theorem tail_iff_ending {left : Nat} {text : Text} {values : List Nat} (bound : left ≤ 7) :
    Tail left text values ↔ Ending text values ∧ values.length ≤ left := by
  constructor
  · intro tail
    induction tail with
    | done left => exact ⟨Or.inl (Or.inl ⟨rfl, rfl⟩), Nat.zero_le left⟩
    | quad two_le _ quad =>
        rw [length_quadGroups quad.length_eq]
        exact ⟨Or.inl (Or.inr (.quad quad)), two_le⟩
    | last group => exact ⟨Or.inl (Or.inr (.group group)), Nat.succ_le_succ (Nat.zero_le _)⟩
    | next group _ ih =>
        rcases ih (Nat.le_of_succ_le bound) with ⟨ending, within⟩
        refine ⟨?_, Nat.succ_le_succ within⟩
        rcases ending with (⟨rfl, rfl⟩ | sequence) | ⟨groups, rfl, isGroups⟩
        · exact Or.inr ⟨_, rfl, .last group⟩
        · exact Or.inl (Or.inr (.cons group sequence))
        · exact Or.inr ⟨_, by simp, .cons group isGroups⟩
  · rintro ⟨(⟨rfl, rfl⟩ | sequence) | ⟨groups, rfl, isGroups⟩, within⟩
    · exact .done left
    · induction sequence generalizing left with
      | group group =>
          cases left with
          | zero => exact absurd within (Nat.not_succ_le_zero _)
          | succ left => exact .last group
      | quad quad =>
          rw [length_quadGroups quad.length_eq] at within
          exact .quad within bound quad
      | cons group _ ih =>
          cases left with
          | zero => exact absurd within (Nat.not_succ_le_zero _)
          | succ left =>
              exact .next group (ih (Nat.le_of_succ_le bound) (Nat.le_of_succ_le_succ within))
    · induction isGroups generalizing left with
      | last group =>
          cases left with
          | zero => exact absurd within (Nat.not_succ_le_zero _)
          | succ left => exact .next group (.done left)
      | cons group _ ih =>
          cases left with
          | zero => exact absurd within (Nat.not_succ_le_zero _)
          | succ left =>
              rw [List.append_assoc, List.cons_append]
              exact .next group (ih (Nat.le_of_succ_le bound) (Nat.le_of_succ_le_succ within))

/-- Without an empty segment the loop accepts sequences that are not too long,
and as many groups as it has iterations with a dangling colon. -/
theorem scan_none_iff {left : Nat} {text : Text} {values : List Nat} (bound : left ≤ 7) :
    Scan left text values none ↔
      (Sequence text values ∧ values.length ≤ left) ∨
      ((text = [] ∧ values = [] ∨
        ∃ groups, text = groups ++ [colon] ∧ Groups groups values) ∧ values.length = left) := by
  constructor
  · intro scan
    generalize after_eq : (none : Option (List Nat)) = after at scan
    induction scan with
    | done => exact Or.inr ⟨Or.inl ⟨rfl, rfl⟩, rfl⟩
    | quad two_le _ quad =>
        refine Or.inl ⟨.quad quad, ?_⟩
        rw [length_quadGroups quad.length_eq]
        exact two_le
    | last group => exact Or.inl ⟨.group group, Nat.succ_le_succ (Nat.zero_le _)⟩
    | next group _ ih =>
        rcases ih (Nat.le_of_succ_le bound) after_eq with ⟨sequence, within⟩ | ⟨dangling, exact_⟩
        · exact Or.inl ⟨.cons group sequence, Nat.succ_le_succ within⟩
        · refine Or.inr ⟨Or.inr ?_, congrArg Nat.succ exact_⟩
          rcases dangling with ⟨rfl, rfl⟩ | ⟨groups, rfl, isGroups⟩
          · exact ⟨_, rfl, .last group⟩
          · exact ⟨_, by simp, .cons group isGroups⟩
    | empty _ => cases after_eq
  · rintro (⟨sequence, within⟩ | ⟨⟨rfl, rfl⟩ | ⟨groups, rfl, isGroups⟩, exact_⟩)
    · induction sequence generalizing left with
      | group group =>
          cases left with
          | zero => exact absurd within (Nat.not_succ_le_zero _)
          | succ left => exact .last group
      | quad quad =>
          rw [length_quadGroups quad.length_eq] at within
          exact .quad within bound quad
      | cons group _ ih =>
          cases left with
          | zero => exact absurd within (Nat.not_succ_le_zero _)
          | succ left =>
              exact .next group (ih (Nat.le_of_succ_le bound) (Nat.le_of_succ_le_succ within))
    · subst exact_
      exact .done
    · subst exact_
      clear bound
      induction isGroups with
      | last group => exact .next group .done
      | cons group _ ih =>
          rw [List.append_assoc, List.cons_append]
          exact .next group ih

/-- With an empty segment the loop accepts groups, the empty segment, and what
may follow in the iterations left.  At the start of the text a single colon is
taken for the empty segment. -/
theorem scan_some_iff {left : Nat} {text : Text} {before after : List Nat} :
    Scan left text before (some after) ↔
      ∃ more rest, left = before.length + 1 + more ∧ Tail more rest after ∧
        ((before = [] ∧ text = colon :: rest) ∨
          ∃ groups, Groups groups before ∧ text = groups ++ colon :: colon :: rest) := by
  constructor
  · intro scan
    generalize after_eq : some after = result at scan
    induction scan with
    | done => cases after_eq
    | quad _ _ _ => cases after_eq
    | last _ => cases after_eq
    | next group _ ih =>
        rcases ih after_eq with ⟨more, rest, left_eq, tail, ⟨rfl, rfl⟩ | ⟨groups, isGroups, rfl⟩⟩
        · refine ⟨more, rest, ?_, tail, Or.inr ⟨_, .last group, rfl⟩⟩
          rw [left_eq, List.length_singleton, List.length_nil]
          omega
        · refine ⟨more, rest, ?_, tail, Or.inr ⟨_, .cons group isGroups, by simp⟩⟩
          rw [left_eq, List.length_cons]
          omega
    | empty tail =>
        cases after_eq
        exact ⟨_, _, by simp [Nat.add_comm], tail, Or.inl ⟨rfl, rfl⟩⟩
  · rintro ⟨more, rest, rfl, tail, ⟨rfl, rfl⟩ | ⟨groups, isGroups, rfl⟩⟩
    · rw [List.length_nil, Nat.zero_add, Nat.add_comm]
      exact .empty tail
    · induction isGroups with
      | last group =>
          rw [List.length_singleton, Nat.add_assoc, Nat.add_comm]
          rw [Nat.add_comm 1 more]
          exact .next group (.empty tail)
      | cons group _ ih =>
          rw [List.append_assoc, List.cons_append, List.length_cons, Nat.add_right_comm _ 1 1,
            Nat.add_right_comm _ 1 more]
          exact .next group ih

/-! ## Accepted texts, literals and defects -/

/-- What `from_string` accepts: a leading `::` is the empty segment, any other
text is read from its start. -/
def Accepts (text : Text) (before : List Nat) (after : Option (List Nat)) : Prop :=
  (∃ rest values, text = colon :: colon :: rest ∧ before = [] ∧ after = some values ∧
      Tail 7 rest values) ∨
    (∀ rest, text ≠ colon :: colon :: rest) ∧ Scan 8 text before after

/-- The groups an accepted text is taken for. -/
def denoted (before : List Nat) : Option (List Nat) → List Nat
  | none => before
  | some after =>
      before ++ List.replicate (8 - (before.length + after.length)) 0 ++ after

theorem not_quad_of_colon_mem {text : Text} (member : colon ∈ text) (octets : List Nat) :
    ¬ Inet.Quad text octets := by
  intro quad
  exact absurd (quad.mem_imp colon member) (by decide)

theorem not_quad_of_group {text : Text} {value : Nat} (group : Group text value)
    (octets : List Nat) : ¬ Inet.Quad text octets := by
  intro quad
  exact not_isDigit_dot (group.digits Inet.dot quad.dot_mem)

/-- An accepted text is a literal for the groups it is taken for, or a defect. -/
theorem literal_or_defect_of_accepts {text : Text} {before : List Nat}
    {after : Option (List Nat)} (accepts : Accepts text before after) :
    Literal text (denoted before after) ∨ Defect text := by
  rcases accepts with ⟨rest, values, rfl, rfl, rfl, tail⟩ | ⟨_, scan⟩
  · rcases (tail_iff_ending (Nat.le_refl 7)).mp tail with
      ⟨sequence | ⟨groups, rfl, isGroups⟩, within⟩
    · have total : ([] : List Nat).length + values.length ≤ 7 := by simpa using within
      exact Or.inl (.compressed (Or.inl ⟨rfl, rfl⟩) sequence total)
    · have total : ([] : List Nat).length + values.length ≤ 7 := by simpa using within
      exact Or.inr (.trailingColonAfterEmpty (Or.inl ⟨rfl, rfl⟩) isGroups total)
  · cases after with
    | none =>
        cases scan with
        | quad _ bound _ => exact absurd bound (by decide)
        | last group =>
            rename_i value
            have few : [value].length < 8 := Nat.one_lt_succ_succ 6
            exact Or.inr (.tooFewGroups (.group group) few (not_quad_of_group group))
        | next group scan =>
            rcases (scan_none_iff (Nat.le_refl 7)).mp scan with
              ⟨sequence, within⟩ | ⟨⟨rfl, rfl⟩ | ⟨groups, rfl, isGroups⟩, exact_⟩
            · rcases Nat.lt_or_eq_of_le within with few | all
              · right
                exact .tooFewGroups (.cons group sequence) (Nat.succ_lt_succ few)
                  (not_quad_of_colon_mem (by simp))
              · left
                exact .full (.cons group sequence) (congrArg Nat.succ all)
            · cases exact_
            · right
              rw [← List.cons_append, ← List.append_assoc]
              exact .trailingColon (.cons group isGroups) (congrArg Nat.succ exact_)
    | some values =>
        rcases scan_some_iff.mp scan with ⟨more, rest, left_eq, tail, shape⟩
        have bound : more ≤ 7 := by omega
        rcases (tail_iff_ending bound).mp tail with ⟨ending, within⟩
        rcases shape with ⟨rfl, rfl⟩ | ⟨groups, isGroups, rfl⟩
        · exact Or.inr (.leadingColon ending (Nat.le_trans within bound))
        · have total : before.length + values.length ≤ 7 := by omega
          rcases ending with sequence | ⟨groups', rfl, isGroups'⟩
          · exact Or.inl (.compressed (Or.inr isGroups) sequence total)
          · exact Or.inr (.trailingColonAfterEmpty (Or.inr isGroups) isGroups' total)

theorem ne_empty_cons_of_ne_colon {c : UInt8} {tail : Text} (notColon : c ≠ colon) (rest : Text) :
    c :: tail ≠ colon :: colon :: rest := by
  intro same
  exact notColon (List.cons.inj same).1

/-- Groups, the empty segment and an ending are accepted together. -/
theorem accepts_of_ending {left right : Text} {before after : List Nat}
    (groups : OptGroups left before) (ending : Ending right after)
    (total : before.length + after.length ≤ 7) :
    Accepts (left ++ colon :: colon :: right) before (some after) := by
  rcases groups with ⟨rfl, rfl⟩ | isGroups
  · left
    have within : after.length ≤ 7 := by simpa using total
    exact ⟨right, after, rfl, rfl, rfl, (tail_iff_ending (Nat.le_refl 7)).mpr ⟨ending, within⟩⟩
  · right
    constructor
    · rcases groups_eq_cons isGroups with ⟨c, tail, rfl, notColon⟩
      exact ne_empty_cons_of_ne_colon notColon
    · have more : Tail (7 - before.length) right after :=
        (tail_iff_ending (Nat.sub_le 7 _)).mpr ⟨ending, by omega⟩
      exact scan_some_iff.mpr ⟨7 - before.length, right, by omega, more,
        Or.inr ⟨left, isGroups, rfl⟩⟩

/-- Sequences that are no dotted quad are accepted, if they are not too long. -/
theorem accepts_of_sequence {text : Text} {values : List Nat} (sequence : Sequence text values)
    (within : values.length ≤ 8) (notQuad : ∀ octets, ¬ Inet.Quad text octets) :
    Accepts text values none := by
  right
  constructor
  · rcases sequence_eq_cons sequence with ⟨c, tail, rfl, notColon⟩
    exact ne_empty_cons_of_ne_colon notColon
  · cases sequence with
    | group group => exact .last group
    | quad quad => exact absurd quad (notQuad _)
    | cons group rest =>
        exact .next group ((scan_none_iff (Nat.le_refl 7)).mpr
          (Or.inl ⟨rest, Nat.le_of_succ_le_succ within⟩))

/-- Eight groups are accepted. -/
theorem accepts_of_full {text : Text} {groups : List Nat} (sequence : Sequence text groups)
    (length_eq : groups.length = 8) : Accepts text groups none := by
  apply accepts_of_sequence sequence length_eq.le
  intro octets quad
  cases sequence with
  | group _ => cases length_eq
  | quad quad' =>
      rw [length_quadGroups quad'.length_eq] at length_eq
      cases length_eq
  | cons _ _ => exact not_quad_of_colon_mem (by simp) octets quad

/-- Every literal is accepted for the groups it denotes. -/
theorem accepts_of_literal {text : Text} {groups : List Nat} (literal : Literal text groups) :
    (Sequence text groups ∧ groups.length = 8 ∧ Accepts text groups none) ∨
      ∃ left right before after, text = left ++ colon :: colon :: right ∧
        OptGroups left before ∧ OptSequence right after ∧ Accepts text before (some after) := by
  cases literal with
  | full sequence length_eq =>
      exact Or.inl ⟨sequence, length_eq, accepts_of_full sequence length_eq⟩
  | compressed groups sequence total =>
      right
      exact ⟨_, _, _, _, rfl, groups, sequence, accepts_of_ending groups (Or.inl sequence) total⟩

/-- Eight groups are accepted with a colon behind them. -/
theorem accepts_of_trailingColon {text : Text} {groups : List Nat} (isGroups : Groups text groups)
    (length_eq : groups.length = 8) : Accepts (text ++ [colon]) groups none := by
  cases isGroups with
  | last _ => cases length_eq
  | cons group isGroups =>
      right
      constructor
      · rcases group_eq_cons group with ⟨c, tail, rfl, notColon⟩
        exact ne_empty_cons_of_ne_colon notColon
      · rw [List.append_assoc, List.cons_append]
        exact .next group ((scan_none_iff (Nat.le_refl 7)).mpr
          (Or.inr ⟨Or.inr ⟨_, rfl, isGroups⟩, Nat.succ.inj length_eq⟩))

/-- A single colon in front of an ending is accepted as the empty segment. -/
theorem accepts_of_leadingColon {rest : Text} {after : List Nat} (ending : Ending rest after)
    (within : after.length ≤ 7) : Accepts (colon :: rest) [] (some after) := by
  right
  constructor
  · intro rest' same
    exact ending_ne_colon_cons ending (List.cons.inj same).2
  · exact .empty ((tail_iff_ending (Nat.le_refl 7)).mpr ⟨ending, within⟩)

/-- Every defect is accepted. -/
theorem accepts_of_defect {text : Text} (defect : Defect text) :
    ∃ before after, Accepts text before after := by
  cases defect with
  | leadingColon ending within => exact ⟨_, _, accepts_of_leadingColon ending within⟩
  | tooFewGroups sequence few notQuad =>
      exact ⟨_, _, accepts_of_sequence sequence few.le notQuad⟩
  | trailingColon groups length_eq => exact ⟨_, _, accepts_of_trailingColon groups length_eq⟩
  | trailingColonAfterEmpty groups groups' total =>
      exact ⟨_, _, accepts_of_ending groups (Or.inr ⟨_, rfl, groups'⟩) total⟩

end SkAsync.Net.Inet6

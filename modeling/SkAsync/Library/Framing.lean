import SkAsync.Library.Execution
import SkAsync.Library.Heap

/-!
# Cells beside those of a program

A program that comes to its cells through pointers does not see what else is on the
heap: it runs in the same way when other cells lie beside its own, and leaves them as
they are.  `Repeats` compares two computations and `Beside` two heaps; a program is
compared with itself step by step, and what is known of its run on a heap of its own
(`Heap.restrict`) then holds on every heap.

`Exchanged` is the outcome as seen from outside: the cells at some addresses have become
the cells at others.
-/

namespace SkAsync.Library

universe u v w x

/-! ## Computations -/

section Computations

variable {ε : Type u} {α β : Type v} {α' β' : Type w}

/-- What the first computation returns, the second returns as well, up to a relation. -/
def Repeats (related : α → α' → Prop) (first : Except ε α) (second : Except ε α') : Prop :=
  ∀ value, first = .ok value → ∃ value', second = .ok value' ∧ related value value'

theorem repeats_ok {related : α → α' → Prop} {value : α} {value' : α'}
    (same : related value value') :
    Repeats related (.ok value : Except ε α) (.ok value') := by
  rintro _ ⟨⟩
  exact ⟨value', rfl, same⟩

theorem repeats_error (related : α → α' → Prop) (fault : ε) (second : Except ε α') :
    Repeats related (.error fault) second := by
  rintro _ ⟨⟩

theorem repeats_self (first : Except ε α) : Repeats (· = ·) first first :=
  fun value returned => ⟨value, returned, rfl⟩

theorem Repeats.bind {related : α → α' → Prop} {related' : β → β' → Prop} {first : Except ε α}
    {second : Except ε α'} {next : α → Except ε β} {next' : α' → Except ε β'}
    (follows : Repeats related first second)
    (goesOn : ∀ value value', related value value' →
      Repeats related' (next value) (next' value')) :
    Repeats related' (first >>= next) (second >>= next') := by
  intro result returned
  rcases bind_eq_ok_iff.mp returned with ⟨value, first_eq, next_eq⟩
  rcases follows value first_eq with ⟨value', second_eq, same⟩
  rcases goesOn value value' same result next_eq with ⟨result', next_eq', same'⟩
  exact ⟨result', bind_eq_ok_iff.mpr ⟨value', second_eq, next_eq'⟩, same'⟩

theorem repeats_ite {related : α → α' → Prop} {condition : Prop} [Decidable condition]
    {first first' : Except ε α} {second second' : Except ε α'}
    (isTrue : condition → Repeats related first second)
    (isFalse : ¬ condition → Repeats related first' second') :
    Repeats related (if condition then first else first')
      (if condition then second else second') := by
  by_cases holds : condition
  · rw [if_pos holds, if_pos holds]
    exact isTrue holds
  · rw [if_neg holds, if_neg holds]
    exact isFalse holds

end Computations

section Results

variable {ε : Type u} {α β : Type v}

/-- What a computation returns, if it does, has a property. -/
structure Returns (property : α → Prop) (first : Except ε α) : Prop where
  holds : ∀ value, first = .ok value → property value

theorem returns_ok {property : α → Prop} {value : α} (holds : property value) :
    Returns property (.ok value : Except ε α) := by
  constructor
  rintro _ ⟨⟩
  exact holds

theorem returns_error (property : α → Prop) (fault : ε) :
    Returns property (.error fault : Except ε α) := by
  constructor
  rintro _ ⟨⟩

theorem Returns.imp {property property' : α → Prop} {first : Except ε α}
    (returns : Returns property first) (implies : ∀ value, property value → property' value) :
    Returns property' first :=
  ⟨fun value returned => implies value (returns.holds value returned)⟩

theorem Returns.bind {property : α → Prop} {property' : β → Prop} {first : Except ε α}
    {next : α → Except ε β} (returns : Returns property first)
    (goesOn : ∀ value, property value → Returns property' (next value)) :
    Returns property' (first >>= next) := by
  constructor
  intro result returned
  rcases bind_eq_ok_iff.mp returned with ⟨value, first_eq, next_eq⟩
  exact (goesOn value (returns.holds value first_eq)).holds result next_eq

/-- Nothing is asked of what was returned first. -/
theorem returns_bind {property : β → Prop} (first : Except ε α) {next : α → Except ε β}
    (goesOn : ∀ value, first = .ok value → Returns property (next value)) :
    Returns property (first >>= next) := by
  constructor
  intro result returned
  rcases bind_eq_ok_iff.mp returned with ⟨value, first_eq, next_eq⟩
  exact (goesOn value first_eq).holds result next_eq

theorem returns_ite {property : α → Prop} {condition : Prop} [Decidable condition]
    {first second : Except ε α} (isTrue : condition → Returns property first)
    (isFalse : ¬ condition → Returns property second) :
    Returns property (if condition then first else second) := by
  by_cases holds : condition
  · rw [if_pos holds]
    exact isTrue holds
  · rw [if_neg holds]
    exact isFalse holds

end Results

/-! ## Heaps -/

section Heaps

variable {α : Type u}

/-- The second heap has the cells of the first and, at other addresses, those of `others`. -/
structure Beside (others : Address → Option α) (small big : Heap α) : Prop where
  size_eq : big.size = small.size
  read_eq : ∀ address, big.read address = (small.read address).or (others address)
  apart : ∀ address, others address ≠ none → small.read address = none
  allocated : ∀ address, others address ≠ none → address < small.size

namespace Beside

variable {others : Address → Option α} {small big : Heap α} {address : Address} {cell : α}

/-- A cell of the first heap is read in the second. -/
theorem read (beside : Beside others small big) (live : small.read address = some cell) :
    big.read address = some cell := by
  simp [beside.read_eq, live]

/-- Another cell is read in the second heap. -/
theorem read_other (beside : Beside others small big) (other : others address ≠ none) :
    big.read address = others address := by
  simp [beside.read_eq, beside.apart address other]

theorem others_eq_none (beside : Beside others small big)
    (live : small.read address = some cell) : others address = none := by
  by_contra other
  rw [beside.apart address other] at live
  cases live

theorem write (beside : Beside others small big) {before : α}
    (live : small.read address = some before) (cell : α) :
    Beside others (small.write address cell) (big.write address cell) := by
  have inSmall := Heap.lt_size_of_read live
  have inBig := Heap.lt_size_of_read (beside.read live)
  constructor
  · simp [beside.size_eq]
  · intro other
    rw [Heap.read_write inBig, Heap.read_write inSmall, beside.read_eq]
    split <;> rfl
  · intro other present
    rw [Heap.read_write inSmall, if_neg, beside.apart other present]
    rintro rfl
    exact present (beside.others_eq_none live)
  · simpa using beside.allocated

theorem release (beside : Beside others small big) (live : small.read address = some cell) :
    Beside others (small.release address) (big.release address) := by
  constructor
  · simp [beside.size_eq]
  · intro other
    rw [Heap.read_release, Heap.read_release, beside.read_eq]
    by_cases same : other = address
    · subst same
      simp [beside.others_eq_none live]
    · simp [same]
  · intro other present
    rw [Heap.read_release, beside.apart other present]
    split <;> rfl
  · simpa using beside.allocated

theorem allocate (beside : Beside others small big) (cell : α) :
    Beside others (small.allocate cell) (big.allocate cell) := by
  constructor
  · simp [beside.size_eq]
  · intro other
    rw [Heap.read_allocate, Heap.read_allocate, beside.read_eq, beside.size_eq]
    split <;> rfl
  · intro other present
    rw [Heap.read_allocate, if_neg (beside.allocated other present).ne,
      beside.apart other present]
  · intro other present
    rw [Heap.size_allocate]
    exact (beside.allocated other present).trans (Nat.lt_succ_self _)

end Beside

/-- The heap without the cells at other addresses; its size stays. -/
def Heap.restrict (heap : Heap α) (addresses : List Address) : Heap α :=
  ⟨heap.cells.mapIdx fun address cell => if address ∈ addresses then cell else none⟩

theorem Heap.size_restrict (heap : Heap α) (addresses : List Address) :
    (heap.restrict addresses).size = heap.size := by
  simp [restrict, size]

theorem Heap.read_restrict (heap : Heap α) (addresses : List Address) (address : Address) :
    (heap.restrict addresses).read address =
      if address ∈ addresses then heap.read address else none := by
  unfold restrict read
  rw [List.getElem?_mapIdx]
  cases heap.cells[address]? with
  | none => simp
  | some cell =>
      by_cases inside : address ∈ addresses
      · simp [inside]
      · simp [inside]

/-- The cells that a restriction takes away lie beside the others. -/
theorem beside_restrict (heap : Heap α) (addresses : List Address) :
    Beside (fun address => if address ∈ addresses then none else heap.read address)
      (heap.restrict addresses) heap := by
  constructor
  · exact (heap.size_restrict addresses).symm
  · intro address
    rw [heap.read_restrict]
    by_cases inside : address ∈ addresses
    · simp [inside]
    · simp [inside]
  · intro address present
    rw [heap.read_restrict]
    by_cases inside : address ∈ addresses
    · simp [inside] at present
    · rw [if_neg inside]
  · intro address present
    rw [heap.size_restrict]
    by_cases inside : address ∈ addresses
    · simp [inside] at present
    · rw [if_neg inside] at present
      rcases Option.ne_none_iff_exists'.mp present with ⟨cell, live⟩
      exact Heap.lt_size_of_read live

/-- At most so many cells were made, and no cell has come to life otherwise. -/
structure GrownBy (count : Nat) (heap heap' : Heap α) : Prop where
  le_size : heap.size ≤ heap'.size
  size_le : heap'.size ≤ heap.size + count
  live : ∀ address, heap'.read address ≠ none →
    heap.read address ≠ none ∨ heap.size ≤ address

namespace GrownBy

variable {heap heap' heap'' : Heap α} {count more : Nat}

theorem refl (heap : Heap α) : GrownBy 0 heap heap :=
  ⟨Nat.le_refl _, Nat.le_refl _, fun _ live => .inl live⟩

theorem trans (first : GrownBy count heap heap') (second : GrownBy more heap' heap'') :
    GrownBy (count + more) heap heap'' := by
  constructor
  · exact first.le_size.trans second.le_size
  · have bound := second.size_le.trans (Nat.add_le_add_right first.size_le more)
    rwa [Nat.add_assoc] at bound
  · intro address live
    rcases second.live address live with live' | new
    · exact first.live address live'
    · exact .inr (first.le_size.trans new)

theorem mono (grown : GrownBy count heap heap') (le : count ≤ more) : GrownBy more heap heap' :=
  ⟨grown.le_size, grown.size_le.trans (Nat.add_le_add_left le _), grown.live⟩

theorem write {address : Address} {before : α} (live : heap.read address = some before)
    (cell : α) : GrownBy 0 heap (heap.write address cell) := by
  constructor
  · simp
  · simp
  · intro other present
    rw [Heap.read_write (Heap.lt_size_of_read live)] at present
    by_cases same : other = address
    · subst same
      simp [live]
    · rw [if_neg same] at present
      exact .inl present

theorem release (heap : Heap α) (address : Address) : GrownBy 0 heap (heap.release address) := by
  constructor
  · simp
  · simp
  · intro other present
    rw [Heap.read_release] at present
    by_cases same : other = address
    · simp [same] at present
    · rw [if_neg same] at present
      exact .inl present

theorem allocate (heap : Heap α) (cell : α) : GrownBy 1 heap (heap.allocate cell) := by
  constructor
  · simp
  · simp
  · intro other present
    rw [Heap.read_allocate] at present
    by_cases new : other = heap.size
    · exact .inr new.ge
    · rw [if_neg new] at present
      exact .inl present

/-- Where only the cells of a list were there, the cells are those and the new ones. -/
theorem mem_or (grown : GrownBy count heap heap') {addresses : List Address}
    (only : ∀ address, heap.read address ≠ none → address ∈ addresses) {address : Address}
    (live : heap'.read address ≠ none) :
    address ∈ addresses ∨ heap.size ≤ address ∧ address < heap.size + count := by
  rcases grown.live address live with live' | new
  · exact .inl (only address live')
  · rcases Option.ne_none_iff_exists'.mp live with ⟨cell, found⟩
    exact .inr ⟨new, (Heap.lt_size_of_read found).trans_le grown.size_le⟩

end GrownBy

/-! ## What is seen from outside -/

/-- The cells at some addresses have become the cells at others; no other cell has changed,
none of the new ones was in use, and there are no further ones. -/
structure Exchanged (heap heap' : Heap α) (before after : List Address) : Prop where
  kept : ∀ address, address ∉ before → heap.read address ≠ none →
    heap'.read address = heap.read address
  fresh : ∀ address ∈ after, address ∈ before ∨ heap.read address = none
  present : ∀ address ∈ after, heap'.read address ≠ none
  only : ∀ address, heap'.read address ≠ none →
    address ∈ after ∨ address ∉ before ∧ heap.read address ≠ none

theorem Exchanged.refl {heap : Heap α} {addresses : List Address}
    (live : ∀ address ∈ addresses, heap.read address ≠ none) :
    Exchanged heap heap addresses addresses := by
  constructor
  · exact fun _ _ _ => rfl
  · exact fun _ inside => .inl inside
  · exact live
  · exact fun address found => or_iff_not_imp_left.mpr fun outside => ⟨outside, found⟩

theorem Exchanged.trans {heap heap' heap'' : Heap α} {before between after : List Address}
    (first : Exchanged heap heap' before between)
    (second : Exchanged heap' heap'' between after) : Exchanged heap heap'' before after := by
  -- a cell of the first heap that is not given up is not among those between
  have outside : ∀ address, address ∉ before → heap.read address ≠ none →
      address ∉ between := by
    intro address notBefore live inside
    rcases first.fresh address inside with isBefore | free
    · exact notBefore isBefore
    · exact live free
  constructor
  · intro address notBefore live
    have same := first.kept address notBefore live
    rw [second.kept address (outside address notBefore live) (same ▸ live), same]
  · intro address inside
    rcases second.fresh address inside with isBetween | free
    · exact first.fresh address isBetween
    · by_cases isBefore : address ∈ before
      · exact .inl isBefore
      · right
        by_contra live
        rw [first.kept address isBefore live] at free
        exact live free
  · exact second.present
  · intro address live
    rcases second.only address live with inside | ⟨notBetween, live'⟩
    · exact .inl inside
    · rcases first.only address live' with inside | rest
      · exact absurd inside notBetween
      · exact .inr rest

/-- A program that runs on its own cells, and has all cells that are there at the end,
exchanges its cells on the whole heap. -/
theorem Exchanged.of_beside {heap heap' small' : Heap α} {before after : List Address}
    (beside : Beside (fun address => if address ∈ before then none else heap.read address)
      small' heap')
    (live_iff : ∀ address, small'.read address ≠ none ↔ address ∈ after) :
    Exchanged heap heap' before after := by
  have inside_iff : ∀ address, address ∉ before → heap.read address ≠ none →
      heap'.read address = heap.read address := by
    intro address notBefore live
    have isOther : (if address ∈ before then none else heap.read address) ≠ none := by
      simpa [notBefore] using live
    rw [beside.read_other isOther, if_neg notBefore]
  constructor
  · exact inside_iff
  · intro address inside
    by_contra neither
    rw [not_or] at neither
    have free := beside.apart address (by simpa [neither.1] using neither.2)
    exact (live_iff address).mpr inside free
  · intro address inside
    rcases Option.ne_none_iff_exists'.mp ((live_iff address).mpr inside) with ⟨cell, live⟩
    simp [beside.read live]
  · intro address live
    by_cases inside : address ∈ after
    · exact .inl inside
    · right
      have free : small'.read address = none := by
        by_contra present
        exact inside ((live_iff address).mp present)
      rw [beside.read_eq, free] at live
      by_cases isBefore : address ∈ before
      · simp [isBefore] at live
      · exact ⟨isBefore, by simpa [isBefore] using live⟩

/-- A program that keeps its own cells and makes others adds cells to the whole heap. -/
theorem Exchanged.of_beside_kept {heap heap' small' : Heap α} {own after : List Address}
    (beside : Beside (fun address => if address ∈ own then none else heap.read address)
      small' heap')
    (kept : ∀ address cell, (heap.restrict own).read address = some cell →
      small'.read address = some cell)
    (fresh : ∀ address ∈ after, (heap.restrict own).read address = none)
    (present : ∀ address ∈ after, small'.read address ≠ none)
    (live : ∀ address ∈ own, heap.read address ≠ none)
    (only : ∀ address, small'.read address ≠ none → address ∈ own ∨ address ∈ after) :
    Exchanged heap heap' [] after := by
  constructor
  · intro address _ found
    rcases Option.ne_none_iff_exists'.mp found with ⟨cell, found'⟩
    rw [found']
    by_cases inside : address ∈ own
    · apply beside.read
      apply kept
      rw [heap.read_restrict, if_pos inside, found']
    · rw [beside.read_other (by simpa [inside] using found)]
      simp [inside, found']
  · intro address member
    right
    rcases Option.ne_none_iff_exists'.mp (present address member) with ⟨cell, found⟩
    have notOther := beside.others_eq_none found
    have notSmall := fresh address member
    rw [heap.read_restrict] at notSmall
    by_cases inside : address ∈ own
    · simpa [inside] using notSmall
    · simpa [inside] using notOther
  · intro address member
    rcases Option.ne_none_iff_exists'.mp (present address member) with ⟨cell, found⟩
    simp [beside.read found]
  · intro address found
    rw [beside.read_eq] at found
    cases found' : small'.read address with
    | some cell =>
        rcases only address (by simp [found']) with inside | new
        · exact .inr ⟨List.not_mem_nil, live address inside⟩
        · exact .inl new
    | none =>
        rw [found'] at found
        right
        by_cases inside : address ∈ own
        · simp [inside] at found
        · exact ⟨List.not_mem_nil, by simpa [inside] using found⟩

end Heaps

end SkAsync.Library

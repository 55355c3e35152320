import SkAsync.Library.Framing

/-!
# Objects that share a heap

Each object holds the cells at some addresses.  No cell is held by two objects, and the
cells that no object holds any more are lost: they stay on the heap for ever.
-/

namespace SkAsync.Library

universe u v

variable {α : Type u} {N : Type v}

/-- What the objects hold, and what is lost, is all that is on the heap. -/
structure Tenancy (heap : Heap α) (held : N → List Address) (lost : List Address) : Prop where
  apart : ∀ {first second address}, address ∈ held first → address ∈ held second →
    first = second
  notLost : ∀ {self address}, address ∈ held self → address ∉ lost
  live_iff : ∀ {address}, heap.read address ≠ none ↔
    (∃ self, address ∈ held self) ∨ address ∈ lost

namespace Tenancy

variable {heap heap' : Heap α} {held : N → List Address} {lost : List Address}

theorem initial : Tenancy (Heap.empty : Heap α) (fun _ : N => []) [] := by
  constructor
  · rintro _ _ _ ⟨⟩
  · rintro _ _ ⟨⟩
  · simp [Heap.empty, Heap.read]

theorem live (tenancy : Tenancy heap held lost) {self : N} {address : Address}
    (inside : address ∈ held self) : heap.read address ≠ none :=
  tenancy.live_iff.mpr (.inl ⟨self, inside⟩)

/-- Where no object holds a cell, the heap is empty exactly when nothing is lost. -/
theorem empty_iff (tenancy : Tenancy heap held lost) (nothing : ∀ self, held self = []) :
    (∀ address, heap.read address = none) ↔ lost = [] := by
  constructor
  · intro empty
    apply List.eq_nil_iff_forall_not_mem.mpr
    exact fun address member => tenancy.live_iff.mpr (.inr member) (empty address)
  · rintro rfl address
    by_contra present
    rcases tenancy.live_iff.mp present with ⟨self, inside⟩ | member
    · simp [nothing self] at inside
    · cases member

/-- Another object's cells are not touched when an object exchanges its cells. -/
theorem others (tenancy : Tenancy heap held lost) {self other : N} {after : List Address}
    (exchanged : Exchanged heap heap' (held self) after) (different : other ≠ self)
    {address : Address} (inside : address ∈ held other) :
    heap'.read address = heap.read address :=
  exchanged.kept address (fun own => different (tenancy.apart inside own)) (tenancy.live inside)

variable [DecidableEq N]

/-- An object exchanges its cells. -/
theorem exchange (tenancy : Tenancy heap held lost) {self : N} {after : List Address}
    (exchanged : Exchanged heap heap' (held self) after) :
    Tenancy heap' (Function.update held self after) lost := by
  have own : ∀ {address}, address ∈ after → ∀ {other}, address ∈ held other → other = self := by
    intro address inside other member
    rcases exchanged.fresh address inside with before | free
    · exact tenancy.apart member before
    · exact absurd free (tenancy.live member)
  have cases : ∀ {other address}, address ∈ Function.update held self after other →
      other = self ∧ address ∈ after ∨ other ≠ self ∧ address ∈ held other := by
    intro other address member
    by_cases same : other = self
    · subst same
      rw [Function.update_self] at member
      exact .inl ⟨rfl, member⟩
    · rw [Function.update_of_ne same] at member
      exact .inr ⟨same, member⟩
  constructor
  · intro first second address member member'
    rcases cases member with ⟨rfl, inside⟩ | ⟨different, inside⟩
    · rcases cases member' with ⟨rfl, _⟩ | ⟨different', inside'⟩
      · rfl
      · exact absurd (own inside inside') different'
    · rcases cases member' with ⟨rfl, inside'⟩ | ⟨_, inside'⟩
      · exact absurd (own inside' inside) different
      · exact tenancy.apart inside inside'
  · intro other address member isLost
    rcases cases member with ⟨rfl, inside⟩ | ⟨_, inside⟩
    · rcases exchanged.fresh address inside with before | free
      · exact tenancy.notLost before isLost
      · exact absurd free (tenancy.live_iff.mpr (.inr isLost))
    · exact tenancy.notLost inside isLost
  · intro address
    constructor
    · intro present
      rcases exchanged.only address present with inside | ⟨outside, before⟩
      · exact .inl ⟨self, by rwa [Function.update_self]⟩
      · rcases tenancy.live_iff.mp before with ⟨other, inside⟩ | isLost
        · refine .inl ⟨other, ?_⟩
          rw [Function.update_of_ne]
          · exact inside
          · rintro rfl
            exact outside inside
        · exact .inr isLost
    · rintro (⟨other, member⟩ | isLost)
      · rcases cases member with ⟨rfl, inside⟩ | ⟨different, inside⟩
        · exact exchanged.present address inside
        · rw [tenancy.others exchanged different inside]
          exact tenancy.live inside
      · have outside : address ∉ held self := fun inside => tenancy.notLost inside isLost
        have before := tenancy.live_iff.mpr (.inr isLost)
        rwa [exchanged.kept address outside before]

/-- An object takes over the cells of another; its own are lost. -/
theorem takeOver (tenancy : Tenancy heap held lost) {self other : N} (different : self ≠ other) :
    Tenancy heap (Function.update (Function.update held self (held other)) other [])
      (held self ++ lost) := by
  have cases : ∀ {third address},
      address ∈ Function.update (Function.update held self (held other)) other [] third ↔
        third = self ∧ address ∈ held other ∨
          third ≠ self ∧ third ≠ other ∧ address ∈ held third := by
    intro third address
    by_cases isOther : third = other
    · subst isOther
      simp [different.symm]
    · rw [Function.update_of_ne isOther]
      by_cases isSelf : third = self
      · subst isSelf
        simp
      · simp [isSelf, isOther]
  constructor
  · intro first second address member member'
    rcases cases.mp member with ⟨rfl, inside⟩ | ⟨_, notOther, inside⟩
    · rcases cases.mp member' with ⟨rfl, _⟩ | ⟨_, notOther', inside'⟩
      · rfl
      · exact absurd (tenancy.apart inside' inside) notOther'
    · rcases cases.mp member' with ⟨rfl, inside'⟩ | ⟨_, _, inside'⟩
      · exact absurd (tenancy.apart inside inside') notOther
      · exact tenancy.apart inside inside'
  · intro third address member isLost
    rw [List.mem_append] at isLost
    rcases cases.mp member with ⟨rfl, inside⟩ | ⟨notSelf, _, inside⟩
    · rcases isLost with own | isLost
      · exact different (tenancy.apart own inside)
      · exact tenancy.notLost inside isLost
    · rcases isLost with own | isLost
      · exact notSelf (tenancy.apart inside own)
      · exact tenancy.notLost inside isLost
  · intro address
    rw [tenancy.live_iff, List.mem_append]
    constructor
    · rintro (⟨third, inside⟩ | isLost)
      · by_cases isSelf : third = self
        · exact .inr (.inl (isSelf ▸ inside))
        · by_cases isOther : third = other
          · exact .inl ⟨self, cases.mpr (.inl ⟨rfl, isOther ▸ inside⟩)⟩
          · exact .inl ⟨third, cases.mpr (.inr ⟨isSelf, isOther, inside⟩)⟩
      · exact .inr (.inr isLost)
    · rintro (⟨third, member⟩ | own | isLost)
      · rcases cases.mp member with ⟨_, inside⟩ | ⟨_, _, inside⟩
        · exact .inl ⟨other, inside⟩
        · exact .inl ⟨third, inside⟩
      · exact .inl ⟨self, own⟩
      · exact .inr isLost

end Tenancy

end SkAsync.Library

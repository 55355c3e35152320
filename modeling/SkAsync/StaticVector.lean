import SkAsync.Check

/-!
# `static_vector`

A container of at most `capacity` items in place.  The bound is part of the
type, so a vector that holds too many items cannot be built; `pushBack` on a
full vector is a fault, by the check in a debug build and by writing past the
storage in a release build.
-/

namespace SkAsync

/-- `static_vector<T, capacity>`. -/
structure StaticVector (α : Type) (capacity : Nat) where
  items : List α
  size_le : items.length ≤ capacity
  deriving Repr

namespace StaticVector

variable {α : Type} {capacity : Nat}

/-- A default constructed vector. -/
def empty : StaticVector α capacity :=
  ⟨[], Nat.zero_le _⟩

/-- `static_vector::push_back`. -/
def pushBack (build : Build) (vector : StaticVector α capacity) (item : α) :
    Except Fault (StaticVector α capacity) :=
  if room : vector.items.length < capacity then
    .ok ⟨vector.items ++ [item], by simpa using Nat.succ_le_of_lt room⟩
  else
    match build with
    | .debug => .error (.checkFailed "static_range: no capacity")
    | .release => .error .outOfBounds

@[simp]
theorem items_empty : (empty : StaticVector α capacity).items = [] :=
  rfl

/-- Pushing below the capacity appends the item. -/
theorem pushBack_of_lt {vector : StaticVector α capacity} (build : Build) (item : α)
    (room : vector.items.length < capacity) :
    ∃ next, pushBack build vector item = .ok next ∧ next.items = vector.items ++ [item] :=
  ⟨_, dif_pos room, rfl⟩

/-- What a successful push leaves. -/
theorem items_of_pushBack {build : Build} {vector next : StaticVector α capacity} {item : α}
    (pushed : pushBack build vector item = .ok next) : next.items = vector.items ++ [item] := by
  unfold pushBack at pushed
  split at pushed
  · cases pushed
    rfl
  · cases build with
    | debug => cases pushed
    | release => cases pushed

end StaticVector

end SkAsync

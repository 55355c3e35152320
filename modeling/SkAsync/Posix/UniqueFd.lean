import SkAsync.Library.Custody
import SkAsync.Library.Interleaving
import SkAsync.Posix.FileIo

/-!
# `unique_fd`

An owner of a file descriptor.  Objects are made, moved, given new descriptors and
destroyed in any order, and the log of the calls of `::close` shows what becomes of
every descriptor.

`close` does not forget the descriptor it closes, so the object goes on as if it
owned it.  All other operations forget what they close or hand over.
-/

namespace SkAsync.Posix

open SkAsync.Library

/-- `unique_fd::invalid_fd`. -/
abbrev invalidFd : Int := -1

/-- `unique_fd`. -/
structure UniqueFd where
  fd : Int
  deriving DecidableEq, Repr

namespace UniqueFd

/-- The default constructor. -/
def empty : UniqueFd :=
  ⟨invalidFd⟩

/-- The conversion to `bool`. -/
def isValid (self : UniqueFd) : Bool :=
  self.fd ≠ invalidFd

/-- What a call of `close` does: the object afterwards, the descriptors it passed to
`::close`, and what it returns. -/
structure Closing where
  self : UniqueFd
  passed : List Int
  result : ErrorCode

/-- `close`, with the outcome of `::close` if it is called. -/
def close (self : UniqueFd) (outcome : Outcome) : Closing :=
  if self.fd = invalidFd then ⟨self, [], ⟨0⟩⟩
  else if outcome.returned = 0 then ⟨self, [self.fd], ⟨0⟩⟩
  else ⟨self, [self.fd], ⟨outcome.errno⟩⟩

/-- `release`: the descriptor and the object afterwards. -/
def release (self : UniqueFd) : Int × UniqueFd :=
  (self.fd, empty)

/-- The move constructor: the new object and the one moved from. -/
def moveConstruct (other : UniqueFd) : UniqueFd × UniqueFd :=
  (⟨other.fd⟩, empty)

/-- Move assignment from another object: what is closed, this object and the other. -/
def moveAssign (self other : UniqueFd) (outcome : Outcome) : List Int × UniqueFd × UniqueFd :=
  ((self.close outcome).passed, ⟨other.fd⟩, empty)

/-- `assign`: what is closed and the object afterwards. -/
def assign (self : UniqueFd) (fd : Int) (outcome : Outcome) : List Int × UniqueFd :=
  ((self.close outcome).passed, ⟨fd⟩)

theorem close_self (self : UniqueFd) (outcome : Outcome) : (self.close outcome).self = self := by
  unfold close
  split_ifs <;> rfl

theorem close_passed (self : UniqueFd) (outcome : Outcome) :
    (self.close outcome).passed = if self.fd = invalidFd then [] else [self.fd] := by
  unfold close
  split_ifs <;> rfl

end UniqueFd

/-! ## Programs over many objects -/

/-- The objects that exist, the descriptors passed to `::close`, those given up by
`release`, and those handed in. -/
structure Descriptors where
  objects : Nat → Option UniqueFd
  closed : List Int
  released : List Int
  handedIn : List Int

namespace Descriptors

/-- Nothing exists yet. -/
def initial : Descriptors :=
  ⟨fun _ => none, [], [], []⟩

/-- The operations on objects, with the outcome of `::close` where it may be called. -/
inductive Operation
  | constructDefault (self : Nat)
  | construct (self : Nat) (fd : Int)
  | moveConstruct (self other : Nat)
  | moveAssign (self other : Nat) (outcome : Outcome)
  | assign (self : Nat) (fd : Int) (outcome : Outcome)
  | close (self : Nat) (outcome : Outcome)
  | release (self : Nat)
  | destroy (self : Nat) (outcome : Outcome)

/-- A descriptor that was not handed in before, or none. -/
def Fresh (state : Descriptors) (fd : Int) : Prop :=
  fd ∉ state.handedIn

instance (state : Descriptors) (fd : Int) : Decidable (state.Fresh fd) :=
  inferInstanceAs (Decidable (_ ∉ _))

/-- The descriptors handed in when an object gets a value: `invalid_fd` is none. -/
def handIn (state : Descriptors) (fd : Int) : List Int :=
  if fd = invalidFd then state.handedIn else fd :: state.handedIn

/-- Make, change or destroy an object. -/
def set (state : Descriptors) (self : Nat) (object : Option UniqueFd) : Nat → Option UniqueFd :=
  Function.update state.objects self object

/-- One operation.  It is not possible for an object that does not exist, in the
place of an object that does, or with a descriptor that is not fresh. -/
def step (state : Descriptors) : Operation → Option Descriptors
  | .constructDefault self =>
      match state.objects self with
      | some _ => none
      | none => some { state with objects := state.set self (some .empty) }
  | .construct self fd =>
      match state.objects self with
      | some _ => none
      | none =>
          if state.Fresh fd then
            some { state with
              objects := state.set self (some ⟨fd⟩), handedIn := state.handIn fd }
          else none
  | .moveConstruct self other =>
      match state.objects self, state.objects other with
      | none, some object =>
          let (made, left) := object.moveConstruct
          some { state with
            objects := Function.update (state.set self (some made)) other (some left) }
      | _, _ => none
  | .moveAssign self other outcome =>
      match state.objects self, state.objects other with
      | some object, some source =>
          if self = other then some state
          else
            let (passed, object, left) := object.moveAssign source outcome
            some { state with
              objects := Function.update (state.set self (some object)) other (some left)
              closed := state.closed ++ passed }
      | _, _ => none
  | .assign self fd outcome =>
      match state.objects self with
      | none => none
      | some object =>
          if state.Fresh fd then
            let (passed, object) := object.assign fd outcome
            some { state with
              objects := state.set self (some object)
              closed := state.closed ++ passed
              handedIn := state.handIn fd }
          else none
  | .close self outcome =>
      match state.objects self with
      | none => none
      | some object =>
          let closing := object.close outcome
          some { state with
            objects := state.set self (some closing.self)
            closed := state.closed ++ closing.passed }
  | .release self =>
      match state.objects self with
      | none => none
      | some object =>
          let (fd, object) := object.release
          some { state with
            objects := state.set self (some object)
            released := if fd = invalidFd then state.released else state.released ++ [fd] }
  | .destroy self outcome =>
      match state.objects self with
      | none => none
      | some object =>
          some { state with
            objects := state.set self none
            closed := state.closed ++ (object.close outcome).passed }

/-! ## Ownership -/

/-- The descriptor an object holds. -/
def heldBy : Option UniqueFd → Option Int
  | none => none
  | some object => if object.fd = invalidFd then none else some object.fd

/-- The descriptors that are held, by the objects that hold them. -/
def heldAt (state : Descriptors) : Nat → Option Int :=
  heldBy ∘ state.objects

/-- Every descriptor handed in is held by one object, or was closed or released once. -/
def Invariant (state : Descriptors) : Prop :=
  Custody state.heldAt state.handedIn (state.closed ++ state.released)

theorem heldBy_eq_none_iff {object : UniqueFd} :
    heldBy (some object) = none ↔ object.fd = invalidFd := by
  simp [heldBy]

theorem heldBy_of_valid {object : UniqueFd} (valid : object.fd ≠ invalidFd) :
    heldBy (some object) = some object.fd :=
  if_neg valid

section Ownership

variable {held : Nat → Option Int} {closed released handedIn : List Int}

/-- What an object holds, if anything, is closed. -/
theorem custody_drop (custody : Custody held handedIn (closed ++ released)) {self : Nat}
    {object : UniqueFd} (isObject : held self = heldBy (some object)) (outcome : Outcome) :
    Custody (Function.update held self none) handedIn
      (closed ++ (object.close outcome).passed ++ released) := by
  rw [UniqueFd.close_passed]
  split_ifs with invalid
  · rw [heldBy_eq_none_iff.mpr invalid] at isObject
    rw [List.append_nil, ← isObject, Function.update_eq_self]
    exact custody
  · rw [heldBy_of_valid invalid] at isObject
    apply custody.settle isObject
    rw [List.append_assoc, List.singleton_append]
    exact List.perm_middle

/-- What an object holds, if anything, is released. -/
theorem custody_release (custody : Custody held handedIn (closed ++ released)) {self : Nat}
    {object : UniqueFd} (isObject : held self = heldBy (some object)) :
    Custody (Function.update held self none) handedIn
      (closed ++ if object.fd = invalidFd then released else released ++ [object.fd]) := by
  split_ifs with invalid
  · rw [heldBy_eq_none_iff.mpr invalid] at isObject
    rw [← isObject, Function.update_eq_self]
    exact custody
  · rw [heldBy_of_valid invalid] at isObject
    apply custody.settle isObject
    rw [← List.append_assoc]
    exact List.perm_append_singleton _ _

/-- An object that holds nothing gets a fresh descriptor or none. -/
theorem custody_put (custody : Custody held handedIn (closed ++ released)) {self : Nat} {fd : Int}
    (free : held self = none) (fresh : fd ∉ handedIn) :
    Custody (Function.update held self (heldBy (some ⟨fd⟩)))
      (if fd = invalidFd then handedIn else fd :: handedIn) (closed ++ released) := by
  split_ifs with noFd
  · rw [heldBy_eq_none_iff.mpr noFd, ← free, Function.update_eq_self]
    exact custody
  · rw [heldBy_of_valid noFd]
    exact custody.take free fresh fun _ => List.mem_cons

end Ownership

/-! ## One operation -/

/-- `close` is called only on objects that test false. -/
def ClosesInvalid (state : Descriptors) : Operation → Prop
  | .close self _ => ∀ object, state.objects self = some object → object.isValid = false
  | _ => True

theorem isValid_eq_false_iff {object : UniqueFd} :
    object.isValid = false ↔ object.fd = invalidFd := by
  simp [UniqueFd.isValid]

theorem invariant_initial : Invariant initial :=
  Custody.nothing

section Step

variable {state next : Descriptors} {self : Nat}

theorem invariant_constructDefault (invariant : Invariant state)
    (stepped : step state (.constructDefault self) = some next) : Invariant next := by
  simp only [step] at stepped
  split at stepped
  · cases stepped
  · rename_i absent
    cases stepped
    have free : (heldBy ∘ state.objects) self = none := congrArg heldBy absent
    have stillFree : heldBy (some .empty) = none := rfl
    rw [Invariant, heldAt, set, Function.comp_update, stillFree, ← free, Function.update_eq_self]
    exact invariant

theorem invariant_construct {fd : Int} (invariant : Invariant state)
    (stepped : step state (.construct self fd) = some next) : Invariant next := by
  simp only [step] at stepped
  split at stepped
  · cases stepped
  · rename_i absent
    split at stepped
    · rename_i fresh
      cases stepped
      rw [Invariant, heldAt, set, Function.comp_update]
      exact custody_put invariant (congrArg heldBy absent) fresh
    · cases stepped

theorem invariant_moveConstruct {other : Nat} (invariant : Invariant state)
    (stepped : step state (.moveConstruct self other) = some next) : Invariant next := by
  simp only [step] at stepped
  split at stepped
  · rename_i object absent present
    cases stepped
    have source : state.heldAt other = heldBy (some object) := congrArg heldBy present
    have moved := Custody.move invariant other (congrArg heldBy absent)
    rw [source] at moved
    rw [Invariant, heldAt, set, Function.comp_update, Function.comp_update]
    exact moved
  · cases stepped

/-- What the object held is closed, and it gets what the other holds. -/
theorem invariant_moveAssign {other : Nat} {outcome : Outcome} (invariant : Invariant state)
    (stepped : step state (.moveAssign self other outcome) = some next) : Invariant next := by
  simp only [step] at stepped
  split at stepped
  · rename_i object source present present'
    split at stepped
    · cases stepped
      exact invariant
    · rename_i differ
      cases stepped
      have kept : Function.update state.heldAt self none other = heldBy (some source) :=
        (Function.update_of_ne (Ne.symm differ) _ _).trans (congrArg heldBy present')
      have dropped := custody_drop invariant (congrArg heldBy present) outcome
      have moved := dropped.move other (Function.update_self self _ _)
      rw [kept, Function.update_idem] at moved
      rw [Invariant, heldAt, set, Function.comp_update, Function.comp_update]
      exact moved
  · cases stepped

/-- What the object held is closed, and it gets the fresh descriptor. -/
theorem invariant_assign {fd : Int} {outcome : Outcome} (invariant : Invariant state)
    (stepped : step state (.assign self fd outcome) = some next) : Invariant next := by
  simp only [step] at stepped
  split at stepped
  · cases stepped
  · rename_i object present
    split at stepped
    · rename_i fresh
      cases stepped
      have dropped := custody_drop invariant (congrArg heldBy present) outcome
      have put := custody_put dropped (Function.update_self self _ _) fresh
      rw [Function.update_idem] at put
      rw [Invariant, heldAt, set, Function.comp_update]
      exact put
    · cases stepped

/-- An object that tests false is not changed, and nothing is closed. -/
theorem invariant_close {outcome : Outcome} (invariant : Invariant state)
    (closesInvalid : ClosesInvalid state (.close self outcome))
    (stepped : step state (.close self outcome) = some next) : Invariant next := by
  simp only [step] at stepped
  split at stepped
  · cases stepped
  · rename_i object present
    cases stepped
    have invalid := isValid_eq_false_iff.mp (closesInvalid object present)
    have same : Function.update state.objects self (some object) = state.objects := by
      rw [← present, Function.update_eq_self]
    rw [Invariant, heldAt, set, UniqueFd.close_self, UniqueFd.close_passed, if_pos invalid,
      List.append_nil, same]
    exact invariant

theorem invariant_release (invariant : Invariant state)
    (stepped : step state (.release self) = some next) : Invariant next := by
  simp only [step] at stepped
  split at stepped
  · cases stepped
  · rename_i object present
    cases stepped
    rw [Invariant, heldAt, set, Function.comp_update]
    exact custody_release invariant (congrArg heldBy present)

theorem invariant_destroy {outcome : Outcome} (invariant : Invariant state)
    (stepped : step state (.destroy self outcome) = some next) : Invariant next := by
  simp only [step] at stepped
  split at stepped
  · cases stepped
  · rename_i object present
    cases stepped
    rw [Invariant, heldAt, set, Function.comp_update]
    exact custody_drop invariant (congrArg heldBy present) outcome

theorem invariant_step {operation : Operation} (invariant : Invariant state)
    (closesInvalid : ClosesInvalid state operation)
    (stepped : step state operation = some next) : Invariant next := by
  cases operation with
  | constructDefault self => exact invariant_constructDefault invariant stepped
  | construct self fd => exact invariant_construct invariant stepped
  | moveConstruct self other => exact invariant_moveConstruct invariant stepped
  | moveAssign self other outcome => exact invariant_moveAssign invariant stepped
  | assign self fd outcome => exact invariant_assign invariant stepped
  | close self outcome => exact invariant_close invariant closesInvalid stepped
  | release self => exact invariant_release invariant stepped
  | destroy self outcome => exact invariant_destroy invariant stepped

end Step

/-! ## Programs -/

/-- No descriptor is closed twice or after it was released, and without objects none
is left open. -/
structure ClosedOnce (state : Descriptors) : Prop where
  at_most_once : state.closed.Nodup
  never_released : ∀ fd ∈ state.closed, fd ∉ state.released
  none_left : (∀ self, state.objects self = none) →
    ∀ fd ∈ state.handedIn, fd ∈ state.closed ∨ fd ∈ state.released

theorem Invariant.closedOnce {state : Descriptors} (invariant : Invariant state) :
    ClosedOnce state := by
  rcases List.nodup_append.mp invariant.settled_nodup with ⟨closed_nodup, _, disjoint⟩
  refine ⟨closed_nodup, fun fd isClosed isReleased => disjoint fd isClosed fd isReleased rfl, ?_⟩
  intro destroyed fd member
  rcases invariant.accounted fd member with isSettled | ⟨self, isHeld⟩
  · exact List.mem_append.mp isSettled
  · rw [heldAt, Function.comp_apply, destroyed self] at isHeld
    cases isHeld

/-- What `unique_fd` promises about the state after an operation: descriptors are
closed once, and an object that was closed tests false. -/
def KeepsPromise (state : Descriptors) (operation : Operation) : Prop :=
  ∀ next, step state operation = some next → ClosedOnce next ∧
    ∀ self outcome, operation = .close self outcome →
      ∀ object, next.objects self = some object → object.isValid = false

/-- An object goes on holding what it held when it is closed. -/
theorem step_close {state next : Descriptors} {self : Nat} {outcome : Outcome}
    (stepped : step state (.close self outcome) = some next) :
    ∃ object, state.objects self = some object ∧ next.objects self = some object := by
  simp only [step] at stepped
  split at stepped
  · cases stepped
  · rename_i object present
    cases stepped
    refine ⟨object, present, ?_⟩
    rw [UniqueFd.close_self]
    exact Function.update_self _ _ _

/-- In every program, all operations keep the promise exactly if `close` is called
only on objects that test false. -/
theorem closedOnce_iff (operations : List Operation) :
    Along step KeepsPromise initial operations ↔ Along step ClosesInvalid initial operations := by
  constructor
  · apply Along.imp
    intro state operation keeps
    cases operation with
    | close self outcome =>
        intro object present
        have stepped : ∃ next, step state (.close self outcome) = some next := by
          simp only [step, present]
          exact ⟨_, rfl⟩
        rcases stepped with ⟨next, stepped⟩
        rcases step_close stepped with ⟨object', present', after⟩
        rw [present] at present'
        cases present'
        exact (keeps next stepped).2 self outcome rfl object after
    | _ => trivial
  · apply Along.imp_of_invariant invariant_step _ invariant_initial
    intro state operation invariant closesInvalid next stepped
    refine ⟨(invariant_step invariant closesInvalid stepped).closedOnce, ?_⟩
    rintro self outcome rfl object after
    rcases step_close stepped with ⟨object', present, after'⟩
    rw [after] at after'
    cases after'
    exact closesInvalid object present

/-- A descriptor that was closed by `close` is closed again with its object. -/
theorem not_keepsPromise_of_close_destroy :
    ¬ ∀ operations, Along step KeepsPromise initial operations := by
  intro keeps
  have promise := keeps [.construct 0 3, .close 0 (.success 0), .destroy 0 (.success 0)]
  have afterDestroy := (((promise.2 _ rfl).2 _ rfl).1 _ rfl).1
  have twice : ¬ ([3, 3] : List Int).Nodup := by decide
  exact twice afterDestroy.at_most_once

end Descriptors

end SkAsync.Posix

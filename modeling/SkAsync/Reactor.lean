import SkAsync.Check
import SkAsync.Library.Interleaving

/-!
# The lifetime of the global reactor

Shared and weak handles count references to one reactor.  `get` tests and raises the
count under a mutex and starts the reactor when it was zero; the destructor of a
shared handle lowers the count and calls `stop` when it became zero, both without the
mutex, so other threads may act in between.

Handles are told apart by numbers.  The reactor is running when the last of its
transitions to complete was a start.
-/

namespace SkAsync

open SkAsync.Library

/-- What can happen to the reactor itself. -/
inductive Transition
  | start
  | stop
  deriving DecidableEq, Repr

/-- `reactor_refs`, the valid handles, the threads in the destructor of a shared handle
that have still to call `stop`, and the last transition of the reactor.  `abandoned`
says that the count became zero in the destructor of a weak handle. -/
structure GlobalReactor where
  reactorRefs : Int
  shared : List Nat
  weak : List Nat
  stopping : List Nat
  last : Option Transition
  abandoned : Bool
  deriving DecidableEq, Repr

namespace GlobalReactor

/-- No handles, and a reactor that was never started. -/
def initial : GlobalReactor :=
  ⟨0, [], [], [], none, false⟩

/-- The atomic steps of the threads. -/
inductive Event
  /-- `shared_reactor_handle::get`, with the outcome of `start` if it is called. -/
  | get (handle : Nat) (started : Bool)
  /-- The move constructor of a shared handle. -/
  | moveShared (source target : Nat)
  /-- The decrement in the destructor of a valid shared handle. -/
  | release (handle : Nat)
  /-- The call of `stop` in that destructor. -/
  | stop (handle : Nat)
  /-- `weak_reactor_handle::get`. -/
  | weakGet (handle : Nat)
  /-- The move constructor of a weak handle. -/
  | moveWeak (source target : Nat)
  /-- The destructor of a valid weak handle. -/
  | weakRelease (handle : Nat)
  deriving DecidableEq, Repr

/-- One atomic step.  Weak handles are made only while there is a shared handle.  A
check that fails ends the process, so that there is no next state. -/
def step (build : Build) (reactor : GlobalReactor) : Event → Option GlobalReactor
  | .get handle started =>
      if handle ∈ reactor.shared then none
      else if reactor.reactorRefs = 0 then
        if started then
          some { reactor with
            reactorRefs := reactor.reactorRefs + 1
            shared := handle :: reactor.shared
            last := some .start
            abandoned := false }
        else some reactor
      else
        some { reactor with
          reactorRefs := reactor.reactorRefs + 1
          shared := handle :: reactor.shared }
  | .moveShared source target =>
      if source ∈ reactor.shared ∧ target ∉ reactor.shared then
        some { reactor with shared := target :: reactor.shared.erase source }
      else none
  | .release handle =>
      if handle ∈ reactor.shared then
        let refs := reactor.reactorRefs - 1
        some { reactor with
          reactorRefs := refs
          shared := reactor.shared.erase handle
          stopping := if refs > 0 then reactor.stopping else handle :: reactor.stopping }
      else none
  | .stop handle =>
      if handle ∈ reactor.stopping then
        some { reactor with
          stopping := reactor.stopping.erase handle
          last := some .stop }
      else none
  | .weakGet handle =>
      if reactor.shared ≠ [] ∧ handle ∉ reactor.weak then
        let refs := reactor.reactorRefs + 1
        match skCheck build (refs > 1) "get_weak_reactor_handle: no reactor" with
        | .error _ => none
        | .ok () => some { reactor with reactorRefs := refs, weak := handle :: reactor.weak }
      else none
  | .moveWeak source target =>
      if source ∈ reactor.weak ∧ target ∉ reactor.weak then
        some { reactor with weak := target :: reactor.weak.erase source }
      else none
  | .weakRelease handle =>
      if handle ∈ reactor.weak then
        let r := reactor.reactorRefs - 1
        match skCheck build (r > 0) "weak_reactor_handle: lifetime error" with
        | .error _ => none
        | .ok () =>
            some { reactor with
              reactorRefs := r
              weak := reactor.weak.erase handle
              abandoned := if r = 0 then true else reactor.abandoned }
      else none

/-! ## The promise and when it is kept -/

/-- `start` is not called on a running reactor, and the reactor is running whenever
there is a valid shared handle. -/
def KeepsPromise (build : Build) (reactor : GlobalReactor) (event : Event) : Prop :=
  (∀ handle started, event = .get handle started → handle ∉ reactor.shared →
    reactor.reactorRefs = 0 → reactor.last ≠ some .start) ∧
  ∀ next, step build reactor event = some next → next.shared ≠ [] → next.last = some .start

/-- A `get` that finds the count at zero does not come before the `stop` that belongs
to it, nor after a weak handle was the last. -/
def Undisturbed (reactor : GlobalReactor) : Event → Prop
  | .get handle _ => handle ∉ reactor.shared → reactor.reactorRefs = 0 →
      reactor.stopping = [] ∧ reactor.abandoned = false
  | _ => True

/-- The count is the number of handles.  While it is positive the reactor is running
and no `stop` is due; while it is zero the reactor is running only if a `stop` is due
or a weak handle was the last. -/
structure Invariant (reactor : GlobalReactor) : Prop where
  refs_eq : reactor.reactorRefs = reactor.shared.length + reactor.weak.length
  running : 0 < reactor.reactorRefs →
    reactor.last = some .start ∧ reactor.stopping = [] ∧ reactor.abandoned = false
  stopping : reactor.stopping ≠ [] →
    reactor.last = some .start ∧ reactor.stopping.length = 1 ∧ reactor.abandoned = false
  abandoned : reactor.abandoned = true → reactor.last = some .start
  stopped : reactor.reactorRefs = 0 → reactor.stopping = [] → reactor.abandoned = false →
    reactor.last ≠ some .start

theorem invariant_initial : Invariant initial := by
  constructor <;> simp [initial]

/-! ## One step -/

/-- One handle fewer. -/
theorem length_erase_eq {handles : List Nat} {handle : Nat} (member : handle ∈ handles) :
    ((handles.erase handle).length : Int) = handles.length - 1 := by
  have positive := List.length_pos_of_mem member
  rw [List.length_erase_of_mem member]
  omega

/-- A moved handle counts as before. -/
theorem length_move_eq {handles : List Nat} {source : Nat} (target : Nat)
    (member : source ∈ handles) :
    ((target :: handles.erase source).length : Int) = handles.length := by
  have erased := length_erase_eq member
  rw [List.length_cons]
  omega

section Step

variable {build : Build} {reactor next : GlobalReactor}

/-- There are references as long as there is a handle. -/
theorem Invariant.refs_pos_of_shared (invariant : Invariant reactor)
    (some_shared : reactor.shared ≠ []) : 0 < reactor.reactorRefs := by
  have positive := List.length_pos_of_ne_nil some_shared
  have refs_eq := invariant.refs_eq
  omega

theorem Invariant.refs_pos_of_weak (invariant : Invariant reactor) {handle : Nat}
    (member : handle ∈ reactor.weak) : 0 < reactor.reactorRefs := by
  have positive := List.length_pos_of_mem member
  have refs_eq := invariant.refs_eq
  omega

/-- A state with references in which the reactor is running and no `stop` is due. -/
theorem invariant_of_refs_pos (refs_eq : next.reactorRefs = next.shared.length + next.weak.length)
    (positive : 0 < next.reactorRefs)
    (running : next.last = some .start ∧ next.stopping = [] ∧ next.abandoned = false) :
    Invariant next := by
  constructor
  · exact refs_eq
  · exact fun _ => running
  · exact fun due => absurd running.2.1 due
  · exact fun _ => running.1
  · intro none_left
    rw [none_left] at positive
    exact absurd positive (Int.lt_irrefl 0)

theorem invariant_get (invariant : Invariant reactor) {handle : Nat} {started : Bool}
    (undisturbed : Undisturbed reactor (.get handle started))
    (stepped : step build reactor (.get handle started) = some next) : Invariant next := by
  have refs_eq := invariant.refs_eq
  simp only [step] at stepped
  split_ifs at stepped with existing none_left isStarted
  · cases stepped
    rcases undisturbed existing none_left with ⟨noneStopping, _⟩
    apply invariant_of_refs_pos
    · simp only [List.length_cons]
      omega
    · simp only
      omega
    · exact ⟨rfl, noneStopping, rfl⟩
  · cases stepped
    exact invariant
  · cases stepped
    have positive : 0 < reactor.reactorRefs := by omega
    apply invariant_of_refs_pos
    · simp only [List.length_cons]
      omega
    · simp only
      omega
    · exact invariant.running positive

theorem invariant_release (invariant : Invariant reactor) {handle : Nat}
    (stepped : step build reactor (.release handle) = some next) : Invariant next := by
  have refs_eq := invariant.refs_eq
  simp only [step] at stepped
  split_ifs at stepped with member more
  · cases stepped
    have erased := length_erase_eq member
    apply invariant_of_refs_pos
    · simp only
      omega
    · exact more
    · exact invariant.running (invariant.refs_pos_of_shared (List.ne_nil_of_mem member))
  · cases stepped
    have erased := length_erase_eq member
    rcases invariant.running (invariant.refs_pos_of_shared (List.ne_nil_of_mem member)) with
      ⟨last_eq, noneStopping, notAbandoned⟩
    constructor
    · simp only
      omega
    · exact fun positive => absurd positive more
    · exact fun _ => ⟨last_eq, congrArg (List.length ∘ List.cons handle) noneStopping, notAbandoned⟩
    · exact fun _ => last_eq
    · intro _ noneDue
      cases noneDue

theorem invariant_stop (invariant : Invariant reactor) {handle : Nat}
    (stepped : step build reactor (.stop handle) = some next) : Invariant next := by
  simp only [step] at stepped
  split_ifs at stepped with member
  cases stepped
  have due := List.ne_nil_of_mem member
  rcases invariant.stopping due with ⟨_, one, notAbandoned⟩
  have noneLeft : reactor.stopping.erase handle = [] := by
    apply List.eq_nil_of_length_eq_zero
    rw [List.length_erase_of_mem member, one]
  have noRefs : ¬ 0 < reactor.reactorRefs := fun positive => due (invariant.running positive).2.1
  constructor
  · exact invariant.refs_eq
  · exact fun positive => absurd positive noRefs
  · exact fun stillDue => absurd noneLeft stillDue
  · intro abandoned
    rw [notAbandoned] at abandoned
    cases abandoned
  · intro _ _ _ same
    cases same

theorem invariant_weakGet (invariant : Invariant reactor) {handle : Nat}
    (stepped : step build reactor (.weakGet handle) = some next) : Invariant next := by
  have refs_eq := invariant.refs_eq
  simp only [step] at stepped
  split_ifs at stepped with allowed
  split at stepped
  · cases stepped
  · cases stepped
    have positive := invariant.refs_pos_of_shared allowed.1
    apply invariant_of_refs_pos
    · simp only [List.length_cons]
      omega
    · simp only
      omega
    · exact invariant.running positive

theorem invariant_weakRelease (invariant : Invariant reactor) {handle : Nat}
    (stepped : step build reactor (.weakRelease handle) = some next) : Invariant next := by
  have refs_eq := invariant.refs_eq
  simp only [step] at stepped
  split_ifs at stepped with member lastOne
  · have erased := length_erase_eq member
    rcases invariant.running (invariant.refs_pos_of_weak member) with ⟨last_eq, noneStopping, _⟩
    split at stepped
    · cases stepped
    · cases stepped
      constructor
      · simp only
        omega
      · intro positive
        simp only [lastOne] at positive
        exact absurd positive (Int.lt_irrefl 0)
      · exact fun due => absurd noneStopping due
      · exact fun _ => last_eq
      · intro _ _ impossible
        cases impossible
  · have erased := length_erase_eq member
    have positive := invariant.refs_pos_of_weak member
    split at stepped
    · cases stepped
    · cases stepped
      apply invariant_of_refs_pos
      · simp only
        omega
      · simp only
        omega
      · exact invariant.running positive

/-- A move changes only which objects are the handles. -/
theorem Invariant.of_counts (invariant : Invariant reactor) {shared weak : List Nat}
    (shared_eq : (shared.length : Int) = reactor.shared.length)
    (weak_eq : (weak.length : Int) = reactor.weak.length) :
    Invariant { reactor with shared := shared, weak := weak } := by
  refine ⟨?_, invariant.running, invariant.stopping, invariant.abandoned, invariant.stopped⟩
  have refs_eq := invariant.refs_eq
  simp only
  omega

theorem invariant_step {event : Event} (invariant : Invariant reactor)
    (undisturbed : Undisturbed reactor event) (stepped : step build reactor event = some next) :
    Invariant next := by
  cases event with
  | get handle started => exact invariant_get invariant undisturbed stepped
  | moveShared source target =>
      simp only [step] at stepped
      split_ifs at stepped with allowed
      cases stepped
      exact invariant.of_counts (length_move_eq target allowed.1) rfl
  | release handle => exact invariant_release invariant stepped
  | stop handle => exact invariant_stop invariant stepped
  | weakGet handle => exact invariant_weakGet invariant stepped
  | moveWeak source target =>
      simp only [step] at stepped
      split_ifs at stepped with allowed
      cases stepped
      exact invariant.of_counts rfl (length_move_eq target allowed.1)
  | weakRelease handle => exact invariant_weakRelease invariant stepped

end Step

/-! ## Every interleaving -/

/-- A state in which the invariant holds keeps the promise in an undisturbed step. -/
theorem keepsPromise_of_undisturbed {build : Build} {reactor : GlobalReactor} {event : Event}
    (invariant : Invariant reactor) (undisturbed : Undisturbed reactor event) :
    KeepsPromise build reactor event := by
  constructor
  · rintro handle started rfl new none_left
    rcases undisturbed new none_left with ⟨noneStopping, notAbandoned⟩
    exact invariant.stopped none_left noneStopping notAbandoned
  · intro next stepped some_shared
    have invariant' := invariant_step invariant undisturbed stepped
    exact (invariant'.running (invariant'.refs_pos_of_shared some_shared)).1

/-- Where the invariant holds, a step that keeps the promise is undisturbed. -/
theorem undisturbed_of_keepsPromise {build : Build} {reactor : GlobalReactor} {event : Event}
    (invariant : Invariant reactor) (keeps : KeepsPromise build reactor event) :
    Undisturbed reactor event := by
  cases event with
  | get handle started =>
      intro new none_left
      have notRunning := keeps.1 handle started rfl new none_left
      constructor
      · by_contra due
        exact notRunning (invariant.stopping due).1
      · by_contra abandoned
        exact notRunning (invariant.abandoned (Bool.eq_true_of_not_eq_false abandoned))
  | _ => trivial

/-- For every interleaving, the reactor is running whenever there is a valid shared
handle and is never started while it is running, exactly if no `get` finds the count
at zero between a release and its `stop`, or after a weak handle was the last. -/
theorem runningWhileShared_iff (build : Build) (events : List Event) :
    Along (step build) (KeepsPromise build) initial events ↔
      Along (step build) Undisturbed initial events := by
  constructor
  · exact Along.imp_of_invariant
      (fun invariant keeps stepped =>
        invariant_step invariant (undisturbed_of_keepsPromise invariant keeps) stepped)
      undisturbed_of_keepsPromise invariant_initial
  · exact Along.imp_of_invariant invariant_step keepsPromise_of_undisturbed invariant_initial

/-- Another thread gets a handle between the last release and its `stop`. -/
theorem not_keepsPromise_of_late_stop :
    ¬ ∀ events, Along (step .debug) (KeepsPromise .debug) initial events := by
  intro keeps
  have promise := keeps [.get 0 true, .release 0, .get 1 true]
  have getAgain := ((promise.2 _ rfl).2 _ rfl).1
  exact getAgain.1 1 true rfl (by decide) rfl rfl

end GlobalReactor

end SkAsync

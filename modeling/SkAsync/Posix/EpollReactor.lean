import Mathlib.Data.List.Nodup
import Mathlib.Logic.Function.Basic
import SkAsync.Library.Interleaving

/-!
# Waiting for sockets with `epoll`

Every associated descriptor has a state with a mask of events and a waiter for each
direction.  Registering a waiter sets a bit of the mask and passes the mask to the
kernel, which reports at most one set of events for it (`EPOLLONESHOT`) and then
nothing until it is passed a mask again.  The event thread takes a batch of reports
and resumes the waiters whose direction is reported.

All of this happens under one mutex, so registrations and batches are atomic steps.
Both registrations set `EPOLLIN`.
-/

namespace SkAsync.Posix

open SkAsync.Library

/-- `EPOLLIN` and `EPOLLOUT` in a mask.  `EPOLLET` and `EPOLLONESHOT` are always in it. -/
structure EventMask where
  input : Bool
  output : Bool
  deriving DecidableEq, Repr

/-- Neither direction. -/
def EventMask.none : EventMask :=
  ⟨false, false⟩

/-- The events of one report: the two directions, and the conditions that are reported
without being asked for, such as `EPOLLERR` and `EPOLLHUP`. -/
structure Reported where
  input : Bool
  output : Bool
  other : Bool
  deriving DecidableEq, Repr

/-- `fd_state`, with the waiters named by numbers. -/
structure FdState where
  events : EventMask
  readWaiter : Option Nat
  writeWaiter : Option Nat
  deriving DecidableEq, Repr

/-- What the kernel knows of a descriptor. -/
inductive Registration
  /-- It was not added. -/
  | absent
  /-- Its events were reported, and none will be before the next `EPOLL_CTL_MOD`. -/
  | disarmed
  /-- The next of these events is reported. -/
  | armed (events : EventMask)
  deriving DecidableEq, Repr

/-- The events that are armed. -/
def Registration.armedEvents : Registration → EventMask
  | .armed events => events
  | _ => .none

/-- The two directions a waiter can wait for. -/
inductive Direction
  | read
  | write
  deriving DecidableEq, Repr

/-- `epoll_reactor`: `_state`, where places beyond the vector hold no state, the
kernel's interest list, and the work posted so far. -/
structure EpollReactor where
  state : Nat → Option FdState
  kernel : Nat → Registration
  posted : List (Direction × Nat)

namespace EpollReactor

/-- No descriptors. -/
def initial : EpollReactor :=
  ⟨fun _ => none, fun _ => .absent, []⟩

/-! ## Descriptors and waiters -/

/-- `fd_state::fd_state`. -/
def newState : FdState :=
  ⟨.none, none, none⟩

/-- `associate_fd`, with the outcome of `EPOLL_CTL_ADD` for a descriptor that is not in
the list.  For one that is, it fails. -/
def associateFd (reactor : EpollReactor) (fd : Nat) (added : Bool) : EpollReactor :=
  let state := (reactor.state fd).getD newState
  { reactor with
    state := Function.update reactor.state fd (some { state with events := .none })
    kernel :=
      if reactor.kernel fd = .absent ∧ added then
        Function.update reactor.kernel fd (.armed .none)
      else reactor.kernel }

/-- `deassociate_fd`. -/
def deassociateFd (reactor : EpollReactor) (fd : Nat) : EpollReactor :=
  { reactor with
    state := Function.update reactor.state fd none
    kernel := Function.update reactor.kernel fd .absent }

/-- The assertions of both registrations. -/
def CanRegister (state : FdState) : Prop :=
  state.writeWaiter = none ∧ state.events.input = false

instance (state : FdState) : Decidable (CanRegister state) :=
  inferInstanceAs (Decidable (_ ∧ _))

/-- The state is stored and its mask passed to the kernel by `EPOLL_CTL_MOD`. -/
def modify (reactor : EpollReactor) (fd : Nat) (state : FdState) : EpollReactor :=
  { reactor with
    state := Function.update reactor.state fd (some state)
    kernel := Function.update reactor.kernel fd (.armed state.events) }

/-- `register_read_interest` for the state of the descriptor. -/
def registerReadInterest (reactor : EpollReactor) (fd waiter : Nat) (state : FdState) :
    EpollReactor :=
  reactor.modify fd
    { state with readWaiter := some waiter, events := { state.events with input := true } }

/-- `register_write_interest` for the state of the descriptor. -/
def registerWriteInterest (reactor : EpollReactor) (fd waiter : Nat) (state : FdState) :
    EpollReactor :=
  reactor.modify fd
    { state with writeWaiter := some waiter, events := { state.events with input := true } }

/-! ## The event thread -/

/-- The test for `EPOLLIN`: the state afterwards and the work posted. -/
def handleInput (event : Reported) (state : FdState) : FdState × List (Direction × Nat) :=
  match event.input, state.readWaiter with
  | true, some waiter =>
      ({ state with readWaiter := none, events := { state.events with input := false } },
        [(.read, waiter)])
  | _, _ => (state, [])

/-- The test for `EPOLLOUT`. -/
def handleOutput (event : Reported) (state : FdState) : FdState × List (Direction × Nat) :=
  match event.output, state.writeWaiter with
  | true, some waiter =>
      ({ state with writeWaiter := none, events := { state.events with output := false } },
        [(.write, waiter)])
  | _, _ => (state, [])

/-- The loop of `epoll_thread_fn` over a batch.  It dereferences a null pointer where
there is no state. -/
def handleEvents : EpollReactor → List (Nat × Reported) → Option EpollReactor
  | reactor, [] => some reactor
  | reactor, (fd, event) :: events =>
      match reactor.state fd with
      | none => none
      | some state =>
          let (state, read) := handleInput event state
          let (state, write) := handleOutput event state
          handleEvents
            { reactor with
              state := Function.update reactor.state fd (some state)
              posted := reactor.posted ++ read ++ write }
            events

/-- The most events that are taken at a time. -/
abbrev maxEvents : Nat := 16

/-- The kernel can report an event: some condition holds, and the directions in it
are armed. -/
def Reportable (registration : Registration) (event : Reported) : Prop :=
  match registration with
  | .armed events =>
      (event.input ∨ event.output ∨ event.other) ∧ (event.input → events.input) ∧
        (event.output → events.output)
  | _ => False

instance (registration : Registration) (event : Reported) :
    Decidable (Reportable registration event) :=
  match registration with
  | .absent => isFalse id
  | .disarmed => isFalse id
  | .armed _ => inferInstanceAs (Decidable (_ ∧ _))

/-- The kernel can return a batch from `epoll_wait`: it has one report at most for
every descriptor. -/
def Deliverable (reactor : EpollReactor) (events : List (Nat × Reported)) : Prop :=
  events.length ≤ maxEvents ∧ (events.map Prod.fst).Nodup ∧
    ∀ report ∈ events, Reportable (reactor.kernel report.1) report.2

instance (reactor : EpollReactor) (events : List (Nat × Reported)) :
    Decidable (Deliverable reactor events) :=
  inferInstanceAs (Decidable (_ ∧ _))

/-- What is reported is disarmed. -/
def disarm (reactor : EpollReactor) (events : List (Nat × Reported)) : EpollReactor :=
  { reactor with
    kernel := fun fd => if fd ∈ events.map Prod.fst then .disarmed else reactor.kernel fd }

/-! ## Steps -/

/-- The atomic steps. -/
inductive Event
  | associate (fd : Nat) (added : Bool)
  | deassociate (fd : Nat)
  | registerRead (fd waiter : Nat)
  | registerWrite (fd waiter : Nat)
  | deliver (events : List (Nat × Reported))

/-- The state of an associated descriptor. -/
def associated (reactor : EpollReactor) (fd : Nat) : Option FdState :=
  if reactor.kernel fd = .absent then none else reactor.state fd

/-- One atomic step.  Waiters are registered for associated descriptors only, and only
when the assertions hold. -/
def step (reactor : EpollReactor) : Event → Option EpollReactor
  | .associate fd added => some (reactor.associateFd fd added)
  | .deassociate fd =>
      if reactor.kernel fd = .absent then none else some (reactor.deassociateFd fd)
  | .registerRead fd waiter =>
      match reactor.associated fd with
      | none => none
      | some state =>
          if CanRegister state then some (reactor.registerReadInterest fd waiter state) else none
  | .registerWrite fd waiter =>
      match reactor.associated fd with
      | none => none
      | some state =>
          if CanRegister state then some (reactor.registerWriteInterest fd waiter state) else none
  | .deliver events =>
      if Deliverable reactor events then handleEvents (reactor.disarm events) events else none

/-! ## The promise and when it is kept -/

/-- The event a waiter waits for is armed. -/
def NeverStranded (reactor : EpollReactor) : Prop :=
  ∀ fd state, reactor.associated fd = some state →
    (state.readWaiter ≠ none → (reactor.kernel fd).armedEvents.input = true) ∧
      (state.writeWaiter ≠ none → (reactor.kernel fd).armedEvents.output = true)

/-- The state after a step strands no waiter. -/
def KeepsPromise (reactor : EpollReactor) (event : Event) : Prop :=
  ∀ next, step reactor event = some next → NeverStranded next

/-- No waiter is registered for writing, and what is reported for a descriptor with a
waiter for reading has `EPOLLIN` in it. -/
def ReadsOnly (reactor : EpollReactor) : Event → Prop
  | .registerWrite fd _ =>
      ∀ state, reactor.associated fd = some state → ¬ CanRegister state
  | .deliver events => Deliverable reactor events → ∀ fd event, (fd, event) ∈ events →
      ∀ state, reactor.state fd = some state → state.readWaiter ≠ none → event.input = true
  | _ => True

/-- A descriptor in the interest list has a state, nobody waits for writing or asks for
it, and `EPOLLIN` is armed for who waits for reading. -/
structure Healthy (registration : Registration) (state : Option FdState) : Prop where
  has_state : registration ≠ .absent → ∃ present, state = some present
  no_writer : ∀ present, state = some present →
    present.writeWaiter = none ∧ present.events.output = false
  reader_armed : ∀ present, state = some present → present.readWaiter ≠ none →
    registration.armedEvents.input = true

theorem healthy_some {registration : Registration} {present : FdState}
    (noWriter : present.writeWaiter = none) (noOutput : present.events.output = false)
    (armed : present.readWaiter ≠ none → registration.armedEvents.input = true) :
    Healthy registration (some present) := by
  constructor
  · exact fun _ => ⟨present, rfl⟩
  · intro other same
    cases same
    exact ⟨noWriter, noOutput⟩
  · intro other same
    cases same
    exact armed

/-- Every descriptor is healthy. -/
def Invariant (reactor : EpollReactor) : Prop :=
  ∀ fd, Healthy (reactor.kernel fd) (reactor.state fd)

theorem invariant_initial : Invariant initial := by
  intro fd
  constructor <;> simp [initial]

theorem Invariant.neverStranded {reactor : EpollReactor} (invariant : Invariant reactor) :
    NeverStranded reactor := by
  intro fd state found
  unfold associated at found
  split_ifs at found
  constructor
  · exact (invariant fd).reader_armed state found
  · intro waits
    exact absurd ((invariant fd).no_writer state found).1 waits

/-! ## One batch -/

/-- What one report does to the state of its descriptor. -/
def handle (event : Reported) (state : FdState) : FdState :=
  (handleOutput event (handleInput event state).1).1

theorem handle_of_no_writer {event : Reported} {state : FdState}
    (noWriter : state.writeWaiter = none) :
    handle event state = (handleInput event state).1 := by
  have same : (handleInput event state).1.writeWaiter = none := by
    unfold handleInput
    split
    · exact noWriter
    · exact noWriter
  unfold handle handleOutput
  rw [same]
  cases event.output <;> rfl

/-- A batch changes the states of the descriptors in it, each by its report. -/
theorem handleEvents_spec {reactor next : EpollReactor} {events : List (Nat × Reported)}
    (distinct : (events.map Prod.fst).Nodup) (handled : handleEvents reactor events = some next) :
    next.kernel = reactor.kernel ∧
      (∀ fd, fd ∉ events.map Prod.fst → next.state fd = reactor.state fd) ∧
      ∀ fd event, (fd, event) ∈ events → ∃ state, reactor.state fd = some state ∧
        next.state fd = some (handle event state) := by
  induction events generalizing reactor with
  | nil =>
      cases handled
      exact ⟨rfl, fun _ _ => rfl, fun _ _ member => absurd member List.not_mem_nil⟩
  | cons report events ih =>
      rcases report with ⟨fd, event⟩
      rw [List.map_cons, List.nodup_cons] at distinct
      simp only [handleEvents] at handled
      split at handled
      · cases handled
      · rename_i state found
        rcases ih distinct.2 handled with ⟨kernel_eq, others, reports⟩
        refine ⟨kernel_eq, ?_, ?_⟩
        · intro other notThere
          rw [List.map_cons, List.mem_cons, not_or] at notThere
          exact (others other notThere.2).trans (Function.update_of_ne notThere.1 _ _)
        · intro other event' member
          rcases List.mem_cons.mp member with same | later
          · cases same
            exact ⟨state, found, (others fd distinct.1).trans (Function.update_self _ _ _)⟩
          · have differs : other ≠ fd := by
              rintro rfl
              exact distinct.1 (List.mem_map.mpr ⟨_, later, rfl⟩)
            rcases reports other event' later with ⟨state', found', handled'⟩
            exact ⟨state', (Function.update_of_ne differs _ _).symm.trans found', handled'⟩

/-- A batch is handled if every descriptor in it has a state. -/
theorem exists_handleEvents {reactor : EpollReactor} {events : List (Nat × Reported)}
    (have_states : ∀ fd event, (fd, event) ∈ events → ∃ state, reactor.state fd = some state) :
    ∃ next, handleEvents reactor events = some next := by
  induction events generalizing reactor with
  | nil => exact ⟨reactor, rfl⟩
  | cons report events ih =>
      rcases report with ⟨fd, event⟩
      rcases have_states fd event List.mem_cons_self with ⟨state, found⟩
      simp only [handleEvents, found]
      apply ih
      intro other event' member
      by_cases same : other = fd
      · subst same
        exact ⟨_, Function.update_self _ _ _⟩
      · rcases have_states other event' (List.mem_cons_of_mem _ member) with ⟨state', found'⟩
        exact ⟨state', (Function.update_of_ne same _ _).trans found'⟩

theorem kernel_ne_absent_of_deliverable {reactor : EpollReactor} {events : List (Nat × Reported)}
    (deliverable : Deliverable reactor events) {fd : Nat} {event : Reported}
    (member : (fd, event) ∈ events) : reactor.kernel fd ≠ .absent := by
  intro isAbsent
  have reportable := deliverable.2.2 _ member
  rw [isAbsent] at reportable
  exact reportable

/-! ## One step -/

/-- A change of one descriptor. -/
theorem Invariant.update {reactor : EpollReactor} (invariant : Invariant reactor) (fd : Nat)
    {registration : Registration} {state : Option FdState} (healthy : Healthy registration state) :
    Invariant { reactor with
      state := Function.update reactor.state fd state
      kernel := Function.update reactor.kernel fd registration } := by
  intro other
  by_cases same : other = fd
  · subst same
    simp only [Function.update_self]
    exact healthy
  · simp only [Function.update_of_ne same]
    exact invariant other

theorem Healthy.handle {events : EventMask} {state : FdState} {event : Reported}
    (healthy : Healthy (.armed events) (some state))
    (readable : state.readWaiter ≠ none → event.input = true) :
    Healthy .disarmed (some (handle event state)) := by
  rcases healthy.no_writer state rfl with ⟨noWriter, noOutput⟩
  rw [handle_of_no_writer noWriter]
  unfold handleInput
  split
  · exact healthy_some noWriter noOutput (fun waits => absurd rfl waits)
  · rename_i notResumed
    apply healthy_some noWriter noOutput
    intro waits
    rcases Option.ne_none_iff_exists'.mp waits with ⟨waiter, waiter_eq⟩
    exact absurd waiter_eq (notResumed waiter (readable waits))

/-- A descriptor is associated, whether it was before or not. -/
theorem invariant_associate {reactor : EpollReactor} (invariant : Invariant reactor) (fd : Nat)
    (added : Bool) : Invariant (reactor.associateFd fd added) := by
  have state_healthy : ∀ registration, registration = reactor.kernel fd ∨
      (reactor.kernel fd = .absent ∧ registration = .armed .none) →
      Healthy registration (some { (reactor.state fd).getD newState with events := .none }) := by
    intro registration before
    cases found : reactor.state fd with
    | none => exact healthy_some rfl rfl (fun waits => absurd rfl waits)
    | some state =>
        change Healthy registration (some { state with events := .none })
        apply healthy_some
        · exact ((invariant fd).no_writer state found).1
        · rfl
        · intro waits
          have armed := (invariant fd).reader_armed state found waits
          rcases before with rfl | ⟨isAbsent, _⟩
          · exact armed
          · rw [isAbsent] at armed
            cases armed
  unfold associateFd
  split_ifs with adds
  · exact invariant.update fd (state_healthy _ (Or.inr ⟨adds.1, rfl⟩))
  · have kept := invariant.update fd (state_healthy _ (Or.inl rfl))
    rwa [Function.update_eq_self] at kept

theorem invariant_deliver {reactor next : EpollReactor} (invariant : Invariant reactor)
    {events : List (Nat × Reported)} (deliverable : Deliverable reactor events)
    (readsOnly : ReadsOnly reactor (.deliver events))
    (handled : handleEvents (reactor.disarm events) events = some next) : Invariant next := by
  rcases handleEvents_spec deliverable.2.1 handled with ⟨kernel_eq, others, reports⟩
  intro fd
  rw [kernel_eq]
  by_cases isThere : fd ∈ events.map Prod.fst
  · rcases List.mem_map.mp isThere with ⟨⟨other, event⟩, member, same⟩
    subst same
    rcases reports other event member with ⟨state, found, handled'⟩
    have reportable := deliverable.2.2 _ member
    have healthy := invariant other
    rw [show reactor.state other = some state from found] at healthy
    have disarmed : (reactor.disarm events).kernel other = .disarmed := if_pos isThere
    rw [disarmed, handled']
    cases registered : reactor.kernel other with
    | absent =>
        rw [registered] at reportable
        exact absurd reportable id
    | disarmed =>
        rw [registered] at reportable
        exact absurd reportable id
    | armed armed =>
        rw [registered] at healthy
        exact healthy.handle (readsOnly deliverable _ event member state found)
  · have kept : (reactor.disarm events).kernel fd = reactor.kernel fd := if_neg isThere
    rw [kept, others fd isThere]
    exact invariant fd

theorem invariant_step {reactor next : EpollReactor} {event : Event}
    (invariant : Invariant reactor) (readsOnly : ReadsOnly reactor event)
    (stepped : step reactor event = some next) : Invariant next := by
  cases event with
  | associate fd added =>
      cases stepped
      exact invariant_associate invariant fd added
  | deassociate fd =>
      simp only [step] at stepped
      split_ifs at stepped
      cases stepped
      apply invariant.update
      constructor <;> simp
  | registerRead fd waiter =>
      simp only [step] at stepped
      split at stepped
      · cases stepped
      · rename_i state found
        split_ifs at stepped with canRegister
        cases stepped
        unfold associated at found
        split_ifs at found
        rcases (invariant fd).no_writer state found with ⟨noWriter, noOutput⟩
        exact invariant.update fd (healthy_some noWriter noOutput fun _ => rfl)
  | registerWrite fd waiter =>
      simp only [step] at stepped
      split at stepped
      · cases stepped
      · rename_i state found
        rw [if_neg (readsOnly state found)] at stepped
        cases stepped
  | deliver events =>
      simp only [step] at stepped
      split_ifs at stepped with deliverable
      exact invariant_deliver invariant deliverable readsOnly stepped

/-! ## Every interleaving -/

/-- A registration for writing, or a report without `EPOLLIN`, strands a waiter. -/
theorem readsOnly_of_keepsPromise {reactor : EpollReactor} {event : Event}
    (invariant : Invariant reactor) (keeps : KeepsPromise reactor event) :
    ReadsOnly reactor event := by
  cases event with
  | registerWrite fd waiter =>
      intro state found canRegister
      have stepped : step reactor (.registerWrite fd waiter) =
          some (reactor.registerWriteInterest fd waiter state) := by
        simp only [step, found]
        exact if_pos canRegister
      have present : reactor.state fd = some state := by
        unfold associated at found
        split_ifs at found
        exact found
      have stranded := (keeps _ stepped fd _ (by
        unfold associated registerWriteInterest modify
        simp only [Function.update_self]
        rfl)).2 (fun impossible => by cases impossible)
      have noOutput := ((invariant fd).no_writer state present).2
      simp only [registerWriteInterest, modify, Function.update_self, Registration.armedEvents,
        noOutput] at stranded
      cases stranded
  | deliver events =>
      intro deliverable fd event member state found waits
      by_contra notReadable
      have isThere : fd ∈ events.map Prod.fst := List.mem_map.mpr ⟨_, member, rfl⟩
      have have_states : ∀ other event, (other, event) ∈ events →
          ∃ state, (reactor.disarm events).state other = some state := by
        intro other event member
        exact (invariant other).has_state (kernel_ne_absent_of_deliverable deliverable member)
      rcases exists_handleEvents have_states with ⟨next, handled⟩
      have stepped : step reactor (.deliver events) = some next :=
        (if_pos deliverable).trans handled
      rcases handleEvents_spec deliverable.2.1 handled with ⟨kernel_eq, _, reports⟩
      rcases reports fd event member with ⟨state', found', handled'⟩
      have same : state' = state := Option.some.inj (found'.symm.trans found)
      subst same
      have disarmed : next.kernel fd = .disarmed :=
        (congrFun kernel_eq fd).trans (if_pos isThere)
      have found_next : next.associated fd = some (handle event state') := by
        unfold associated
        rw [disarmed]
        exact handled'
      have kept : (handle event state').readWaiter = state'.readWaiter := by
        rw [handle_of_no_writer ((invariant fd).no_writer state' found).1]
        unfold handleInput
        split
        · rename_i isInput _
          exact absurd isInput notReadable
        · rfl
      have armed := (keeps next stepped fd _ found_next).1 (by rwa [kept])
      rw [disarmed] at armed
      cases armed
  | _ => trivial

/-- In every interleaving, no waiter is ever stranded exactly if none is registered for
writing and whatever is reported for a descriptor with a waiter for reading has
`EPOLLIN` in it. -/
theorem neverStranded_iff (events : List Event) :
    Along step KeepsPromise initial events ↔ Along step ReadsOnly initial events := by
  constructor
  · exact Along.imp_of_invariant
      (fun invariant keeps stepped =>
        invariant_step invariant (readsOnly_of_keepsPromise invariant keeps) stepped)
      readsOnly_of_keepsPromise invariant_initial
  · exact Along.imp_of_invariant invariant_step
      (fun invariant readsOnly next stepped =>
        (invariant_step invariant readsOnly stepped).neverStranded)
      invariant_initial

/-- A waiter is registered for writing, and the kernel is asked for input. -/
theorem not_keepsPromise_of_registerWrite :
    ¬ ∀ events, Along step KeepsPromise initial events := by
  intro keeps
  have promise := keeps [.associate 5 true, .registerWrite 5 1]
  have stranded := (promise.2 _ rfl).1 _ rfl 5 _ rfl
  exact absurd (stranded.2 (by decide)) (by decide)

end EpollReactor

end SkAsync.Posix

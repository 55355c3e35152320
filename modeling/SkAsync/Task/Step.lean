import SkAsync.Task.Invariant

/-!
# The steps of a flow

What a flow on top of a stack does keeps the invariant: it goes on, it ends, or it starts
another flow.  A step of each kind is given by what it may change.
-/

namespace SkAsync.Coroutine

open SkAsync.Library

variable {β α ε γ : Type}

/-! ## A flow goes on -/

/-- The flow on top goes on with a coroutine of its own. -/
structure OwnStep (respond : γ → Except ε α → Prop) (process process' : Process β α ε γ)
    (runner : Nat) (top top' : Activity) (below : List Activity) : Prop where
  running : process.runners runner = .running top below
  flow_eq : top'.flow = top.flow
  frames_kept : ∀ {handle frame}, process.frames handle = some frame → frame.flow ≠ top.flow →
    process'.frames handle = some frame
  frames_lt : ∀ {handle frame}, process'.frames handle = some frame → handle < process'.nextFrame
  calls_from : ∀ {call state}, process'.calls call = some state → process.calls call = some state
  calls_kept : ∀ {call state}, process.calls call = some state →
    state.flow ≠ top.flow ∨ state.resumed = false → process'.calls call = some state
  flows_eq : process'.flows = process.flows ∨
    ∃ exchange, process'.flows = (process.log top.flow exchange).flows ∧
      ∀ {flow}, process.flows top.flow = some flow → Fits respond flow.xer exchange
  rest : process' = { process with
    frames := process'.frames
    nextFrame := process'.nextFrame
    calls := process'.calls
    flows := process'.flows
    runners := Function.update process.runners runner (.running top' below) }

/-- The flows after one of them was changed. -/
theorem update_map_eq_some_iff {flows : Nat → Option (Flow β α ε γ)} {identity other : Nat}
    {change : Flow β α ε γ → Flow β α ε γ} {flow' : Flow β α ε γ} :
    Function.update flows identity ((flows identity).map change) other = some flow' ↔
      ∃ flow, flows other = some flow ∧ flow' = if other = identity then change flow else flow := by
  by_cases same : other = identity
  · subst same
    simp [eq_comm]
  · simp [same]

namespace OwnStep

variable {respond : γ → Except ε α → Prop} {process process' : Process β α ε γ} {runner : Nat}
  {top top' : Activity} {below : List Activity} {task : Task β γ} {nthreads : Nat}

theorem flow_continues (step : OwnStep respond process process' runner top top' below) {identity : Nat}
    {flow : Flow β α ε γ} (found : process.flows identity = some flow) :
    ∃ flow', process'.flows identity = some flow' ∧ flow.Continues flow' ∧
      flow'.outcome = flow.outcome ∧ (identity ≠ top.flow → flow' = flow) := by
  rcases step.flows_eq with same | ⟨exchange, logged, _⟩
  · rw [same]
    exact ⟨flow, found, .refl flow, rfl, fun _ => rfl⟩
  · rw [logged]
    refine ⟨_, update_map_eq_some_iff.mpr ⟨flow, found, rfl⟩, ?_⟩
    split
    next same => exact ⟨⟨rfl, rfl, rfl⟩, rfl, absurd same⟩
    next => exact ⟨.refl flow, rfl, fun _ => rfl⟩

/-- No flow is new. -/
theorem exists_flow (step : OwnStep respond process process' runner top top' below) {identity : Nat}
    {flow' : Flow β α ε γ} (found : process'.flows identity = some flow') :
    ∃ flow, process.flows identity = some flow := by
  rcases step.flows_eq with same | ⟨exchange, logged, _⟩
  · rw [same] at found
    exact ⟨flow', found⟩
  · rw [logged] at found
    rcases update_map_eq_some_iff.mp found with ⟨flow, before, _⟩
    exact ⟨flow, before⟩

theorem leaves (step : OwnStep respond process process' runner top top' below) :
    Leaves process process' runner top below (.running top' below) := by
  constructor
  · exact step.running
  · intro identity differs _
    constructor
    · cases found : process.flows identity with
      | some flow =>
          rcases step.flow_continues found with ⟨flow', found', _, _, same⟩
          rw [found', same differs]
      | none =>
          cases found' : process'.flows identity with
          | none => rfl
          | some flow' =>
              rcases step.exists_flow found' with ⟨flow, impossible⟩
              rw [found] at impossible
              cases impossible
    · intro handle frame found own
      apply step.frames_kept found
      rwa [own]
    · intro call state found own
      refine ⟨state, step.calls_kept found (.inl ?_), .refl state⟩
      rwa [own]
  · intro identity flow found
    rcases step.flow_continues found with ⟨flow', found', continues, _⟩
    exact ⟨flow', found', continues⟩
  · exact step.calls_from
  · exact fun found waits => step.calls_kept found (.inr waits)
  · rw [step.rest]
  · rw [step.rest]
  · trivial

theorem held_eq (step : OwnStep respond process process' runner top top' below) :
    process'.held = process.held := by
  funext place
  cases place with
  | call call => rw [Process.held, Process.held, step.leaves.standing_call]
  | slot other depth =>
      by_cases same : other = runner
      · subst same
        rw [Process.held, Process.held, Process.standing, Process.standing,
          step.leaves.runners_eq, Function.update_self, step.running]
        by_cases onTop : depth = below.length
        · subst onTop
          simp [Runner.stack, step.flow_eq]
        · simp [Runner.stack, onTop]
      · rw [Process.held, Process.held, step.leaves.standing_slot same]

variable [Inhabited α] {user : β → Statement β α ε γ}

theorem fits (step : OwnStep respond process process' runner top top' below)
    (answered : Answered user respond process) {identity : Nat} {flow' : Flow β α ε γ}
    {exchange : Exchange β α ε γ} (found' : process'.flows identity = some flow')
    (member : exchange ∈ flow'.log) : Fits respond flow'.xer exchange := by
  rcases step.flows_eq with same | ⟨added, logged, fits⟩
  · rw [same] at found'
    exact answered.fits found' member
  · rw [logged] at found'
    rcases update_map_eq_some_iff.mp found' with ⟨flow, found, rfl⟩
    split at member
    next same =>
      rw [if_pos same]
      rcases List.mem_append.mp member with before | isAdded
      · have fitted := answered.fits found before
        exact fitted
      · rw [List.mem_singleton.mp isAdded]
        rw [same] at found
        have fitted := fits found
        exact fitted
    next differs =>
      rw [if_neg differs]
      exact answered.fits found member

/-- It is enough that the flow on top is again where its program leads. -/
theorem invariant (step : OwnStep respond process process' runner top top' below)
    (invariant : Invariant user respond task nthreads process)
    (stands : Stands user process' ⟨top', .goesOn⟩) : Invariant user respond task nthreads process' := by
  have leaves := step.leaves
  have nextFlow_eq : process'.nextFlow = process.nextFlow := by rw [step.rest]
  have ended_eq : process'.ended = process.ended := by rw [step.rest]
  have outcome : ∀ {flow'}, process'.flows top.flow = some flow' → flow'.outcome = none := by
    intro flow' found'
    rcases step.exists_flow found' with ⟨flow, found⟩
    rcases step.flow_continues found with ⟨flow'', found'', _, outcome_eq, _⟩
    rw [found'] at found''
    cases found''
    rw [outcome_eq]
    exact invariant.answered.outcome_eq_none invariant.placed
      (Process.held_eq_some (Process.standing_running step.running)) found
  constructor
  · rw [step.rest]
    exact invariant.misuse_eq
  · rw [step.rest]
    exact invariant.terminated_eq
  · constructor
    · exact step.frames_lt
    · rw [step.rest]
      exact fun found => invariant.counted.calls_lt (step.calls_from found)
    · intro identity flow' found'
      rw [nextFlow_eq]
      exact invariant.counted.flows_lt (step.exists_flow found').choose_spec
  · constructor
    · rw [step.held_eq, nextFlow_eq, ended_eq]
      exact invariant.placed.custody
    · apply leaves.stands invariant.placed
      intro depth standing found
      by_cases onTop : depth = below.length
      · subst onTop
        rw [Runner.stack, Function.update_self] at found
        cases found
        exact stands
      · rw [Runner.stack, Function.update_of_ne onTop] at found
        exact leaves.starts_stands invariant.placed found
  · constructor
    · intro identity flow' found'
      rcases step.exists_flow found' with ⟨flow, found⟩
      rcases step.flow_continues found with ⟨flow'', found'', _, outcome_eq, _⟩
      rw [found'] at found''
      cases found''
      rw [ended_eq, outcome_eq]
      exact invariant.answered.ended_iff found
    · intro identity flow' result found' ended
      rcases step.exists_flow found' with ⟨flow, found⟩
      by_cases same : identity = top.flow
      · subst same
        rw [outcome found'] at ended
        cases ended
      · rcases step.flow_continues found with ⟨flow'', found'', _, _, unchanged⟩
        rw [found'] at found''
        cases found''
        rw [unchanged same] at ended ⊢
        exact invariant.answered.evaluates found ended
    · intro identity flow' exchange found' member
      exact step.fits invariant.answered found' member
    · exact fun found => invariant.answered.called (step.calls_from found)
  · exact leaves.work invariant.work
  · exact leaves.locks invariant.placed invariant.locks
  · apply leaves.root invariant.placed invariant.answered invariant.root
    intro flow result isMain found ended
    rw [← isMain] at found
    rw [outcome found] at ended
    cases ended
  · exact leaves.crew invariant.crew

end OwnStep

/-! ## A flow ends -/

/-- The flow on top ends. -/
structure EndStep (process process' : Process β α ε γ) (runner : Nat) (top : Activity)
    (below : List Activity) (result : Except ε α) : Prop where
  running : process.runners runner = .running top below
  frames_kept : ∀ {handle frame}, process.frames handle = some frame → frame.flow ≠ top.flow →
    process'.frames handle = some frame
  frames_lt : ∀ {handle frame}, process'.frames handle = some frame → handle < process'.nextFrame
  rest : process' = { process.settle top.flow result with
    frames := process'.frames
    runners := Function.update process.runners runner (Process.pop below) }

namespace EndStep

variable {process process' : Process β α ε γ} {runner : Nat} {top : Activity}
  {below : List Activity} {result : Except ε α} {task : Task β γ} {nthreads : Nat}

theorem flows_eq_some_iff (step : EndStep process process' runner top below result)
    {identity : Nat} {flow' : Flow β α ε γ} :
    process'.flows identity = some flow' ↔ ∃ flow, process.flows identity = some flow ∧
      flow' = if identity = top.flow then { flow with outcome := some result } else flow := by
  rw [step.rest]
  exact update_map_eq_some_iff

theorem leaves (step : EndStep process process' runner top below result) :
    Leaves process process' runner top below (Process.pop below) := by
  have calls_eq : process'.calls = process.calls := by rw [step.rest]; rfl
  constructor
  · exact step.running
  · intro identity differs _
    constructor
    · rw [step.rest]
      exact Function.update_of_ne differs ..
    · intro handle frame found own
      apply step.frames_kept found
      rwa [own]
    · intro call state found _
      rw [calls_eq]
      exact ⟨state, found, .refl state⟩
  · intro identity flow found
    refine ⟨_, step.flows_eq_some_iff.mpr ⟨flow, found, rfl⟩, ?_⟩
    split
    next => exact ⟨rfl, rfl, rfl⟩
    next => exact .refl flow
  · rw [calls_eq]
    exact id
  · rw [calls_eq]
    exact fun found _ => found
  · rw [step.rest]
    rfl
  · rw [step.rest]
  · exact Process.pop_goes below

theorem held_eq (step : EndStep process process' runner top below result) :
    process'.held = Function.update process.held (.slot runner below.length) none := by
  funext place
  cases place with
  | call call =>
      rw [Function.update_of_ne (by rintro ⟨⟩), Process.held, Process.held,
        step.leaves.standing_call]
  | slot other depth =>
      by_cases same : other = runner
      · subst same
        by_cases onTop : depth = below.length
        · subst onTop
          rw [Function.update_self, Process.held, Process.standing, step.leaves.runners_eq,
            Function.update_self, pop_stack_flow, starts_eq_none (Nat.le_refl _)]
          rfl
        · rw [Function.update_of_ne (by rintro ⟨⟩; exact onTop rfl), Process.held, Process.held,
            Process.standing, Process.standing, step.leaves.runners_eq, Function.update_self,
            pop_stack_flow, step.running, Runner.stack, Function.update_of_ne onTop]
      · rw [Function.update_of_ne (by rintro ⟨⟩; exact same rfl), Process.held, Process.held,
          step.leaves.standing_slot same]

variable [Inhabited α] {user : β → Statement β α ε γ} {respond : γ → Except ε α → Prop}

/-- What it ends with has to be the result of its program, and to be found in the frame of
the main task if it is this that has ended. -/
theorem invariant (step : EndStep process process' runner top below result)
    (invariant : Invariant user respond task nthreads process)
    (evaluates : ∀ {flow}, process.flows top.flow = some flow →
      Evaluates (program user) flow.task.entry flow.log result)
    (main : top.flow = 0 → ∃ frame, process'.frames 0 = some frame ∧ frame.flow = 0 ∧
      frame.point = .final ∧ frame.promise.awaitResume = result) :
    Invariant user respond task nthreads process' := by
  have leaves := step.leaves
  have nextFlow_eq : process'.nextFlow = process.nextFlow := by rw [step.rest]; rfl
  have ended_eq : process'.ended = process.ended ++ [top.flow] := by rw [step.rest]; rfl
  constructor
  · rw [step.rest]
    exact invariant.misuse_eq
  · rw [step.rest]
    exact invariant.terminated_eq
  · constructor
    · exact step.frames_lt
    · rw [step.rest]
      exact invariant.counted.calls_lt
    · intro identity flow' found'
      rcases step.flows_eq_some_iff.mp found' with ⟨flow, found, _⟩
      rw [nextFlow_eq]
      exact invariant.counted.flows_lt found
  · constructor
    · rw [step.held_eq, nextFlow_eq, ended_eq]
      exact invariant.placed.custody.settle
        (Process.held_eq_some (Process.standing_running step.running)) List.perm_append_comm
    · apply leaves.stands invariant.placed
      intro depth standing found
      rcases pop_stack_eq_some found with found' | ⟨activity, rfl, found'⟩
      · exact leaves.starts_stands invariant.placed found'
      · exact (leaves.starts_stands invariant.placed found').goesOn
  · constructor
    · intro identity flow' found'
      rcases step.flows_eq_some_iff.mp found' with ⟨flow, found, rfl⟩
      rw [ended_eq, List.mem_append, List.mem_singleton, invariant.answered.ended_iff found]
      by_cases same : identity = top.flow
      · simp [same]
      · simp [same]
    · intro identity flow' result' found' ended
      rcases step.flows_eq_some_iff.mp found' with ⟨flow, found, rfl⟩
      by_cases same : identity = top.flow
      · subst same
        rw [if_pos rfl] at ended ⊢
        cases ended
        have evaluated := evaluates found
        exact evaluated
      · rw [if_neg same] at ended ⊢
        exact invariant.answered.evaluates found ended
    · intro identity flow' exchange found' member
      rcases step.flows_eq_some_iff.mp found' with ⟨flow, found, rfl⟩
      split at member
      next same =>
        rw [if_pos same]
        have fits := invariant.answered.fits found member
        exact fits
      next differs =>
        rw [if_neg differs]
        exact invariant.answered.fits found member
    · rw [step.rest]
      exact invariant.answered.called
  · exact leaves.work invariant.work
  · exact leaves.locks invariant.placed invariant.locks
  · apply leaves.root invariant.placed invariant.answered invariant.root
    intro flow result' isMain found ended
    rcases step.flows_eq_some_iff.mp found with ⟨flow', _, rfl⟩
    rw [if_pos isMain.symm] at ended
    cases ended
    exact main isMain
  · exact leaves.crew invariant.crew

end EndStep

/-! ## A flow starts another -/

/-- The flow on top starts a new one. -/
structure StartStep (process process' : Process β α ε γ) (runner : Nat) (top started : Activity)
    (below : List Activity) (flow : Flow β α ε γ) : Prop where
  running : process.runners runner = .running top below
  flow_eq : started.flow = process.nextFlow
  outcome_eq : flow.outcome = none
  log_eq : flow.log = []
  frames_kept : ∀ {handle frame}, process.frames handle = some frame → frame.flow ≠ top.flow →
    process'.frames handle = some frame
  frames_lt : ∀ {handle frame}, process'.frames handle = some frame → handle < process'.nextFrame
  rest : process' = { process with
    frames := process'.frames
    nextFrame := process'.nextFrame
    flows := Function.update process.flows process.nextFlow (some flow)
    nextFlow := process.nextFlow + 1
    runners := Function.update process.runners runner (.running started (top :: below)) }

namespace StartStep

variable {process process' : Process β α ε γ} {runner : Nat} {top started : Activity}
  {below : List Activity} {flow : Flow β α ε γ} {task : Task β γ} {nthreads : Nat}

theorem flows_eq_some_iff (step : StartStep process process' runner top started below flow)
    {identity : Nat} {flow' : Flow β α ε γ} :
    process'.flows identity = some flow' ↔ identity = process.nextFlow ∧ some flow = some flow' ∨
      identity ≠ process.nextFlow ∧ process.flows identity = some flow' := by
  rw [step.rest]
  exact Custody.update_eq_some_iff

theorem leaves (step : StartStep process process' runner top started below flow)
    (counted : Counted process) :
    Leaves process process' runner top below (.running started (top :: below)) := by
  have calls_eq : process'.calls = process.calls := by rw [step.rest]
  constructor
  · exact step.running
  · intro identity differs inside
    constructor
    · rw [step.rest]
      exact Function.update_of_ne inside.ne ..
    · intro handle frame found own
      apply step.frames_kept found
      rwa [own]
    · intro call state found _
      rw [calls_eq]
      exact ⟨state, found, .refl state⟩
  · intro identity flow' found
    have isOld := (counted.flows_lt found).ne
    exact ⟨flow', step.flows_eq_some_iff.mpr (.inr ⟨isOld, found⟩), .refl flow'⟩
  · rw [calls_eq]
    exact id
  · rw [calls_eq]
    exact fun found _ => found
  · rw [step.rest]
  · rw [step.rest]
  · trivial

theorem held_eq (step : StartStep process process' runner top started below flow)
    (counted : Counted process) :
    process'.held =
      Function.update process.held (.slot runner (below.length + 1)) (some process.nextFlow) := by
  have leaves := step.leaves counted
  funext place
  cases place with
  | call call =>
      rw [Function.update_of_ne (by rintro ⟨⟩), Process.held, Process.held, leaves.standing_call]
  | slot other depth =>
      by_cases same : other = runner
      · subst same
        by_cases onTop : depth = below.length + 1
        · subst onTop
          rw [Function.update_self, Process.held, Process.standing, leaves.runners_eq,
            Function.update_self]
          simp [Runner.stack, step.flow_eq]
        · rw [Function.update_of_ne (by rintro ⟨⟩; exact onTop rfl), Process.held, Process.held,
            Process.standing, Process.standing, leaves.runners_eq, Function.update_self,
            step.running]
          by_cases isTop : depth = below.length
          · subst isTop
            simp [Runner.stack, starts]
          · simp [Runner.stack, starts, onTop, isTop]
      · rw [Function.update_of_ne (by rintro ⟨⟩; exact same rfl), Process.held, Process.held,
          leaves.standing_slot same]

variable [Inhabited α] {user : β → Statement β α ε γ} {respond : γ → Except ε α → Prop}

/-- Both flows have to be where their programs lead. -/
theorem invariant (step : StartStep process process' runner top started below flow)
    (invariant : Invariant user respond task nthreads process)
    (stands : Stands user process' ⟨top, .inStart⟩)
    (stands' : Stands user process' ⟨started, .goesOn⟩) : Invariant user respond task nthreads process' := by
  have leaves := step.leaves invariant.counted
  have nextFlow_eq : process'.nextFlow = process.nextFlow + 1 := by rw [step.rest]
  have ended_eq : process'.ended = process.ended := by rw [step.rest]
  have isNew : process.nextFlow ∉ List.range process.nextFlow := by
    rw [List.mem_range]
    exact Nat.lt_irrefl _
  constructor
  · rw [step.rest]
    exact invariant.misuse_eq
  · rw [step.rest]
    exact invariant.terminated_eq
  · constructor
    · exact step.frames_lt
    · rw [step.rest]
      exact invariant.counted.calls_lt
    · intro identity flow' found
      rw [nextFlow_eq]
      rcases step.flows_eq_some_iff.mp found with ⟨rfl, _⟩ | ⟨_, found'⟩
      · exact Nat.lt_succ_self _
      · exact (invariant.counted.flows_lt found').trans (Nat.lt_succ_self _)
  · constructor
    · rw [step.held_eq invariant.counted, nextFlow_eq, ended_eq]
      apply invariant.placed.custody.take _ isNew
      · intro other
        rw [List.mem_range, List.mem_range, Nat.lt_succ_iff_lt_or_eq, or_comm]
      · rw [Process.held, Process.standing, step.running, Runner.stack,
          Function.update_of_ne (Nat.succ_ne_self _), starts_eq_none (Nat.le_succ _)]
        rfl
    · apply leaves.stands invariant.placed
      intro depth standing found
      by_cases onTop : depth = below.length + 1
      · subst onTop
        rw [Runner.stack, List.length_cons, Function.update_self] at found
        cases found
        exact stands'
      · rw [Runner.stack, List.length_cons, Function.update_of_ne onTop] at found
        by_cases isTop : depth = below.length
        · subst isTop
          rw [starts, Function.update_self] at found
          cases found
          exact stands
        · rw [starts, Function.update_of_ne isTop] at found
          exact leaves.starts_stands invariant.placed found
  · constructor
    · intro identity flow' found
      rw [ended_eq]
      rcases step.flows_eq_some_iff.mp found with ⟨rfl, ⟨⟩⟩ | ⟨_, found'⟩
      · rw [step.outcome_eq]
        constructor
        · exact fun ended => absurd (invariant.placed.custody.settled_arrived _ ended) isNew
        · rintro ⟨⟩
      · exact invariant.answered.ended_iff found'
    · intro identity flow' result found ended
      rcases step.flows_eq_some_iff.mp found with ⟨_, ⟨⟩⟩ | ⟨_, found'⟩
      · rw [step.outcome_eq] at ended
        cases ended
      · exact invariant.answered.evaluates found' ended
    · intro identity flow' exchange found member
      rcases step.flows_eq_some_iff.mp found with ⟨_, ⟨⟩⟩ | ⟨_, found'⟩
      · rw [step.log_eq] at member
        cases member
      · exact invariant.answered.fits found' member
    · rw [step.rest]
      exact invariant.answered.called
  · exact leaves.work invariant.work
  · exact leaves.locks invariant.placed invariant.locks
  · apply leaves.root invariant.placed invariant.answered invariant.root
    intro flow' result isMain found ended
    rcases step.flows_eq_some_iff.mp found with ⟨_, ⟨⟩⟩ | ⟨_, found'⟩
    · rw [step.outcome_eq] at ended
      cases ended
    · rw [← isMain] at found'
      have held := Process.held_eq_some (Process.standing_running step.running)
      rw [invariant.answered.outcome_eq_none invariant.placed held found'] at ended
      cases ended
  · exact leaves.crew invariant.crew

end StartStep

/-! ## What the flow on top does -/

/-- The flow on top goes on, ends or starts another. -/
inductive Moves [Inhabited α] (user : β → Statement β α ε γ) (respond : γ → Except ε α → Prop)
    (process process' : Process β α ε γ) (runner : Nat) (top : Activity)
    (below : List Activity) : Prop
  | goesOn {top' : Activity} :
      OwnStep respond process process' runner top top' below →
        Stands user process' ⟨top', .goesOn⟩ → Moves user respond process process' runner top below
  | ends {result : Except ε α} :
      EndStep process process' runner top below result →
        (∀ {flow}, process.flows top.flow = some flow →
          Evaluates (program user) flow.task.entry flow.log result) →
        (top.flow = 0 → ∃ frame, process'.frames 0 = some frame ∧ frame.flow = 0 ∧
          frame.point = .final ∧ frame.promise.awaitResume = result) →
            Moves user respond process process' runner top below
  | starts {started : Activity} {flow : Flow β α ε γ} :
      StartStep process process' runner top started below flow →
        Requested user process flow →
          Stands user process' ⟨top, .inStart⟩ → Stands user process' ⟨started, .goesOn⟩ →
            Moves user respond process process' runner top below

namespace Moves

variable [Inhabited α] {user : β → Statement β α ε γ} {respond : γ → Except ε α → Prop}
  {process process' : Process β α ε γ} {runner : Nat} {top : Activity} {below : List Activity}
  {task : Task β γ} {nthreads : Nat}

theorem invariant (moves : Moves user respond process process' runner top below)
    (invariant : Invariant user respond task nthreads process) :
    Invariant user respond task nthreads process' := by
  cases moves with
  | goesOn step stands => exact step.invariant invariant stands
  | ends step evaluates main => exact step.invariant invariant evaluates main
  | starts step _ stands stands' => exact step.invariant invariant stands stands'

theorem steps (moves : Moves user respond process process' runner top below)
    (invariant : Invariant user respond task nthreads process) :
    Steps user respond task nthreads process process' := by
  constructor
  · exact .inl (moves.invariant invariant)
  · intro identity flow' found
    cases moves with
    | goesOn step =>
        rcases step.exists_flow found with ⟨flow, before⟩
        rcases step.flow_continues before with ⟨flow'', found', continues, _⟩
        rw [found] at found'
        cases found'
        exact .inl ⟨flow, before, continues⟩
    | ends step =>
        rcases step.flows_eq_some_iff.mp found with ⟨flow, before, rfl⟩
        refine .inl ⟨flow, before, ?_⟩
        split
        next => exact ⟨rfl, rfl, rfl⟩
        next => exact .refl flow
    | starts step requested =>
        rcases step.flows_eq_some_iff.mp found with ⟨_, ⟨⟩⟩ | ⟨_, before⟩
        · exact .inr requested
        · exact .inl ⟨flow', before, .refl flow'⟩
  · intro call state exception found waits _
    cases moves with
    | goesOn step => exact step.leaves.calls_kept found waits
    | ends step => exact step.leaves.calls_kept found waits
    | starts step => exact (step.leaves invariant.counted).calls_kept found waits

end Moves

end SkAsync.Coroutine

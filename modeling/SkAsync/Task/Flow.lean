import SkAsync.Library.Custody
import SkAsync.Task.Process

/-!
# Where a flow is

A flow that has not ended is on the stack of a thread, or waits for the call that one of
its coroutines has made.  Wherever it is, its frames are linked like the stack of a
procedure that calls others, and this procedure has got there with the answers that the
flow was given.  What the other flows do does not change this.
-/

namespace SkAsync.Coroutine

open SkAsync.Library

variable {β α ε γ : Type}

/-! ## Places -/

/-- The thread has posted its work. -/
def Phase.HasPosted : Phase α ε → Prop
  | .posted _ => True
  | .ready _ => True
  | _ => False

/-- How a flow is in its place. -/
inductive Mode
  /-- On top of a stack. -/
  | goesOn
  /-- In a call of `start()`. -/
  | inStart
  | waiting (call : Nat)

/-- The coroutine in which a flow goes on, and how the flow is in its place. -/
structure Standing where
  activity : Activity
  mode : Mode

/-- The calls of `start()` on a stack, by their depth. -/
def starts : List Activity → Nat → Option Standing
  | [] => fun _ => none
  | top :: below => Function.update (starts below) below.length (some ⟨top, .inStart⟩)

theorem starts_eq_none {below : List Activity} {depth : Nat} (outside : below.length ≤ depth) :
    starts below depth = none := by
  induction below with
  | nil => rfl
  | cons top below ih =>
      rw [List.length_cons] at outside
      have above : below.length < depth := outside
      rw [starts, Function.update_of_ne above.ne', ih above.le]

/-- The stack of a thread, by depth.  A coroutine that has suspended is not on it. -/
def Runner.stack : Runner α ε → Nat → Option Standing
  | .running top below => Function.update (starts below) below.length (some ⟨top, .goesOn⟩)
  | .suspending _ below => starts below
  | _ => fun _ => none

/-- What a call of `resume()` that has returned leaves on the stack. -/
theorem pop_stack_eq_some {below : List Activity} {depth : Nat} {standing : Standing}
    (found : (Process.pop below : Runner α ε).stack depth = some standing) :
    starts below depth = some standing ∨ ∃ activity, standing = ⟨activity, .goesOn⟩ ∧
      starts below depth = some ⟨activity, .inStart⟩ := by
  cases below with
  | nil => cases found
  | cons top below =>
      by_cases onTop : depth = below.length
      · subst onTop
        rw [Process.pop, Runner.stack, Function.update_self] at found
        cases found
        exact .inr ⟨top, rfl, Function.update_self ..⟩
      · rw [Process.pop, Runner.stack, Function.update_of_ne onTop] at found
        exact .inl ((Function.update_of_ne onTop ..).trans found)

theorem pop_stack_flow (below : List Activity) (depth : Nat) :
    ((Process.pop below : Runner α ε).stack depth).map (fun standing => standing.activity.flow) =
      (starts below depth).map fun standing => standing.activity.flow := by
  cases below with
  | nil => rfl
  | cons top below =>
      by_cases onTop : depth = below.length
      · subst onTop
        simp [Process.pop, Runner.stack, starts]
      · simp [Process.pop, Runner.stack, starts, onTop]

/-- The places for flows. -/
inductive Place
  | slot (runner depth : Nat)
  | call (call : Nat)
  deriving DecidableEq, Repr

/-- What waits for a call. -/
def Call.standing (call : Nat) (state : Call α ε γ) : Option Standing :=
  if state.resumed then none else some ⟨⟨state.frame, state.flow⟩, .waiting call⟩

/-- What is in a place. -/
def Process.standing (process : Process β α ε γ) : Place → Option Standing
  | .slot runner depth => (process.runners runner).stack depth
  | .call call => (process.calls call).bind (Call.standing call)

section Changed

variable {process process' : Process β α ε γ}

theorem Process.standing_slot_self {runner depth : Nat} {now : Runner α ε}
    (changed : process'.runners = Function.update process.runners runner now) :
    process'.standing (.slot runner depth) = now.stack depth := by
  rw [Process.standing, changed, Function.update_self]

theorem Process.standing_slot_of_ne {runner other depth : Nat} {now : Runner α ε}
    (changed : process'.runners = Function.update process.runners runner now)
    (differs : other ≠ runner) :
    process'.standing (.slot other depth) = process.standing (.slot other depth) := by
  rw [Process.standing, Process.standing, changed, Function.update_of_ne differs]

theorem Process.standing_call_self {call : Nat} {state : Call α ε γ}
    (changed : process'.calls = Function.update process.calls call (some state)) :
    process'.standing (.call call) = Call.standing call state := by
  rw [Process.standing, changed, Function.update_self]
  rfl

theorem Process.standing_call_of_ne {call other : Nat} {state : Option (Call α ε γ)}
    (changed : process'.calls = Function.update process.calls call state)
    (differs : other ≠ call) :
    process'.standing (.call other) = process.standing (.call other) := by
  rw [Process.standing, Process.standing, changed, Function.update_of_ne differs]

end Changed

/-- The flow in a place. -/
def Process.held (process : Process β α ε γ) (place : Place) : Option Nat :=
  (process.standing place).map fun standing => standing.activity.flow

/-! ## What a flow stands for -/

/-- The coroutine that a task at the bottom of a flow goes back to. -/
def Rooted (frames : Frames β α ε γ) (identity bottom : Nat) : Prop :=
  ∃ frame, frames bottom = some frame ∧ frame.flow = identity ∧
    (identity = 0 ∧ frame.promise.previous = none ∨
      identity ≠ 0 ∧ ∃ detach owner, frame.promise.previous = some detach ∧ bottom < detach ∧
        frames detach = some owner ∧ owner.flow = identity ∧
          owner.point = .detached bottom ∧
            (frame.point ≠ .final → owner.suspended = true))

/-- What a frame and those below it stand for, if it is that of the coroutine in which
a flow goes on. -/
inductive Shows [Inhabited α] (user : β → Statement β α ε γ) (process : Process β α ε γ)
    (flow : Flow β α ε γ) (activity : Activity) (frame : Frame β α ε γ) :
    Activation (Position β α ε γ) (Except ε α) → Prop
  | at {position : Position β α ε γ} {callers : List (Except ε α → Position β α ε γ)} :
      frame.point = .at position →
        Chain process.frames activity.flow flow.xer flow.bottom activity.handle callers →
          Shows user process flow activity frame ⟨.run position, callers⟩
  | awaiting {task : Nat} {next : Except ε α → Position β α ε γ} {ended : Frame β α ε γ}
      {result : Except ε α} {callers : List (Except ε α → Position β α ε γ)} :
      frame.point = .awaiting task next → process.frames task = some ended →
        ended.flow = activity.flow → ended.point = .final → ended.promise.awaitResume = result →
          activity.handle < task →
            Chain process.frames activity.flow flow.xer flow.bottom activity.handle callers →
              Shows user process flow activity frame ⟨.ret result, next :: callers⟩
  | invoking {call : Nat} {locked : Bool} {next : Except ε α → Position β α ε γ}
      {position : Position β α ε γ} {state : Call α ε γ}
      {callers : List (Except ε α → Position β α ε γ)} :
      frame.point = .invoking call locked next →
        program user position = .request (.invoke state.callable) next →
          process.calls call = some state → state.flow = activity.flow →
            Chain process.frames activity.flow flow.xer flow.bottom activity.handle callers →
              Shows user process flow activity frame ⟨.run position, callers⟩
  | starting {task : Task β γ} {xer : Option Executor} {next : Except ε Unit → Position β α ε γ}
      {position : Position β α ε γ} {callers : List (Except ε α → Position β α ε γ)} :
      frame.point = .starting task xer next →
        program user position = .request (.start task xer) next →
          Chain process.frames activity.flow flow.xer flow.bottom activity.handle callers →
            Shows user process flow activity frame ⟨.run position, callers⟩
  | detached {ended : Frame β α ε γ} {result : Except ε α} :
      frame.point = .detached flow.bottom → process.frames flow.bottom = some ended →
        ended.flow = activity.flow → ended.point = .final → ended.promise.awaitResume = result →
          ended.promise.previous = some activity.handle → flow.bottom < activity.handle →
            Shows user process flow activity frame ⟨.ret result, []⟩

/-- What a way to be in a place says about the frame. -/
def Mode.Allows (process : Process β α ε γ) (frame : Frame β α ε γ) : Mode → Prop
  -- Behind `co_await` of an awaiter, the thread of this has posted the work.
  | .goesOn => frame.suspended = false ∧ ∀ call locked next, frame.point = .invoking call locked next →
      ∃ state, process.calls call = some state ∧ state.flow = frame.flow ∧
        state.resumed = true ∧ state.phase.HasPosted
  | .inStart => frame.suspended = false ∧ ∃ task xer next, frame.point = .starting task xer next
  | .waiting call => frame.suspended = true ∧ ∃ locked next, frame.point = .invoking call locked next

/-- A flow has got where it is by following its program. -/
structure Located [Inhabited α] (user : β → Statement β α ε γ) (process : Process β α ε γ)
    (standing : Standing) (flow : Flow β α ε γ) (frame : Frame β α ε γ)
    (activation : Activation (Position β α ε γ) (Except ε α)) : Prop where
  flow_found : process.flows standing.activity.flow = some flow
  frame_found : process.frames standing.activity.handle = some frame
  own : frame.flow = standing.activity.flow
  allows : standing.mode.Allows process frame
  shows : Shows user process flow standing.activity frame activation
  runs : Runs (program user) ⟨.run flow.task.entry, []⟩ flow.log activation
  rooted : Rooted process.frames standing.activity.flow flow.bottom

/-- What holds of what is in a place. -/
def Stands [Inhabited α] (user : β → Statement β α ε γ) (process : Process β α ε γ)
    (standing : Standing) : Prop :=
  ∃ flow frame activation, Located user process standing flow frame activation

namespace Rooted

variable {frames : Frames β α ε γ} {identity bottom handle : Nat}

/-- A frame is allocated. -/
theorem setNew (rooted : Rooted frames identity bottom) (isNew : frames handle = none)
    (frame : Option (Frame β α ε γ)) :
    Rooted (Function.update frames handle frame) identity bottom := by
  have kept : ∀ {other frame'}, frames other = some frame' →
      Function.update frames handle frame other = some frame' := by
    intro other frame' found
    refine (Function.update_of_ne ?_ ..).trans found
    rintro rfl
    rw [isNew] at found
    cases found
  rcases rooted with ⟨frame, found, own, isMain | ⟨notMain, detach, owner, previous, newer,
    found', rest⟩⟩
  · exact ⟨frame, kept found, own, .inl isMain⟩
  · exact ⟨frame, kept found, own, .inr ⟨notMain, detach, owner, previous, newer, kept found', rest⟩⟩

/-- A task goes on or ends without changing its links. -/
theorem setTop (rooted : Rooted frames identity bottom) {frame frame' : Frame β α ε γ}
    (found : frames handle = some frame) (goesOn : frame.point ≠ .final)
    (isTask : ∀ task, frame.point ≠ .detached task) (own : frame'.flow = frame.flow)
    (previous : frame'.promise.previous = frame.promise.previous) :
    Rooted (Function.update frames handle (some frame')) identity bottom := by
  rcases rooted with ⟨root, root_found, root_own, links⟩
  have owner_kept : ∀ {detach owner}, frames detach = some owner →
      owner.point = .detached bottom →
        Function.update frames handle (some frame') detach = some owner := by
    intro detach owner owner_found point
    refine (Function.update_of_ne ?_ ..).trans owner_found
    rintro rfl
    rw [found] at owner_found
    cases owner_found
    exact isTask _ point
  by_cases same : bottom = handle
  · subst same
    rw [found] at root_found
    cases root_found
    refine ⟨frame', Function.update_self .., own.trans root_own, ?_⟩
    rw [previous]
    rcases links with isMain | ⟨notMain, detach, owner, previous', newer, owner_found, owner_own,
      point, suspended⟩
    · exact .inl isMain
    · exact .inr ⟨notMain, detach, owner, previous', newer, owner_kept owner_found point, owner_own,
        point, fun _ => suspended goesOn⟩
  · refine ⟨root, (Function.update_of_ne same ..).trans root_found, root_own, ?_⟩
    rcases links with isMain | ⟨notMain, detach, owner, previous', newer, owner_found, owner_own,
      point, suspended⟩
    · exact .inl isMain
    · exact .inr ⟨notMain, detach, owner, previous', newer, owner_kept owner_found point, owner_own,
        point, suspended⟩

/-- A task that has ended is destroyed. -/
theorem destroy (rooted : Rooted frames identity bottom) {frame : Frame β α ε γ}
    (found : frames handle = some frame) (ended : frame.point = .final)
    (above : bottom < handle) : Rooted (Function.update frames handle none) identity bottom := by
  rcases rooted with ⟨root, root_found, root_own, links⟩
  refine ⟨root, (Function.update_of_ne above.ne ..).trans root_found, root_own, ?_⟩
  rcases links with isMain | ⟨notMain, detach, owner, previous, newer, owner_found, owner_own,
    point, suspended⟩
  · exact .inl isMain
  · refine .inr ⟨notMain, detach, owner, previous, newer, ?_, owner_own, point, suspended⟩
    refine (Function.update_of_ne ?_ ..).trans owner_found
    rintro rfl
    rw [found] at owner_found
    cases owner_found
    rw [ended] at point
    cases point

end Rooted

/-! ## What other flows do -/

/-- A call goes on without a change to who waits for it. -/
structure Call.Follows (state state' : Call α ε γ) : Prop where
  frame_eq : state'.frame = state.frame
  callable_eq : state'.callable = state.callable
  taskExecutor_eq : state'.taskExecutor = state.taskExecutor
  flow_eq : state'.flow = state.flow
  resumed_eq : state'.resumed = state.resumed
  posted : state.phase.HasPosted → state'.phase.HasPosted

theorem Call.Follows.refl (state : Call α ε γ) : state.Follows state :=
  ⟨rfl, rfl, rfl, rfl, rfl, id⟩

/-- A flow is left alone, but for its calls. -/
structure Spares (process process' : Process β α ε γ) (identity : Nat) : Prop where
  flows_eq : process'.flows identity = process.flows identity
  frames_eq : ∀ {handle frame}, process.frames handle = some frame → frame.flow = identity →
    process'.frames handle = some frame
  calls_eq : ∀ {call state}, process.calls call = some state → state.flow = identity →
    ∃ state', process'.calls call = some state' ∧ state.Follows state'

section Spared

variable {process process' : Process β α ε γ} {identity bottom : Nat} {activity : Activity}

theorem Rooted.of_spares (rooted : Rooted process.frames identity bottom)
    (spares : Spares process process' identity) : Rooted process'.frames identity bottom := by
  rcases rooted with ⟨frame, found, own, isMain | ⟨notMain, detach, owner, previous, newer,
    found', own', rest⟩⟩
  · exact ⟨frame, spares.frames_eq found own, own, .inl isMain⟩
  · exact ⟨frame, spares.frames_eq found own, own, .inr ⟨notMain, detach, owner, previous,
      newer, spares.frames_eq found' own', own', rest⟩⟩

theorem Mode.Allows.of_spares {frame : Frame β α ε γ} {mode : Mode}
    (allows : mode.Allows process frame) (spares : Spares process process' frame.flow) :
    mode.Allows process' frame := by
  cases mode with
  | goesOn =>
      rcases allows with ⟨running, behind⟩
      refine ⟨running, fun call locked next point => ?_⟩
      rcases behind call locked next point with ⟨state, found, own, resumed, posted⟩
      rcases spares.calls_eq found own with ⟨state', found', follows⟩
      exact ⟨state', found', follows.flow_eq.trans own, follows.resumed_eq.trans resumed,
        follows.posted posted⟩
  | inStart => exact allows
  | waiting call => exact allows

variable [Inhabited α] {user : β → Statement β α ε γ}

theorem Shows.of_spares {flow : Flow β α ε γ} {frame : Frame β α ε γ}
    {activation : Activation (Position β α ε γ) (Except ε α)}
    (shows : Shows user process flow activity frame activation)
    (spares : Spares process process' activity.flow) :
    Shows user process' flow activity frame activation := by
  have chained : ∀ {callers}, Chain process.frames activity.flow flow.xer flow.bottom
      activity.handle callers → Chain process'.frames activity.flow flow.xer flow.bottom
        activity.handle callers :=
    fun chain => chain.congr fun other frame _ found own => spares.frames_eq found own
  cases shows with
  | «at» point chain => exact .at point (chained chain)
  | awaiting point found own final result newer chain =>
      exact .awaiting point (spares.frames_eq found own) own final result newer (chained chain)
  | invoking point command found own chain =>
      rcases spares.calls_eq found own with ⟨state', found', follows⟩
      rw [← follows.callable_eq] at command
      exact .invoking point command found' (follows.flow_eq.trans own) (chained chain)
  | starting point command chain => exact .starting point command (chained chain)
  | detached point found own final result previous newer =>
      exact .detached point (spares.frames_eq found own) own final result previous newer

theorem Stands.of_spares {standing : Standing} (stands : Stands user process standing)
    (spares : Spares process process' standing.activity.flow) :
    Stands user process' standing := by
  rcases stands with ⟨flow, frame, activation, located⟩
  refine ⟨flow, frame, activation, ?_⟩
  constructor
  · exact spares.flows_eq.trans located.flow_found
  · exact spares.frames_eq located.frame_found located.own
  · exact located.own
  · apply located.allows.of_spares
    rwa [located.own]
  · exact located.shows.of_spares spares
  · exact located.runs
  · exact located.rooted.of_spares spares

end Spared

section Started

variable [Inhabited α] {user : β → Statement β α ε γ} {process : Process β α ε γ}
  {activity : Activity}

/-- What `start()` leaves when it returns goes on. -/
theorem Located.goesOn {flow : Flow β α ε γ} {frame : Frame β α ε γ}
    {activation : Activation (Position β α ε γ) (Except ε α)}
    (located : Located user process ⟨activity, .inStart⟩ flow frame activation) :
    Located user process ⟨activity, .goesOn⟩ flow frame activation := by
  rcases located.allows with ⟨running, task, xer, next, point⟩
  refine { located with allows := ⟨running, ?_⟩ }
  intro call locked next' point'
  rw [point] at point'
  cases point'

theorem Stands.goesOn (stands : Stands user process ⟨activity, .inStart⟩) :
    Stands user process ⟨activity, .goesOn⟩ := by
  rcases stands with ⟨flow, frame, activation, located⟩
  exact ⟨flow, frame, activation, located.goesOn⟩

end Started

end SkAsync.Coroutine

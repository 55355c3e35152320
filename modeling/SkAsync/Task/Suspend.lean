import SkAsync.Task.Invariant

/-!
# Suspending and resuming a coroutine

`co_await` of an awaiter moves a flow from the stack of a thread to the call it waits
for, and the work of the call moves it to the stack of the thread that runs this.  The
mutex of the awaiter keeps the second behind the end of `await_suspend`.
-/

namespace SkAsync.Coroutine

open SkAsync.Library

variable {β α ε γ : Type} {process : Process β α ε γ} {runner : Nat} {top : Activity}
  {below : List Activity} {flow : Flow β α ε γ} {frame : Frame β α ε γ}
  {callers : List (Except ε α → Position β α ε γ)} {position : Position β α ε γ}

/-! ## The coroutine suspends -/

section Suspended

variable {callable : γ} {next : Except ε α → Position β α ε γ}

theorem Process.asyncInvoke_spares (counted : Counted process)
    (found : process.frames top.handle = some frame) (own : frame.flow = top.flow) {identity : Nat}
    (differs : identity ≠ top.flow) :
    Spares process (process.asyncInvoke runner top below frame callable next) identity := by
  constructor
  · rfl
  · intro handle other found' own'
    refine (Function.update_of_ne ?_ ..).trans found'
    rintro rfl
    rw [found] at found'
    cases found'
    exact differs (own'.symm.trans own)
  · intro call state found' _
    exact ⟨state, (Function.update_of_ne (counted.calls_lt found').ne ..).trans found', .refl state⟩

theorem Process.asyncInvoke_held (running : process.runners runner = .running top below) :
    (process.asyncInvoke runner top below frame callable next).held =
      Function.update (Function.update process.held (.call process.nextCall)
        (process.held (.slot runner below.length))) (.slot runner below.length) none := by
  have held := Process.held_eq_some (Process.standing_running running)
  funext place
  cases place with
  | call call =>
      rw [Function.update_of_ne (by rintro ⟨⟩)]
      by_cases same : call = process.nextCall
      · subst same
        rw [Function.update_self, held, Process.held, Process.standing_call_self rfl]
        rfl
      · rw [Function.update_of_ne (by rintro ⟨⟩; exact same rfl), Process.held, Process.held,
          Process.standing_call_of_ne rfl same]
        rfl
  | slot other depth =>
      by_cases same : other = runner
      · subst same
        rw [Process.held, Process.standing_slot_self rfl]
        by_cases onTop : depth = below.length
        · subst onTop
          rw [Function.update_self, Runner.stack, starts_eq_none (Nat.le_refl _)]
          rfl
        · rw [Function.update_of_ne (by rintro ⟨⟩; exact onTop rfl),
            Function.update_of_ne (by rintro ⟨⟩), Process.held, Process.standing, running,
            Runner.stack, Runner.stack, Function.update_of_ne onTop]
      · rw [Function.update_of_ne (by rintro ⟨⟩; exact same rfl),
          Function.update_of_ne (by rintro ⟨⟩), Process.held, Process.held,
          Process.standing_slot_of_ne rfl same]

variable [Inhabited α] {user : β → Statement β α ε γ} {respond : γ → Except ε α → Prop}
  {task : Task β γ} {nthreads : Nat}

theorem Placed.asyncInvoke (placed : Placed user process) (counted : Counted process)
    (running : process.runners runner = .running top below)
    (located : Located user process ⟨top, .goesOn⟩ flow frame ⟨.run position, callers⟩)
    (point : frame.point = .at position)
    (chain : Chain process.frames top.flow flow.xer flow.bottom top.handle callers)
    (command : program user position = .request (.invoke callable) next) :
    Placed user (process.asyncInvoke runner top below frame callable next) := by
  rcases chain.exists_frame with ⟨frame', frame_found, belongs⟩
  rw [located.frame_found] at frame_found
  cases frame_found
  have held := Process.held_eq_some (Process.standing_running running)
  have spares : ∀ {identity}, identity ≠ top.flow →
      Spares process (process.asyncInvoke runner top below frame callable next) identity :=
    Process.asyncInvoke_spares counted located.frame_found located.own
  have isNew : process.calls process.nextCall = none := by
    cases found : process.calls process.nextCall with
    | none => rfl
    | some state => exact absurd (counted.calls_lt found) (Nat.lt_irrefl _)
  constructor
  · rw [Process.asyncInvoke_held running]
    apply placed.custody.move
    rw [Process.held, Process.standing, isNew]
    rfl
  · intro place standing found
    cases place with
    | call call =>
        by_cases same : call = process.nextCall
        · subst same
          rw [Process.standing_call_self rfl] at found
          cases found
          refine ⟨flow, { frame with
            suspended := true, point := .invoking process.nextCall true next },
            ⟨.run position, callers⟩, ?_⟩
          constructor
          · exact located.flow_found
          · exact Function.update_self ..
          · exact located.own
          · exact ⟨rfl, true, next, rfl⟩
          · refine .invoking rfl command (Function.update_self ..) rfl ?_
            exact chain.setTop located.frame_found ⟨belongs.1, belongs.2, belongs.3⟩ rfl
          · exact located.runs
          · apply located.rooted.setTop located.frame_found
            · rw [point]
              rintro ⟨⟩
            · rw [point]
              rintro _ ⟨⟩
            · rfl
            · rfl
        · have unchanged :
              (process.asyncInvoke runner top below frame callable next).standing (.call call) =
                process.standing (.call call) := Process.standing_call_of_ne rfl same
          rw [unchanged] at found
          exact (placed.stands found).of_spares (spares (placed.flow_ne held found (by rintro ⟨⟩)))
    | slot other depth =>
        by_cases same : other = runner
        · subst same
          rw [Process.standing_slot_self rfl] at found
          rcases placed.standing_below running found with ⟨found', differs⟩
          exact (placed.stands found').of_spares (spares differs)
        · rw [Process.standing_slot_of_ne rfl same] at found
          apply (placed.stands found).of_spares (spares (placed.flow_ne held found _))
          rintro ⟨⟩
          exact same rfl

omit [Inhabited α] in
/-- A new call has not posted anything. -/
theorem Work.asyncInvoke (work : Work process) (counted : Counted process)
    (running : process.runners runner = .running top below)
    (flow_found : process.flows top.flow = some flow)
    (taskExecutor : frame.promise.taskExecutor = some flow.xer) :
    Work (process.asyncInvoke runner top below frame callable next) := by
  have kept : ∀ {call state}, process.calls call = some state →
      (process.asyncInvoke runner top below frame callable next).calls call = some state :=
    fun found => (Function.update_of_ne (counted.calls_lt found).ne ..).trans found
  have took_iff : ∀ {other call},
      (process.asyncInvoke runner top below frame callable next).runners other = .took call ↔
        process.runners other = .took call := by
    intro other call
    rw [runner_eq_iff rfl]
    constructor
    · rintro (⟨_, ⟨⟩⟩ | ⟨_, before⟩)
      exact before
    · intro took
      refine .inr ⟨?_, took⟩
      rintro rfl
      rw [running] at took
      cases took
  constructor
  · intro call state found
    rcases Custody.update_eq_some_iff.mp found with ⟨_, ⟨⟩⟩ | ⟨_, before⟩
    · exact ⟨flow, flow_found, taskExecutor⟩
    · exact work.executor before
  · intro call state found resumed
    rcases Custody.update_eq_some_iff.mp found with ⟨_, ⟨⟩⟩ | ⟨_, before⟩
    · cases resumed
    · exact work.resumed_posted before resumed
  · intro xer call member
    rcases work.queued member with ⟨state, found, awaits⟩
    exact ⟨state, kept found, awaits⟩
  · intro other call took
    rcases work.taken (took_iff.mp took) with ⟨state, found, awaits⟩
    exact ⟨state, kept found, awaits⟩
  · exact work.nodup
  · exact fun took => work.taken_not_queued (took_iff.mp took)
  · exact fun took took' => work.taken_once (took_iff.mp took) (took_iff.mp took')
  · intro call state found waits posted
    rcases Custody.update_eq_some_iff.mp found with ⟨_, ⟨⟩⟩ | ⟨_, before⟩
    · cases posted
    · rcases work.found before waits posted with queued | ⟨other, took⟩
      · exact .inl queued
      · exact .inr ⟨other, took_iff.mpr took⟩

/-- The mutex of the new awaiter is locked by the thread that started its call. -/
theorem Locks.asyncInvoke (locks : Locks process) (counted : Counted process)
    (placed : Placed user process) (running : process.runners runner = .running top below)
    (found : process.frames top.handle = some frame) (own : frame.flow = top.flow) :
    Locks (process.asyncInvoke runner top below frame callable next) := by
  have held := Process.held_eq_some (Process.standing_running running)
  have waiting_ne : ∀ {call state}, process.calls call = some state → state.resumed = false →
      state.flow ≠ top.flow :=
    fun found' waits => placed.flow_ne held (Process.standing_call found' waits) (by rintro ⟨⟩)
  have frame_kept : ∀ {handle other}, process.frames handle = some other →
      other.flow ≠ top.flow →
        (process.asyncInvoke runner top below frame callable next).frames handle = some other := by
    intro handle other found' differs
    refine (Function.update_of_ne ?_ ..).trans found'
    rintro rfl
    rw [found] at found'
    cases found'
    exact differs own
  have runner_cases : ∀ {other top' below'},
      (process.asyncInvoke runner top below frame callable next).runners other =
        .suspending top' below' → other = runner ∧ top' = top ∨
          other ≠ runner ∧ process.runners other = .suspending top' below' := by
    intro other top' below' suspending
    rcases (runner_eq_iff rfl).mp suspending with ⟨same, ⟨⟩⟩ | before
    · exact .inl ⟨same, rfl⟩
    · exact .inr before
  have suspending_ne : ∀ {other top' below'}, process.runners other = .suspending top' below' →
      top'.flow ≠ top.flow := by
    intro other top' below' suspending
    rcases locks.suspending suspending with ⟨call, state, _, _, found', waits, _, flow_eq, _⟩
    rw [← flow_eq]
    exact waiting_ne found' waits
  constructor
  · intro other top' below' suspending
    rcases runner_cases suspending with ⟨rfl, rfl⟩ | ⟨_, before⟩
    · exact ⟨process.nextCall, _, _, next, Function.update_self .., rfl, rfl, rfl,
        Function.update_self .., own, rfl⟩
    · rcases locks.suspending before with
        ⟨call, state, frame', next', found', waits, frame_eq, flow_eq, frame_found, own', point⟩
      refine ⟨call, state, frame', next', ?_, waits, frame_eq, flow_eq, ?_, own', point⟩
      · exact (Function.update_of_ne (counted.calls_lt found').ne ..).trans found'
      · apply frame_kept frame_found
        rw [own']
        exact suspending_ne before
  · intro first second top' top'' below' below'' suspending suspending' same
    rcases runner_cases suspending with ⟨rfl, rfl⟩ | ⟨_, before⟩
    · rcases runner_cases suspending' with ⟨rfl, rfl⟩ | ⟨_, before'⟩
      · rfl
      · exact absurd same.symm (suspending_ne before')
    · rcases runner_cases suspending' with ⟨rfl, rfl⟩ | ⟨_, before'⟩
      · exact absurd same (suspending_ne before)
      · exact locks.unique before before' same
  · intro call other state frame' next' found' waits frame_found point
    rcases Custody.update_eq_some_iff.mp found' with ⟨_, ⟨⟩⟩ | ⟨_, before⟩
    · exact ⟨runner, top, below, Function.update_self .., rfl⟩
    · rcases placed.stands (Process.standing_call before waits) with ⟨_, frame'', _, located⟩
      have unchanged := frame_kept located.frame_found (by
        rw [located.own]
        exact waiting_ne before waits)
      rw [frame_found] at unchanged
      cases unchanged
      rcases locks.holder before waits located.frame_found point with
        ⟨holder, top', below', suspending, handle_eq⟩
      refine ⟨holder, top', below', (Function.update_of_ne ?_ ..).trans suspending, handle_eq⟩
      rintro rfl
      rw [running] at suspending
      cases suspending

/-- A coroutine suspends in `co_await` of a `co_async_invoke_awaiter`. -/
theorem Invariant.asyncInvoke (invariant : Invariant user respond task nthreads process)
    (running : process.runners runner = .running top below)
    (located : Located user process ⟨top, .goesOn⟩ flow frame ⟨.run position, callers⟩)
    (point : frame.point = .at position)
    (chain : Chain process.frames top.flow flow.xer flow.bottom top.handle callers)
    (command : program user position = .request (.invoke callable) next) :
    Invariant user respond task nthreads
      (process.asyncInvoke runner top below frame callable next) := by
  rcases chain.exists_frame with ⟨frame', frame_found, belongs⟩
  rw [located.frame_found] at frame_found
  cases frame_found
  constructor
  · exact invariant.misuse_eq
  · exact invariant.terminated_eq
  · constructor
    · intro handle other found
      rcases Custody.update_eq_some_iff.mp found with ⟨rfl, _⟩ | ⟨_, before⟩
      · exact invariant.counted.frames_lt located.frame_found
      · exact invariant.counted.frames_lt before
    · intro call state found
      rcases Custody.update_eq_some_iff.mp found with ⟨rfl, _⟩ | ⟨_, before⟩
      · exact Nat.lt_succ_self _
      · exact (invariant.counted.calls_lt before).trans (Nat.lt_succ_self _)
    · exact invariant.counted.flows_lt
  · exact invariant.placed.asyncInvoke invariant.counted running located point chain command
  · refine ⟨invariant.answered.1, invariant.answered.2, invariant.answered.3, ?_⟩
    intro call state outcome found outcome_eq
    rcases Custody.update_eq_some_iff.mp found with ⟨_, ⟨⟩⟩ | ⟨_, before⟩
    · cases outcome_eq
    · exact invariant.answered.called before outcome_eq
  · exact invariant.work.asyncInvoke invariant.counted running located.flow_found
      belongs.taskExecutor_eq
  · exact invariant.locks.asyncInvoke invariant.counted invariant.placed running
      located.frame_found located.own
  · refine ⟨invariant.root.main, ?_, ?_⟩
    · intro flow' result found outcome
      rcases invariant.root.final found outcome with ⟨root, root_found, own, final⟩
      refine ⟨root, (Function.update_of_ne ?_ ..).trans root_found, own, final⟩
      intro same
      rw [same, located.frame_found] at root_found
      cases root_found
      rw [point] at final
      cases final.1
    · intro result returned
      rcases (runner_eq_iff rfl).mp returned with ⟨_, ⟨⟩⟩ | ⟨_, before⟩
      exact invariant.root.returned before
  · exact invariant.crew.setRunner rfl (by rintro ⟨⟩) (by rintro _ ⟨⟩)

end Suspended

/-! ## `await_suspend` returns -/

section Unlocked

/-- The mutex of an awaiter is unlocked. -/
structure UnlockStep (process process' : Process β α ε γ) (runner : Nat) (top : Activity)
    (below : List Activity) (call : Nat) (state : Call α ε γ) (frame : Frame β α ε γ)
    (next : Except ε α → Position β α ε γ) : Prop where
  suspending : process.runners runner = .suspending top below
  found : process.calls call = some state
  waits : state.resumed = false
  frame_eq : state.frame = top.handle
  flow_eq : state.flow = top.flow
  frame_found : process.frames top.handle = some frame
  own : frame.flow = top.flow
  point : frame.point = .invoking call true next
  result : process' = (process.setFrame top.handle
    (some { frame with point := .invoking call false next })).setRunner runner (Process.pop below)

namespace UnlockStep

variable {process' : Process β α ε γ} {call : Nat} {state : Call α ε γ}
  {next : Except ε α → Position β α ε γ}

theorem spares (step : UnlockStep process process' runner top below call state frame next)
    {identity : Nat} (differs : identity ≠ top.flow) : Spares process process' identity := by
  rw [step.result]
  constructor
  · rfl
  · intro handle other found own
    refine (Function.update_of_ne ?_ ..).trans found
    rintro rfl
    rw [step.frame_found] at found
    cases found
    exact differs (own.symm.trans step.own)
  · exact fun found _ => ⟨_, found, .refl _⟩

theorem held (step : UnlockStep process process' runner top below call state frame next) :
    process.held (.call call) = some top.flow := by
  rw [Process.held_eq_some (Process.standing_call step.found step.waits), ← step.flow_eq]

theorem held_eq (step : UnlockStep process process' runner top below call state frame next) :
    process'.held = process.held := by
  have runners_eq : process'.runners =
      Function.update process.runners runner (Process.pop below) := by
    rw [step.result]
    rfl
  have calls_eq : process'.calls = process.calls := by
    rw [step.result]
    rfl
  funext place
  cases place with
  | call other => rw [Process.held, Process.held, Process.standing, Process.standing, calls_eq]
  | slot other depth =>
      rw [Process.held, Process.held]
      by_cases same : other = runner
      · subst same
        rw [Process.standing_slot_self runners_eq, pop_stack_flow, Process.standing,
          step.suspending]
        rfl
      · rw [Process.standing_slot_of_ne runners_eq same]

variable [Inhabited α] {user : β → Statement β α ε γ} {respond : γ → Except ε α → Prop}
  {task : Task β γ} {nthreads : Nat}

/-- The coroutine waits for its call as before. -/
theorem stands (step : UnlockStep process process' runner top below call state frame next)
    (placed : Placed user process) :
    Stands user process' ⟨⟨state.frame, state.flow⟩, .waiting call⟩ := by
  rcases placed.stands (Process.standing_call step.found step.waits) with
    ⟨flow, frame', activation, located⟩
  have frame_found : process.frames state.frame = some frame' := located.frame_found
  rw [step.frame_eq, step.frame_found] at frame_found
  cases frame_found
  have found' : process.frames state.frame = some frame := located.frame_found
  have shows := located.shows
  have differs : ∀ {point}, frame.point = point → .invoking call true next = point :=
    fun point' => step.point.symm.trans point'
  rw [step.result, ← step.frame_eq]
  cases shows with
  | «at» point' => cases differs point'
  | awaiting point' => cases differs point'
  | starting point' => cases differs point'
  | detached point' => cases differs point'
  | @invoking _ _ _ position _ callers point' command called own chain =>
      cases differs point'
      rcases chain.exists_frame with ⟨frame', frame_found, belongs⟩
      rw [found'] at frame_found
      cases frame_found
      refine ⟨flow, { frame with point := .invoking call false next },
        ⟨.run position, callers⟩, ?_⟩
      constructor
      · exact located.flow_found
      · exact Function.update_self ..
      · exact located.own
      · exact ⟨located.allows.1, false, next, rfl⟩
      · refine .invoking rfl command called own ?_
        exact chain.setTop found' ⟨belongs.1, belongs.2, belongs.3⟩ rfl
      · exact located.runs
      · apply located.rooted.setTop found'
        · rw [step.point]
          rintro ⟨⟩
        · rw [step.point]
          rintro _ ⟨⟩
        · rfl
        · rfl

theorem placed (step : UnlockStep process process' runner top below call state frame next)
    (placed : Placed user process) : Placed user process' := by
  have runners_eq : process'.runners =
      Function.update process.runners runner (Process.pop below) := by
    rw [step.result]
    rfl
  constructor
  · rw [step.held_eq, step.result]
    exact placed.custody
  · intro place standing found
    cases place with
    | call other =>
        have found' : process.standing (.call other) = some standing := by
          rw [step.result] at found
          exact found
        by_cases same : other = call
        · subst same
          rw [Process.standing_call step.found step.waits] at found'
          cases found'
          exact step.stands placed
        · apply (placed.stands found').of_spares
          apply step.spares (placed.flow_ne step.held found' _)
          rintro ⟨⟩
          exact same rfl
    | slot other depth =>
        by_cases same : other = runner
        · subst same
          rw [Process.standing_slot_self runners_eq] at found
          have below_stands : ∀ {standing}, starts below depth = some standing →
              Stands user process' standing := by
            intro standing found'
            have isBelow : process.standing (.slot other depth) = some standing := by
              rw [Process.standing, step.suspending]
              exact found'
            exact (placed.stands isBelow).of_spares
              (step.spares (placed.flow_ne step.held isBelow (by rintro ⟨⟩)))
          rcases pop_stack_eq_some found with found' | ⟨activity, rfl, found'⟩
          · exact below_stands found'
          · exact (below_stands found').goesOn
        · rw [Process.standing_slot_of_ne runners_eq same] at found
          exact (placed.stands found).of_spares
            (step.spares (placed.flow_ne step.held found (by rintro ⟨⟩)))

omit [Inhabited α] in
theorem locks (step : UnlockStep process process' runner top below call state frame next)
    (locks : Locks process) : Locks process' := by
  have runners_eq : process'.runners =
      Function.update process.runners runner (Process.pop below) := by
    rw [step.result]
    rfl
  have calls_eq : process'.calls = process.calls := by
    rw [step.result]
    rfl
  have before : ∀ {other top' below'}, process'.runners other = .suspending top' below' →
      other ≠ runner ∧ process.runners other = .suspending top' below' := by
    intro other top' below' suspending
    rcases (runner_eq_iff runners_eq).mp suspending with ⟨_, popped⟩ | before
    · cases below with
      | nil => cases popped
      | cons => cases popped
    · exact before
  constructor
  · intro other top' below' suspending
    rcases before suspending with ⟨differs, suspending'⟩
    rcases locks.suspending suspending' with
      ⟨call', state', frame', next', found, waits, frame_eq, flow_eq, frame_found, own, point⟩
    have isOther : top'.flow ≠ top.flow :=
      fun same => differs (locks.unique suspending' step.suspending same)
    rw [calls_eq]
    exact ⟨call', state', frame', next', found, waits, frame_eq, flow_eq,
      (step.spares isOther).frames_eq frame_found own, own, point⟩
  · exact fun suspending suspending' => locks.unique (before suspending).2 (before suspending').2
  · intro call' other state' frame' next' found waits frame_found point
    rw [calls_eq] at found
    rw [step.result] at frame_found
    rcases Custody.update_eq_some_iff.mp frame_found with ⟨_, ⟨⟩⟩ | ⟨differs, frame_found'⟩
    · cases point
    · rcases locks.holder found waits frame_found' point with
        ⟨holder, top', below', suspending, handle_eq⟩
      refine ⟨holder, top', below', (runner_eq_iff runners_eq).mpr (.inr ⟨?_, suspending⟩), handle_eq⟩
      rintro rfl
      rw [step.suspending] at suspending
      cases suspending
      exact differs handle_eq.symm

theorem invariant (step : UnlockStep process process' runner top below call state frame next)
    (invariant : Invariant user respond task nthreads process) :
    Invariant user respond task nthreads process' := by
  have placed := step.placed invariant.placed
  have locks := step.locks invariant.locks
  have runner_cases : ∀ {other : Nat} {now : Runner α ε}, ¬now.Goes →
      process'.runners other = now → process.runners other = now := by
    intro other now stays found
    rw [step.result] at found
    rcases (runner_eq_iff rfl).mp found with ⟨_, popped⟩ | ⟨_, before⟩
    · rw [← popped] at stays
      exact absurd (Process.pop_goes below) stays
    · exact before
  have result := step.result
  subst result
  constructor
  · exact invariant.misuse_eq
  · exact invariant.terminated_eq
  · refine ⟨?_, invariant.counted.calls_lt, invariant.counted.flows_lt⟩
    intro handle other found
    rcases Custody.update_eq_some_iff.mp found with ⟨rfl, _⟩ | ⟨_, before⟩
    · exact invariant.counted.frames_lt step.frame_found
    · exact invariant.counted.frames_lt before
  · exact placed
  · exact ⟨invariant.answered.1, invariant.answered.2, invariant.answered.3, invariant.answered.4⟩
  · refine invariant.work.congr rfl rfl rfl fun {other taken} => ⟨runner_cases id, fun took => ?_⟩
    refine (runner_eq_iff rfl).mpr (.inr ⟨?_, took⟩)
    rintro rfl
    rw [step.suspending] at took
    cases took
  · exact locks
  · refine ⟨invariant.root.main, ?_, fun returned => invariant.root.returned (runner_cases id returned)⟩
    intro flow' result found outcome
    rcases invariant.root.final found outcome with ⟨root, root_found, own, final⟩
    refine ⟨root, (Function.update_of_ne ?_ ..).trans root_found, own, final⟩
    intro same
    rw [same, step.frame_found] at root_found
    cases root_found
    have impossible := step.point.symm.trans final.1
    cases impossible
  · exact ⟨fun inside absent => invariant.crew.present inside (runner_cases id absent),
      fun returned => invariant.crew.main_only (runner_cases id returned)⟩

end UnlockStep

/-- `await_suspend` of an awaiter unlocks the mutex and returns. -/
theorem Invariant.unlock [Inhabited α] {user : β → Statement β α ε γ}
    {respond : γ → Except ε α → Prop} {task : Task β γ} {nthreads : Nat}
    (invariant : Invariant user respond task nthreads process)
    (suspending : process.runners runner = .suspending top below) :
    ∃ call state frame next, UnlockStep process (process.unlock runner top below) runner top below
      call state frame next := by
  rcases invariant.locks.suspending suspending with
    ⟨call, state, frame, next, found, waits, frame_eq, flow_eq, frame_found, own, point⟩
  have unlocked : process.unlock runner top below = (process.setFrame top.handle
      (some { frame with point := .invoking call false next })).setRunner runner
        (Process.pop below) := by
    unfold Process.unlock
    rw [frame_found]
    dsimp only
    rw [point]
  exact ⟨call, state, frame, next, suspending, found, waits, frame_eq, flow_eq, frame_found, own,
    point, unlocked⟩

end Unlocked

end SkAsync.Coroutine

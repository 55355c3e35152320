import SkAsync.Task.Invariant

/-!
# Resuming a coroutine

The thread that has taken the work of a call waits for the mutex of the awaiter and
resumes the coroutine, which goes on at the bottom of the stack of this thread.
-/

namespace SkAsync.Coroutine

open SkAsync.Library

variable {β α ε γ : Type} {process process' : Process β α ε γ} {runner call : Nat}
  {state : Call α ε γ} {frame : Frame β α ε γ} {next : Except ε α → Position β α ε γ}

/-- The work of a call is run. -/
structure ResumeStep (process process' : Process β α ε γ) (runner call : Nat)
    (state : Call α ε γ) (frame : Frame β α ε γ) (next : Except ε α → Position β α ε γ) :
    Prop where
  took : process.runners runner = .took call
  found : process.calls call = some state
  waits : state.resumed = false
  posted : state.phase.HasPosted
  frame_found : process.frames state.frame = some frame
  own : frame.flow = state.flow
  suspended : frame.suspended = true
  point : frame.point = .invoking call false next
  result : process' = ((process.setCall call (some { state with resumed := true })).setFrame
    state.frame (some { frame with suspended := false })).setRunner runner
      (.running ⟨state.frame, state.flow⟩ [])

namespace ResumeStep

theorem runners_eq (step : ResumeStep process process' runner call state frame next) :
    process'.runners =
      Function.update process.runners runner (.running ⟨state.frame, state.flow⟩ []) := by
  rw [step.result]
  rfl

theorem calls_eq (step : ResumeStep process process' runner call state frame next) :
    process'.calls =
      Function.update process.calls call (some { state with resumed := true }) := by
  rw [step.result]
  rfl

theorem held (step : ResumeStep process process' runner call state frame next) :
    process.held (.call call) = some state.flow :=
  Process.held_eq_some (Process.standing_call step.found step.waits)

theorem spares (step : ResumeStep process process' runner call state frame next) {identity : Nat}
    (differs : identity ≠ state.flow) : Spares process process' identity := by
  rw [step.result]
  constructor
  · rfl
  · intro handle other found own
    refine (Function.update_of_ne ?_ ..).trans found
    rintro rfl
    rw [step.frame_found] at found
    cases found
    exact differs (own.symm.trans step.own)
  · intro other before found own
    refine ⟨before, (Function.update_of_ne ?_ ..).trans found, .refl before⟩
    rintro rfl
    rw [step.found] at found
    cases found
    exact differs own.symm

theorem held_eq (step : ResumeStep process process' runner call state frame next) :
    process'.held = Function.update (Function.update process.held (.slot runner 0)
      (process.held (.call call))) (.call call) none := by
  funext place
  cases place with
  | call other =>
      by_cases same : other = call
      · subst same
        rw [Function.update_self, Process.held, Process.standing_call_self step.calls_eq]
        rfl
      · rw [Function.update_of_ne (by rintro ⟨⟩; exact same rfl),
          Function.update_of_ne (by rintro ⟨⟩), Process.held, Process.held,
          Process.standing_call_of_ne step.calls_eq same]
  | slot other depth =>
      rw [Function.update_of_ne (by rintro ⟨⟩)]
      by_cases same : other = runner
      · subst same
        rw [Process.held, Process.standing_slot_self step.runners_eq]
        by_cases onTop : depth = 0
        · subst onTop
          rw [Function.update_self, step.held]
          rfl
        · rw [Function.update_of_ne (by rintro ⟨⟩; exact onTop rfl), Process.held,
            Process.standing, step.took]
          simp [Runner.stack, starts, onTop]
      · rw [Function.update_of_ne (by rintro ⟨⟩; exact same rfl), Process.held, Process.held,
          Process.standing_slot_of_ne step.runners_eq same]

/-- The other calls are as before. -/
theorem calls_eq_some_iff (step : ResumeStep process process' runner call state frame next)
    {other : Nat} {after : Call α ε γ} (waits : after.resumed = false) :
    process'.calls other = some after ↔ other ≠ call ∧ process.calls other = some after := by
  rw [step.calls_eq, Custody.update_eq_some_iff]
  constructor
  · rintro (⟨_, ⟨⟩⟩ | before)
    · cases waits
    · exact before
  · exact .inr

theorem took_iff (step : ResumeStep process process' runner call state frame next)
    {other taken : Nat} : process'.runners other = .took taken ↔
      other ≠ runner ∧ process.runners other = .took taken := by
  rw [runner_eq_iff step.runners_eq]
  constructor
  · rintro (⟨_, ⟨⟩⟩ | before)
    exact before
  · exact .inr

theorem work (step : ResumeStep process process' runner call state frame next)
    (work : Work process) : Work process' := by
  have queue_eq : process'.queue = process.queue := by
    rw [step.result]
    rfl
  have flows_eq : process'.flows = process.flows := by
    rw [step.result]
    rfl
  constructor
  · rw [step.calls_eq, flows_eq]
    intro other after found
    rcases Custody.update_eq_some_iff.mp found with ⟨_, ⟨⟩⟩ | ⟨_, before⟩
    · have executor := work.executor step.found
      exact executor
    · exact work.executor before
  · rw [step.calls_eq]
    intro other after found resumed
    rcases Custody.update_eq_some_iff.mp found with ⟨_, ⟨⟩⟩ | ⟨_, before⟩
    · exact step.posted
    · exact work.resumed_posted before resumed
  · rw [queue_eq]
    intro xer other member
    rcases work.queued member with ⟨before, found, awaits⟩
    refine ⟨before, (step.calls_eq_some_iff awaits.resumed_eq).mpr ⟨?_, found⟩, awaits⟩
    rintro rfl
    exact work.taken_not_queued step.took xer member
  · intro other taken took
    rcases step.took_iff.mp took with ⟨differs, took'⟩
    rcases work.taken took' with ⟨before, found, awaits⟩
    refine ⟨before, (step.calls_eq_some_iff awaits.resumed_eq).mpr ⟨?_, found⟩, awaits⟩
    rintro rfl
    exact differs (work.taken_once took' step.took)
  · rw [queue_eq]
    exact work.nodup
  · rw [queue_eq]
    exact fun took => work.taken_not_queued (step.took_iff.mp took).2
  · exact fun took took' => work.taken_once (step.took_iff.mp took).2 (step.took_iff.mp took').2
  · rw [queue_eq]
    intro other after found waits posted
    rcases (step.calls_eq_some_iff waits).mp found with ⟨differs, before⟩
    rcases work.found before waits posted with queued | ⟨taker, took⟩
    · exact .inl queued
    · refine .inr ⟨taker, step.took_iff.mpr ⟨?_, took⟩⟩
      rintro rfl
      rw [step.took] at took
      cases took
      exact differs rfl

variable [Inhabited α] {user : β → Statement β α ε γ} {respond : γ → Except ε α → Prop}
  {task : Task β γ} {nthreads : Nat}

/-- The coroutine goes on behind `co_await` of the awaiter. -/
theorem stands (step : ResumeStep process process' runner call state frame next)
    (placed : Placed user process) :
    Stands user process' ⟨⟨state.frame, state.flow⟩, .goesOn⟩ := by
  rcases placed.stands (Process.standing_call step.found step.waits) with
    ⟨flow, frame', activation, located⟩
  have frame_found : process.frames state.frame = some frame' := located.frame_found
  rw [step.frame_found] at frame_found
  cases frame_found
  have shows := located.shows
  have differs : ∀ {point}, frame.point = point → .invoking call false next = point :=
    fun point' => step.point.symm.trans point'
  have called' : process'.calls call = some { state with resumed := true } := by
    rw [step.calls_eq]
    exact Function.update_self ..
  rw [step.result] at called' ⊢
  cases shows with
  | «at» point' => cases differs point'
  | awaiting point' => cases differs point'
  | starting point' => cases differs point'
  | detached point' => cases differs point'
  | @invoking _ _ _ position _ callers point' command called own chain =>
      cases differs point'
      rw [step.found] at called
      cases called
      rcases chain.exists_frame with ⟨frame', frame_found, belongs⟩
      rw [step.frame_found] at frame_found
      cases frame_found
      refine ⟨flow, { frame with suspended := false }, ⟨.run position, callers⟩, ?_⟩
      constructor
      · exact located.flow_found
      · exact Function.update_self ..
      · exact located.own
      · refine ⟨rfl, fun call' locked next' point'' => ?_⟩
        have same := step.point.symm.trans point''
        cases same
        exact ⟨_, called', step.own.symm, rfl, step.posted⟩
      · refine .invoking point' ?_ called' rfl ?_
        · exact command
        · exact chain.setTop step.frame_found ⟨belongs.1, belongs.2, belongs.3⟩ rfl
      · exact located.runs
      · apply located.rooted.setTop step.frame_found
        · rw [step.point]
          rintro ⟨⟩
        · rw [step.point]
          rintro _ ⟨⟩
        · rfl
        · rfl

theorem placed (step : ResumeStep process process' runner call state frame next)
    (placed : Placed user process) : Placed user process' := by
  constructor
  · have custody : Custody process'.held (List.range process.nextFlow) process.ended := by
      rw [step.held_eq]
      apply placed.custody.move
      rw [Process.held, Process.standing, step.took]
      rfl
    rw [step.result] at custody ⊢
    exact custody
  · intro place standing found
    cases place with
    | call other =>
        by_cases same : other = call
        · subst same
          rw [Process.standing_call_self step.calls_eq] at found
          cases found
        · rw [Process.standing_call_of_ne step.calls_eq same] at found
          apply (placed.stands found).of_spares
          apply step.spares (placed.flow_ne step.held found _)
          rintro ⟨⟩
          exact same rfl
    | slot other depth =>
        by_cases same : other = runner
        · subst same
          rw [Process.standing_slot_self step.runners_eq, Runner.stack] at found
          rcases Custody.update_eq_some_iff.mp found with ⟨_, ⟨⟩⟩ | ⟨_, impossible⟩
          · exact step.stands placed
          · cases impossible
        · rw [Process.standing_slot_of_ne step.runners_eq same] at found
          exact (placed.stands found).of_spares
            (step.spares (placed.flow_ne step.held found (by rintro ⟨⟩)))

theorem locks (step : ResumeStep process process' runner call state frame next)
    (placed : Placed user process) (locks : Locks process) : Locks process' := by
  have suspending_iff : ∀ {other top below}, process'.runners other = .suspending top below ↔
      process.runners other = .suspending top below := by
    intro other top below
    rw [runner_eq_iff step.runners_eq]
    constructor
    · rintro (⟨_, ⟨⟩⟩ | ⟨_, before⟩)
      exact before
    · intro suspending
      refine .inr ⟨?_, suspending⟩
      rintro rfl
      rw [step.took] at suspending
      cases suspending
  have waiting_ne : ∀ {other before}, process.calls other = some before →
      before.resumed = false → other ≠ call → before.flow ≠ state.flow := by
    intro other before found waits differs
    apply placed.flow_ne step.held (Process.standing_call found waits)
    rintro ⟨⟩
    exact differs rfl
  constructor
  · intro other top below suspending
    rcases locks.suspending (suspending_iff.mp suspending) with
      ⟨call', state', frame', next', found, waits, frame_eq, flow_eq, frame_found, own, point⟩
    have differs : call' ≠ call := by
      rintro rfl
      rw [step.found] at found
      cases found
      rw [← frame_eq, step.frame_found] at frame_found
      cases frame_found
      have impossible := step.point.symm.trans point
      cases impossible
    have isOther := waiting_ne found waits differs
    rw [flow_eq] at isOther
    exact ⟨call', state', frame', next', (step.calls_eq_some_iff waits).mpr ⟨differs, found⟩, waits,
      frame_eq, flow_eq, (step.spares isOther).frames_eq frame_found own, own, point⟩
  · exact fun suspending suspending' =>
      locks.unique (suspending_iff.mp suspending) (suspending_iff.mp suspending')
  · intro call' other state' frame' next' found waits frame_found point
    rcases (step.calls_eq_some_iff waits).mp found with ⟨differs, before⟩
    rcases placed.stands (Process.standing_call before waits) with ⟨_, frame'', _, located⟩
    have unchanged := (step.spares (waiting_ne before waits differs)).frames_eq
      located.frame_found located.own
    rw [frame_found] at unchanged
    cases unchanged
    rcases locks.holder before waits located.frame_found point with
      ⟨holder, top, below, suspending, handle_eq⟩
    exact ⟨holder, top, below, suspending_iff.mpr suspending, handle_eq⟩

theorem invariant (step : ResumeStep process process' runner call state frame next)
    (invariant : Invariant user respond task nthreads process) :
    Invariant user respond task nthreads process' := by
  have placed := step.placed invariant.placed
  have work := step.work invariant.work
  have locks := step.locks invariant.placed invariant.locks
  have crew := invariant.crew.setRunner step.runners_eq (by rintro ⟨⟩) (by rintro _ ⟨⟩)
  have result := step.result
  subst result
  constructor
  · exact invariant.misuse_eq
  · exact invariant.terminated_eq
  · constructor
    · intro handle other found
      rcases Custody.update_eq_some_iff.mp found with ⟨rfl, _⟩ | ⟨_, before⟩
      · exact invariant.counted.frames_lt step.frame_found
      · exact invariant.counted.frames_lt before
    · intro other after found
      rcases Custody.update_eq_some_iff.mp found with ⟨rfl, _⟩ | ⟨_, before⟩
      · exact invariant.counted.calls_lt step.found
      · exact invariant.counted.calls_lt before
    · exact invariant.counted.flows_lt
  · exact placed
  · refine ⟨invariant.answered.1, invariant.answered.2, invariant.answered.3, ?_⟩
    intro other after outcome found outcome_eq
    rcases Custody.update_eq_some_iff.mp found with ⟨_, ⟨⟩⟩ | ⟨_, before⟩
    · have responds := invariant.answered.called step.found outcome_eq
      exact responds
    · exact invariant.answered.called before outcome_eq
  · exact work
  · exact locks
  · refine ⟨invariant.root.main, ?_, ?_⟩
    · intro flow result found outcome
      rcases invariant.root.final found outcome with ⟨root, root_found, own, final⟩
      refine ⟨root, (Function.update_of_ne ?_ ..).trans root_found, own, final⟩
      intro same
      rw [same, step.frame_found] at root_found
      cases root_found
      have impossible := step.point.symm.trans final.1
      cases impossible
    · intro result returned
      rcases (runner_eq_iff rfl).mp returned with ⟨_, ⟨⟩⟩ | ⟨_, before⟩
      exact invariant.root.returned before
  · exact crew

end ResumeStep

/-- The work that a thread has posted is run, unless it has to wait for the mutex. -/
theorem Invariant.runWork [Inhabited α] {user : β → Statement β α ε γ}
    {respond : γ → Except ε α → Prop} {task : Task β γ} {nthreads : Nat}
    (invariant : Invariant user respond task nthreads process)
    (took : process.runners runner = .took call) (ran : process.runWork runner call = some process') :
    ∃ state frame next, ResumeStep process process' runner call state frame next := by
  rcases invariant.work.taken took with ⟨state, found, awaits⟩
  rcases invariant.placed.stands (Process.standing_call found awaits.resumed_eq) with
    ⟨_, frame, _, located⟩
  have frame_found : process.frames state.frame = some frame := located.frame_found
  rcases located.allows with ⟨suspended, locked, next, point⟩
  unfold Process.runWork at ran
  rw [found] at ran
  dsimp only at ran
  rw [frame_found] at ran
  dsimp only at ran
  rw [point] at ran
  cases locked with
  | true => cases ran
  | false =>
      have resumed := Option.some.inj ran
      rw [Process.transfer_eq frame_found suspended (by rw [point]; rintro ⟨⟩)] at resumed
      exact ⟨state, frame, next, took, found, awaits.resumed_eq, awaits.posted, frame_found,
        located.own, suspended, point, resumed.symm⟩

end SkAsync.Coroutine

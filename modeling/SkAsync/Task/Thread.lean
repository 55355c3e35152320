import SkAsync.Task.Invariant

/-!
# The threads of the awaiters

The callable returns, and the work that resumes the coroutine is posted.  `Steady` is
about every step that moves no flow.
-/

namespace SkAsync.Coroutine

open SkAsync.Library

variable {β α ε γ : Type}

/-- A step that moves no flow. -/
structure Steady (process process' : Process β α ε γ) : Prop where
  frames_eq : process'.frames = process.frames
  nextFrame_eq : process'.nextFrame = process.nextFrame
  flows_eq : process'.flows = process.flows
  nextFlow_eq : process'.nextFlow = process.nextFlow
  nextCall_eq : process'.nextCall = process.nextCall
  ended_eq : process'.ended = process.ended
  calls_follow : ∀ {call state}, process.calls call = some state →
    ∃ state', process'.calls call = some state' ∧ state.Follows state'
  calls_from : ∀ {call state'}, process'.calls call = some state' →
    ∃ state, process.calls call = some state ∧ state.Follows state'
  stack_eq : ∀ runner, (process'.runners runner).stack = (process.runners runner).stack
  suspending_iff : ∀ {runner top below}, process'.runners runner = .suspending top below ↔
    process.runners runner = .suspending top below

namespace Steady

variable {process process' : Process β α ε γ}

theorem spares (steady : Steady process process') (identity : Nat) :
    Spares process process' identity := by
  constructor
  · rw [steady.flows_eq]
  · intro handle frame found _
    rw [steady.frames_eq]
    exact found
  · exact fun found _ => steady.calls_follow found

theorem standing_eq (steady : Steady process process') : process'.standing = process.standing := by
  funext place
  cases place with
  | slot runner depth => rw [Process.standing, Process.standing, steady.stack_eq]
  | call call =>
      rw [Process.standing, Process.standing]
      cases found : process.calls call with
      | none =>
          cases found' : process'.calls call with
          | none => rfl
          | some state' =>
              rcases steady.calls_from found' with ⟨state, impossible, _⟩
              rw [found] at impossible
              cases impossible
      | some state =>
          rcases steady.calls_follow found with ⟨state', found', follows⟩
          rw [found']
          simp [Call.standing, follows.frame_eq, follows.flow_eq, follows.resumed_eq]

theorem counted (steady : Steady process process') (counted : Counted process) :
    Counted process' := by
  constructor
  · rw [steady.frames_eq, steady.nextFrame_eq]
    exact counted.frames_lt
  · intro call state' found'
    rcases steady.calls_from found' with ⟨state, found, _⟩
    rw [steady.nextCall_eq]
    exact counted.calls_lt found
  · rw [steady.flows_eq, steady.nextFlow_eq]
    exact counted.flows_lt

theorem placed [Inhabited α] {user : β → Statement β α ε γ} (steady : Steady process process')
    (placed : Placed user process) : Placed user process' := by
  constructor
  · have held_eq : process'.held = process.held := by
      funext place
      rw [Process.held, Process.held, steady.standing_eq]
    rw [held_eq, steady.nextFlow_eq, steady.ended_eq]
    exact placed.custody
  · intro place standing found
    rw [steady.standing_eq] at found
    exact (placed.stands found).of_spares (steady.spares _)

theorem locks (steady : Steady process process') (locks : Locks process) : Locks process' := by
  constructor
  · intro runner top below suspending
    rcases locks.suspending (steady.suspending_iff.mp suspending) with
      ⟨call, state, frame, next, found, waits, frame_eq, flow_eq, frame_found, rest⟩
    rcases steady.calls_follow found with ⟨state', found', follows⟩
    rw [steady.frames_eq]
    exact ⟨call, state', frame, next, found', follows.resumed_eq.trans waits,
      follows.frame_eq.trans frame_eq, follows.flow_eq.trans flow_eq, frame_found, rest⟩
  · exact fun suspending suspending' => locks.unique (steady.suspending_iff.mp suspending)
      (steady.suspending_iff.mp suspending')
  · intro call other state' frame next found' waits frame_found point
    rcases steady.calls_from found' with ⟨state, found, follows⟩
    rw [follows.resumed_eq] at waits
    rw [steady.frames_eq, follows.frame_eq] at frame_found
    rcases locks.holder found waits frame_found point with
      ⟨runner, top, below, suspending, handle_eq⟩
    rw [follows.frame_eq]
    exact ⟨runner, top, below, steady.suspending_iff.mpr suspending, handle_eq⟩

variable [Inhabited α] {user : β → Statement β α ε γ} {respond : γ → Except ε α → Prop}

theorem answered (steady : Steady process process') (answered : Answered user respond process)
    (called : ∀ {call state outcome}, process'.calls call = some state →
      state.phase.outcome = some outcome → respond state.callable outcome) :
    Answered user respond process' := by
  constructor
  · rw [steady.flows_eq, steady.ended_eq]
    exact answered.ended_iff
  · rw [steady.flows_eq]
    exact answered.evaluates
  · rw [steady.flows_eq]
    exact answered.fits
  · exact called

omit [Inhabited α] in
theorem root {task : Task β γ} (steady : Steady process process') (root : Root task process)
    (returned : ∀ {result}, process'.runners 0 = .returned result →
      ∃ flow, process.flows 0 = some flow ∧ flow.outcome = some result) : Root task process' := by
  constructor
  · rw [steady.flows_eq]
    exact root.main
  · rw [steady.flows_eq, steady.frames_eq]
    exact root.final
  · rw [steady.flows_eq]
    exact returned

end Steady

/-! ## Calls -/

section Calls

variable {process : Process β α ε γ} {call : Nat} {state state' : Call α ε γ}

/-- A call goes on, and its work may be put on a queue. -/
theorem Steady.setCall (found : process.calls call = some state) (follows : state.Follows state')
    (queue : Executor → List Nat) :
    Steady process { process.setCall call (some state') with queue := queue } := by
  constructor
  · rfl
  · rfl
  · rfl
  · rfl
  · rfl
  · rfl
  · intro other before found'
    by_cases same : other = call
    · subst same
      rw [found] at found'
      cases found'
      exact ⟨state', Function.update_self .., follows⟩
    · exact ⟨before, (Function.update_of_ne same ..).trans found', .refl before⟩
  · intro other after found'
    rcases Custody.update_eq_some_iff.mp found' with ⟨rfl, ⟨⟩⟩ | ⟨_, before⟩
    · exact ⟨state, found, follows⟩
    · exact ⟨after, before, .refl after⟩
  · exact fun _ => rfl
  · exact Iff.rfl

/-- Another state of a call does not concern one whose callable has thrown. -/
theorem raised_kept_of_setCall (found : process.calls call = some state)
    (goesOn : ∀ exception, state.phase ≠ .raised exception) (after : Option (Call α ε γ)) {other : Nat} {before : Call α ε γ} {exception : ε}
    (found' : process.calls other = some before) (raised : before.phase = .raised exception) :
    Function.update process.calls call after other = some before := by
  refine (Function.update_of_ne ?_ ..).trans found'
  rintro rfl
  rw [found] at found'
  cases found'
  exact goesOn exception raised

/-- A call that goes on and has not posted its work now. -/
theorem Work.setCall (work : Work process) (found : process.calls call = some state)
    (follows : state.Follows state') (unposted : state'.phase.HasPosted → state.phase.HasPosted) :
    Work (process.setCall call (some state')) := by
  have awaits : ∀ {other before xer}, process.calls other = some before → before.Awaits xer →
      ∃ after, Function.update process.calls call (some state') other = some after ∧
        after.Awaits xer := by
    intro other before xer found' isAwaited
    by_cases same : other = call
    · subst same
      rw [found] at found'
      cases found'
      exact ⟨state', Function.update_self .., follows.resumed_eq.trans isAwaited.resumed_eq,
        follows.posted isAwaited.posted, follows.taskExecutor_eq.trans isAwaited.taskExecutor_eq⟩
    · exact ⟨before, (Function.update_of_ne same ..).trans found', isAwaited⟩
  constructor
  · intro other after found'
    rcases Custody.update_eq_some_iff.mp found' with ⟨_, ⟨⟩⟩ | ⟨_, before⟩
    · rw [follows.flow_eq, follows.taskExecutor_eq]
      exact work.executor found
    · exact work.executor before
  · intro other after found' resumed
    rcases Custody.update_eq_some_iff.mp found' with ⟨_, ⟨⟩⟩ | ⟨_, before⟩
    · rw [follows.resumed_eq] at resumed
      exact follows.posted (work.resumed_posted found resumed)
    · exact work.resumed_posted before resumed
  · intro xer other member
    rcases work.queued member with ⟨before, found', isAwaited⟩
    exact awaits found' isAwaited
  · intro runner other took
    rcases work.taken took with ⟨before, found', isAwaited⟩
    exact awaits found' isAwaited
  · exact work.nodup
  · exact work.taken_not_queued
  · exact work.taken_once
  · intro other after found' waits posted
    rcases Custody.update_eq_some_iff.mp found' with ⟨rfl, ⟨⟩⟩ | ⟨_, before⟩
    · rw [follows.resumed_eq] at waits
      exact work.found found waits (unposted posted)
    · exact work.found before waits posted

/-- The work of a call is put on the queue of its executor. -/
theorem Work.post (work : Work process) (found : process.calls call = some state)
    (follows : state.Follows state') (unposted : ¬state.phase.HasPosted) {xer : Executor}
    (awaits : state'.Awaits xer) :
    Work ((process.setCall call (some state')).setQueue xer (process.queue xer ++ [call])) := by
  have notQueued : ∀ xer, call ∉ process.queue xer := by
    intro xer member
    rcases work.queued member with ⟨before, found', isAwaited⟩
    rw [found] at found'
    cases found'
    exact unposted isAwaited.posted
  have notTaken : ∀ {runner}, process.runners runner ≠ .took call := by
    intro runner took
    rcases work.taken took with ⟨before, found', isAwaited⟩
    rw [found] at found'
    cases found'
    exact unposted isAwaited.posted
  have mem_iff : ∀ {other target}, other ∈ Function.update process.queue xer
      (process.queue xer ++ [call]) target ↔
        other ∈ process.queue target ∨ target = xer ∧ other = call := by
    intro other target
    by_cases same : target = xer
    · subst same
      simp
    · simp [same]
  have kept : ∀ {other before}, process.calls other = some before → other ≠ call →
      Function.update process.calls call (some state') other = some before :=
    fun found' differs => (Function.update_of_ne differs ..).trans found'
  constructor
  · intro other after found'
    rcases Custody.update_eq_some_iff.mp found' with ⟨_, ⟨⟩⟩ | ⟨_, before⟩
    · rw [follows.flow_eq, follows.taskExecutor_eq]
      exact work.executor found
    · exact work.executor before
  · intro other after found' resumed
    rcases Custody.update_eq_some_iff.mp found' with ⟨_, ⟨⟩⟩ | ⟨_, before⟩
    · exact awaits.posted
    · exact work.resumed_posted before resumed
  · intro target other member
    rcases mem_iff.mp member with before | ⟨rfl, rfl⟩
    · rcases work.queued before with ⟨after, found', isAwaited⟩
      refine ⟨after, kept found' ?_, isAwaited⟩
      rintro rfl
      exact notQueued _ before
    · exact ⟨state', Function.update_self .., awaits⟩
  · intro runner other took
    rcases work.taken took with ⟨before, found', isAwaited⟩
    refine ⟨before, kept found' ?_, isAwaited⟩
    rintro rfl
    exact notTaken took
  · intro target
    change (Function.update process.queue xer (process.queue xer ++ [call]) target).Nodup
    by_cases same : target = xer
    · subst same
      rw [Function.update_self, ← List.concat_eq_append, List.nodup_concat]
      exact ⟨notQueued target, work.nodup target⟩
    · rw [Function.update_of_ne same]
      exact work.nodup target
  · intro runner other took target member
    rcases mem_iff.mp member with before | ⟨_, rfl⟩
    · exact work.taken_not_queued took target before
    · exact notTaken took
  · exact work.taken_once
  · intro other after found' waits posted
    rcases Custody.update_eq_some_iff.mp found' with ⟨rfl, _⟩ | ⟨_, before⟩
    · exact .inl ⟨xer, mem_iff.mpr (.inr ⟨rfl, rfl⟩)⟩
    · rcases work.found before waits posted with ⟨target, member⟩ | taken
      · exact .inl ⟨target, mem_iff.mpr (.inl member)⟩
      · exact .inr taken

variable [Inhabited α] {user : β → Statement β α ε γ} {respond : γ → Except ε α → Prop}
  {task : Task β γ} {nthreads : Nat}

/-- It is enough that the new state of the call is right. -/
theorem Invariant.setCall (invariant : Invariant user respond task nthreads process)
    (found : process.calls call = some state) (follows : state.Follows state')
    (queue : Executor → List Nat)
    (called : ∀ {outcome}, state'.phase.outcome = some outcome → respond state'.callable outcome)
    (work : Work { process.setCall call (some state') with queue := queue }) :
    Invariant user respond task nthreads
      { process.setCall call (some state') with queue := queue } := by
  have steady := Steady.setCall found follows queue
  constructor
  · exact invariant.misuse_eq
  · exact invariant.terminated_eq
  · exact steady.counted invariant.counted
  · exact steady.placed invariant.placed
  · apply steady.answered invariant.answered
    intro other after outcome found' outcome_eq
    rcases Custody.update_eq_some_iff.mp found' with ⟨_, ⟨⟩⟩ | ⟨_, before⟩
    · exact called outcome_eq
    · exact invariant.answered.called before outcome_eq
  · exact work
  · exact steady.locks invariant.locks
  · exact steady.root invariant.root invariant.root.returned
  · exact ⟨invariant.crew.present, invariant.crew.main_only⟩

/-- The callable returns or throws. -/
theorem Invariant.invoked (invariant : Invariant user respond task nthreads process)
    (found : process.calls call = some state) (calling : state.phase = .calling)
    {outcome : Except ε α} (responds : respond state.callable outcome) :
    Invariant user respond task nthreads
      (process.setCall call (some { state with phase := .behind outcome })) := by
  have follows : state.Follows { state with phase := .behind outcome } := by
    refine ⟨rfl, rfl, rfl, rfl, rfl, fun posted => ?_⟩
    rw [calling] at posted
    cases posted
  apply invariant.setCall found follows process.queue
  · intro outcome' outcome_eq
    cases outcome with
    | ok value =>
        cases outcome_eq
        exact responds
    | error exception =>
        cases outcome_eq
        exact responds
  · apply invariant.work.setCall found follows
    intro posted
    cases outcome with
    | ok value => cases posted
    | error exception => cases posted

/-- The thread ends. -/
theorem Invariant.finish (invariant : Invariant user respond task nthreads process)
    (found : process.calls call = some state) {value : α} (posted : state.phase = .posted value) :
    Invariant user respond task nthreads
      (process.setCall call (some { state with phase := .ready value })) := by
  have follows : state.Follows { state with phase := .ready value } :=
    ⟨rfl, rfl, rfl, rfl, rfl, fun _ => trivial⟩
  apply invariant.setCall found follows process.queue
  · intro outcome outcome_eq
    apply invariant.answered.called found
    rw [posted]
    exact outcome_eq
  · apply invariant.work.setCall found follows
    intro _
    rw [posted]
    trivial

/-- The work is posted, unless the executor is gone. -/
theorem Invariant.post (invariant : Invariant user respond task nthreads process)
    (found : process.calls call = some state) {value : α} (returned : state.phase = .returned value) :
    Steps user respond task nthreads process (process.post call state value) := by
  have unposted : ¬state.phase.HasPosted := by
    rw [returned]
    exact id
  have waits : state.resumed = false := by
    cases resumed : state.resumed with
    | false => rfl
    | true => exact absurd (invariant.work.resumed_posted found resumed) unposted
  have follows : state.Follows { state with phase := .posted value } :=
    ⟨rfl, rfl, rfl, rfl, rfl, fun _ => trivial⟩
  rcases invariant.work.executor found with ⟨flow, flow_found, taskExecutor⟩
  unfold Process.post
  split
  next isNull =>
    rw [taskExecutor] at isNull
    cases isNull
  next xer isExecutor =>
    rw [taskExecutor] at isExecutor
    cases isExecutor
    split
    next result isWait main =>
      refine .of_flows_eq (.inr ⟨?_, rfl⟩) rfl fun found' _ _ => found'
      rcases invariant.root.returned main with ⟨mainFlow, main_found, ended⟩
      have outcome := invariant.answered.outcome_eq_none invariant.placed
        (Process.held_eq_some (Process.standing_call found waits)) flow_found
      have notMain : state.flow ≠ 0 := by
        intro isMain
        rw [isMain, main_found] at flow_found
        cases flow_found
        rw [ended] at outcome
        cases outcome
      constructor
      · exact .executorGone invariant.terminated_eq rfl main flow_found notMain isWait outcome
      · exact ⟨invariant.answered.1, invariant.answered.2, invariant.answered.3,
          invariant.answered.4⟩
      · exact ⟨invariant.root.1, invariant.root.2, invariant.root.3⟩
    next =>
      refine .of_flows_eq (.inl ?_) rfl ?_
      · apply invariant.setCall found follows (Function.update process.queue flow.xer
          (process.queue flow.xer ++ [call]))
        · intro outcome outcome_eq
          apply invariant.answered.called found
          rw [returned]
          exact outcome_eq
        · exact invariant.work.post found follows unposted ⟨waits, trivial, taskExecutor⟩
      · intro _ _ _ found' _ raised
        exact raised_kept_of_setCall found (by rw [returned]; rintro _ ⟨⟩) _ found' raised

end Calls

end SkAsync.Coroutine

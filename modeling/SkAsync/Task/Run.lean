import SkAsync.Library.Interleaving
import SkAsync.Task.Detach
import SkAsync.Task.Executors
import SkAsync.Task.Queue
import SkAsync.Task.Resume
import SkAsync.Task.Suspend

/-!
# Every interleaving

Each atomic step of a thread keeps the invariant or stops the process, so this holds
after every list of events.
-/

namespace SkAsync.Coroutine

open SkAsync.Library

variable {β α ε γ : Type} [Inhabited α] {user : β → Statement β α ε γ}
  {respond : γ → Except ε α → Prop} {task : Task β γ} {nthreads : Nat}

/-! ## The steps of the threads -/

variable {process process' : Process β α ε γ}

/-- What a coroutine does from its suspension point on. -/
theorem Invariant.advance {runner : Nat} {top : Activity} {below : List Activity}
    (invariant : Invariant user respond task nthreads process)
    (running : process.runners runner = .running top below)
    (advanced : process.advance user runner top below = some process') :
    Steps user respond task nthreads process process' := by
  rcases invariant.placed.stands (Process.standing_running running) with
    ⟨flow, frame, activation, located⟩
  have found : process.frames top.handle = some frame := located.frame_found
  have shows := located.shows
  unfold Process.advance at advanced
  rw [found] at advanced
  dsimp only at advanced
  cases shows with
  | @«at» position callers point chain =>
      have goesOn : frame.point ≠ .final := by
        rw [point]
        rintro ⟨⟩
      have isTask : ∀ task, frame.point ≠ .detached task := by
        rw [point]
        rintro _ ⟨⟩
      rw [point] at advanced
      dsimp only at advanced
      split at advanced
      next result command =>
        cases advanced
        cases callers with
        | cons next callers =>
            exact (invariant.finalSuspend running located point chain command).steps invariant
        | nil =>
            rcases located.rooted with ⟨root, root_found, _, ⟨isMain, previous⟩ | ⟨notMain, detach,
              owner, previous, newer, owner_found, own, detached, suspended⟩⟩
            · rw [← chain.eq_bottom, found] at root_found
              cases root_found
              have moves : Moves user respond process _ runner top below :=
                invariant.finalSuspend_main running located chain command isMain previous
              exact moves.steps invariant
            · rw [← chain.eq_bottom] at root_found newer detached
              rw [found] at root_found
              cases root_found
              have moves : Moves user respond process _ runner top below :=
                invariant.finalSuspend_detached running located chain command notMain previous
                  newer owner_found own detached (suspended goesOn)
              exact moves.steps invariant
      next callee next command =>
        cases advanced
        exact (invariant.coAwait running located point chain command).steps invariant
      next callable next command =>
        cases advanced
        refine .of_flows_eq (.inl (invariant.asyncInvoke running located point chain command)) rfl ?_
        intro call state exception found' _ _
        exact (Function.update_of_ne (invariant.counted.calls_lt found').ne ..).trans found'
      next next command =>
        cases advanced
        rcases chain.exists_frame with ⟨frame', frame_found, belongs⟩
        rw [found] at frame_found
        cases frame_found
        have goes := invariant.goOn running located chain goesOn isTask id (fun found' _ => found')
          (located.runs.tail (.request command)) belongs.taskExecutor_eq
        exact (Moves.goesOn goes.1 goes.2).steps invariant
      next detached xer next command =>
        cases advanced
        cases xer with
        | none =>
            have chosen := started_executor located.runs
              (fun exchange member => invariant.answered.fits located.flow_found member) command
            exact absurd rfl chosen
        | some xer => exact (invariant.start running located point chain command).steps invariant
  | awaiting point ended_found own final result newer chain =>
      rw [point] at advanced
      dsimp only at advanced
      rw [ended_found] at advanced
      cases advanced
      rw [result]
      exact (invariant.awaitResume running located point ended_found own final newer chain).steps
        invariant
  | @invoking call locked next position state callers point command called own chain =>
      rcases located.allows.2 call locked next point with ⟨state', called', _, resumed, posted⟩
      rw [called] at called'
      cases called'
      have goesOn : frame.point ≠ .final := by
        rw [point]
        rintro ⟨⟩
      have isTask : ∀ task, frame.point ≠ .detached task := by
        rw [point]
        rintro _ ⟨⟩
      rw [point] at advanced
      dsimp only at advanced
      rw [called] at advanced
      dsimp only at advanced
      split at advanced
      next value ready =>
        cases advanced
        have responds := invariant.answered.called called (by rw [ready]; rfl)
        have kept : ∀ {other before}, process.calls other = some before →
            before.flow ≠ top.flow ∨ before.resumed = false →
              Function.update process.calls call none other = some before := by
          intro other before found' isOther
          refine (Function.update_of_ne ?_ ..).trans found'
          rintro rfl
          rw [called] at found'
          cases found'
          rcases isOther with differs | waits
          · exact differs own
          · rw [resumed] at waits
            cases waits
        have goes := invariant.goOn running located chain goesOn isTask (by
          intro other before found'
          rcases Custody.update_eq_some_iff.mp found' with ⟨_, ⟨⟩⟩ | ⟨_, before'⟩
          exact before') kept (located.runs.tail (.request command)) responds
        exact (Moves.goesOn goes.1 goes.2).steps invariant
      next exception raised =>
        rw [raised] at posted
        cases posted
      next => cases advanced
  | @starting detached xer next position callers point command chain =>
      have goesOn : frame.point ≠ .final := by
        rw [point]
        rintro ⟨⟩
      have isTask : ∀ task, frame.point ≠ .detached task := by
        rw [point]
        rintro _ ⟨⟩
      rw [point] at advanced
      cases advanced
      have runs : Runs (program user) ⟨.run flow.task.entry, []⟩
          (flow.log ++ [⟨.start detached xer, .ok ()⟩]) ⟨.run (next (.ok ())), callers⟩ :=
        located.runs.tail (.request command)
      have goes := invariant.goOn running located chain goesOn isTask id (fun found' _ => found')
        runs trivial
      exact (Moves.goesOn goes.1 goes.2).steps invariant
  | detached point ended_found own final result previous newer =>
      rw [point] at advanced
      cases advanced
      exact invariant.endDetached running located ended_found own result previous

/-- A callable returns or throws what it may. -/
def Event.Answers (respond : γ → Except ε α → Prop) (process : Process β α ε γ) :
    Event α ε → Prop
  | .invoked call outcome =>
      ∀ state, process.calls call = some state → respond state.callable outcome
  | _ => True

omit [Inhabited α] in
/-- Whether a callable does what it may is found out by looking at its call. -/
instance Event.decidableAnswers [∀ callable outcome, Decidable (respond callable outcome)]
    (process : Process β α ε γ) (event : Event α ε) : Decidable (event.Answers respond process) :=
  match event with
  | .invoked call outcome =>
      match found : process.calls call with
      | none => isTrue fun state found' => by
          rw [found] at found'
          cases found'
      | some state => decidable_of_iff (respond state.callable outcome) (by
          constructor
          · intro responds state' found'
            rw [found] at found'
            cases found'
            exact responds
          · exact fun responds => responds state found)
  | .post _ => isTrue trivial
  | .finish _ => isTrue trivial
  | .dequeue _ => isTrue trivial
  | .resume _ => isTrue trivial
  | .advance _ => isTrue trivial
  | .unlock _ => isTrue trivial

/-- A process that goes on is not kept from its steps. -/
theorem Invariant.step_eq (invariant : Invariant user respond task nthreads process)
    (event : Event α ε) : process.step user event = process.act user event := by
  rw [Process.step, invariant.misuse_eq, invariant.terminated_eq]
  rfl

omit [Inhabited α] in
theorem Event.answers_all (event : Event α ε) (process : Process β α ε γ) :
    event.Answers (fun _ _ => True) process := by
  cases event with
  | invoked call outcome => exact fun _ _ => trivial
  | _ => trivial

/-- One atomic step of a thread. -/
theorem Invariant.step {event : Event α ε}
    (invariant : Invariant user respond task nthreads process)
    (answers : event.Answers respond process) (stepped : process.step user event = some process') :
    Steps user respond task nthreads process process' := by
  rw [invariant.step_eq] at stepped
  unfold Process.act at stepped
  cases event with
  | invoked call outcome =>
      dsimp only at stepped
      split at stepped
      next state found =>
        split at stepped
        next calling =>
          cases stepped
          refine .of_flows_eq (.inl (invariant.invoked found calling (answers state found))) rfl ?_
          intro _ _ _ found' _ raised
          exact raised_kept_of_setCall found (by rw [calling]; rintro _ ⟨⟩) _ found' raised
        next => cases stepped
      next => cases stepped
  | post call =>
      dsimp only at stepped
      split at stepped
      next state found =>
        split at stepped
        next value returned =>
          cases stepped
          exact invariant.post found returned
        next => cases stepped
      next => cases stepped
  | finish call =>
      dsimp only at stepped
      split at stepped
      next state found =>
        split at stepped
        next value posted =>
          cases stepped
          refine .of_flows_eq (.inl (invariant.finish found posted)) rfl ?_
          intro _ _ _ found' _ raised
          exact raised_kept_of_setCall found (by rw [posted]; rintro _ ⟨⟩) _ found' raised
        next => cases stepped
      next => cases stepped
  | dequeue runner =>
      dsimp only at stepped
      split at stepped
      next idle =>
        rcases invariant.dequeue idle stepped with ⟨invariant', flows_eq, calls_eq⟩
        refine .of_flows_eq (.inl invariant') flows_eq ?_
        rw [calls_eq]
        exact fun found _ _ => found
      next => cases stepped
  | resume runner =>
      dsimp only at stepped
      split at stepped
      next call took =>
        rcases invariant.runWork took stepped with ⟨state, frame, next, resumed⟩
        refine .of_flows_eq (.inl (resumed.invariant invariant)) (by rw [resumed.result]; rfl) ?_
        rw [resumed.calls_eq]
        intro _ _ _ found' _ raised
        apply raised_kept_of_setCall resumed.found _ _ found' raised
        intro exception raised'
        have posted := resumed.posted
        rw [raised'] at posted
        cases posted
      next => cases stepped
  | advance runner =>
      dsimp only at stepped
      split at stepped
      next top below running => exact invariant.advance running stepped
      next => cases stepped
  | unlock runner =>
      dsimp only at stepped
      split at stepped
      next top below suspending =>
        cases stepped
        rcases invariant.unlock suspending with ⟨call, state, frame, next, unlocked⟩
        refine .of_flows_eq (.inl (unlocked.invariant invariant)) (by rw [unlocked.result]; rfl) ?_
        rw [unlocked.result]
        exact fun found _ _ => found
      next => cases stepped

/-- A process that has stopped makes no step. -/
theorem Process.Halts.step_eq_none (halts : process.Halts) (event : Event α ε) :
    process.step user event = none := by
  unfold Process.step
  cases halts with
  | terminated terminated => simp [terminated]
  | executorGone _ misuse => simp [misuse]

/-! ## Runs -/

section Initial

/-- The frame of the task of `wait`. -/
theorem initial_frames :
    (Process.initial task nthreads : Process β α ε γ).frames = Function.update (fun _ => none) 0
      (some ⟨false, .at task.entry, { Promise.initial with taskExecutor := some .wait }, 0⟩) :=
  rfl

theorem initial_flows :
    (Process.initial task nthreads : Process β α ε γ).flows =
      Function.update (fun _ => none) 0 (some ⟨task, .wait, 0, [], none⟩) :=
  rfl

theorem initial_flow {identity : Nat} {flow : Flow β α ε γ}
    (found : (Process.initial task nthreads : Process β α ε γ).flows identity = some flow) :
    identity = 0 ∧ flow = ⟨task, .wait, 0, [], none⟩ := by
  rw [initial_flows] at found
  rcases Custody.update_eq_some_iff.mp found with ⟨main, same⟩ | ⟨_, ⟨⟩⟩
  exact ⟨main, (Option.some.inj same).symm⟩

/-- The main thread runs the task, and the threads of the system executor wait for work. -/
theorem initial_runner {runner : Nat} {now : Runner α ε}
    (found : (Process.initial task nthreads : Process β α ε γ).runners runner = now) :
    runner = 0 ∧ now = .running ⟨0, 0⟩ [] ∨ runner ≠ 0 ∧ now = .idle ∨
      nthreads < runner ∧ now = .absent := by
  by_cases main : runner = 0
  · exact .inl ⟨main, found.symm.trans (if_pos main)⟩
  · by_cases inside : runner ≤ nthreads
    · exact .inr (.inl ⟨main, found.symm.trans ((if_neg main).trans (if_pos inside))⟩)
    · exact .inr (.inr ⟨Nat.lt_of_not_le inside,
        found.symm.trans ((if_neg main).trans (if_neg inside))⟩)

theorem initial_standing :
    (Process.initial task nthreads : Process β α ε γ).standing =
      Function.update (fun _ => none) (.slot 0 0) (some ⟨⟨0, 0⟩, .goesOn⟩) := by
  funext place
  cases place with
  | call call =>
      rw [Function.update_of_ne (by rintro ⟨⟩)]
      rfl
  | slot runner depth =>
      rw [Process.standing]
      have elsewhere : runner ≠ 0 ∨ depth ≠ 0 → Place.slot runner depth ≠ .slot 0 0 := by
        rintro (differs | differs) ⟨⟩
        · exact differs rfl
        · exact differs rfl
      generalize found : (Process.initial task nthreads : Process β α ε γ).runners runner = now
      rcases initial_runner found with ⟨rfl, rfl⟩ | ⟨differs, rfl⟩ | ⟨outside, rfl⟩
      · by_cases onTop : depth = 0
        · subst onTop
          simp [Runner.stack]
        · rw [Function.update_of_ne (elsewhere (.inr onTop))]
          simp [Runner.stack, starts, onTop]
      · rw [Function.update_of_ne (elsewhere (.inl differs))]
        rfl
      · rw [Function.update_of_ne (elsewhere (.inl ((Nat.zero_le _).trans_lt outside).ne'))]
        rfl

theorem initial_stands : Stands user (Process.initial task nthreads) ⟨⟨0, 0⟩, .goesOn⟩ := by
  have found : (Process.initial task nthreads : Process β α ε γ).frames 0 =
      some ⟨false, .at task.entry, { Promise.initial with taskExecutor := some .wait }, 0⟩ := by
    rw [initial_frames]
    exact Function.update_self ..
  refine ⟨⟨task, .wait, 0, [], none⟩, ⟨false, .at task.entry,
    { Promise.initial with taskExecutor := some .wait }, 0⟩, ⟨.run task.entry, []⟩, ?_⟩
  constructor
  · rw [initial_flows]
    exact Function.update_self ..
  · exact found
  · rfl
  · refine ⟨rfl, ?_⟩
    rintro call locked next ⟨⟩
  · exact .at rfl (.bottom found ⟨rfl, rfl, rfl⟩)
  · exact .refl _
  · exact ⟨_, found, rfl, .inl ⟨rfl, rfl⟩⟩

theorem initial_placed : Placed user (Process.initial task nthreads) := by
  constructor
  · have held_eq : (Process.initial task nthreads : Process β α ε γ).held =
        Function.update (fun _ => none) (.slot 0 0) (some 0) := by
      funext place
      rw [Process.held, initial_standing]
      by_cases onTop : place = .slot 0 0
      · simp [onTop]
      · simp [onTop]
    rw [held_eq]
    apply Custody.nothing.take rfl List.not_mem_nil
    intro other
    rw [List.mem_range, or_iff_left List.not_mem_nil]
    exact Nat.lt_one_iff
  · intro place standing found
    rw [initial_standing] at found
    rcases Custody.update_eq_some_iff.mp found with ⟨_, ⟨⟩⟩ | ⟨_, ⟨⟩⟩
    exact initial_stands

theorem initial_invariant :
    Invariant user respond task nthreads (Process.initial task nthreads) := by
  -- No thread has anything to do with a call.
  have noCall : ∀ {runner} {now : Runner α ε}, ¬now.Goes → now ≠ .absent →
      (Process.initial task nthreads : Process β α ε γ).runners runner ≠ now := by
    intro runner now stays present found
    rcases initial_runner found with ⟨_, rfl⟩ | ⟨_, rfl⟩ | ⟨_, rfl⟩
    · exact stays trivial
    · exact stays trivial
    · exact present rfl
  constructor
  · rfl
  · rfl
  · constructor
    · intro handle frame found
      rw [initial_frames] at found
      rcases Custody.update_eq_some_iff.mp found with ⟨rfl, _⟩ | ⟨_, ⟨⟩⟩
      exact Nat.one_pos
    · rintro call state ⟨⟩
    · intro identity flow found
      rw [(initial_flow found).1]
      exact Nat.one_pos
  · exact initial_placed
  · constructor
    · intro identity flow found
      rw [(initial_flow found).2]
      constructor
      · rintro ⟨⟩
      · rintro ⟨⟩
    · intro identity flow result found ended
      rw [(initial_flow found).2] at ended
      cases ended
    · intro identity flow exchange found member
      rw [(initial_flow found).2] at member
      cases member
    · rintro call state outcome ⟨⟩
  · constructor
    · rintro call state ⟨⟩
    · rintro call state ⟨⟩
    · rintro xer call ⟨⟩
    · exact fun took => absurd took (noCall id (by rintro ⟨⟩))
    · exact fun _ => List.nodup_nil
    · exact fun took => absurd took (noCall id (by rintro ⟨⟩))
    · exact fun took => absurd took (noCall id (by rintro ⟨⟩))
    · rintro call state ⟨⟩
  · constructor
    · exact fun suspending => absurd suspending (noCall id (by rintro ⟨⟩))
    · exact fun suspending => absurd suspending (noCall id (by rintro ⟨⟩))
    · rintro call other state frame next ⟨⟩
  · constructor
    · rw [initial_flows]
      exact ⟨_, Function.update_self .., rfl, rfl, rfl⟩
    · intro flow result found ended
      rw [(initial_flow found).2] at ended
      cases ended
    · exact fun returned => absurd returned (noCall id (by rintro ⟨⟩))
  · constructor
    · intro runner inside absent
      rcases initial_runner absent with ⟨_, ⟨⟩⟩ | ⟨_, ⟨⟩⟩ | ⟨outside, _⟩
      exact absurd inside (Nat.not_le.mpr outside)
    · exact fun returned => absurd returned (noCall id (by rintro ⟨⟩))

end Initial

/-- What holds after every list of events in which the callables do what they may. -/
theorem run_invariant {events : List (Event α ε)} {final : Process β α ε γ}
    (answers : Along (Process.step user) (fun process event => event.Answers respond process)
      (Process.initial task nthreads) events)
    (ran : execute (Process.step user) (Process.initial task nthreads) events = some final) :
    Invariant user respond task nthreads final ∨ Stopped user respond task final := by
  apply answers.invariant _ (.inl initial_invariant) ran
  rintro process event next (invariant | stopped) answered stepped
  · exact (invariant.step answered stepped).sound.imp_right And.left
  · rw [stopped.halts.step_eq_none] at stepped
    cases stepped

/-- Whatever the callables do. -/
theorem run_sound {events : List (Event α ε)} {final : Process β α ε γ}
    (ran : execute (Process.step user) (Process.initial task nthreads) events = some final) :
    Invariant user (fun _ _ => True) task nthreads final ∨
      Stopped user (fun _ _ => True) task final :=
  run_invariant (along_of_forall (fun process event => event.answers_all process) _ _) ran

end SkAsync.Coroutine

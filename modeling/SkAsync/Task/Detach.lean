import SkAsync.Task.Advance

/-!
# Detached tasks

`co_detach` starts a flow of its own from within `start()`.  When this flow ends, its
frames are destroyed, and an exception leaves the call of `resume()` in which it has
ended: `start()`, if it is still in that, or a piece of work.
-/

namespace SkAsync.Coroutine

open SkAsync.Library

variable {β α ε γ : Type} [Inhabited α] {user : β → Statement β α ε γ}
  {respond : γ → Except ε α → Prop} {task : Task β γ} {nthreads : Nat}
  {process : Process β α ε γ} {runner : Nat} {top : Activity} {below : List Activity}
  {flow : Flow β α ε γ} {frame : Frame β α ε γ}
  {callers : List (Except ε α → Position β α ε γ)} {position : Position β α ε γ}

/-- A task is started that nothing awaits. -/
theorem Invariant.start (invariant : Invariant user respond task nthreads process)
    (running : process.runners runner = .running top below)
    (located : Located user process ⟨top, .goesOn⟩ flow frame ⟨.run position, callers⟩)
    (point : frame.point = .at position)
    (chain : Chain process.frames top.flow flow.xer flow.bottom top.handle callers)
    {detached : Task β γ} {xer : Executor} {next : Except ε Unit → Position β α ε γ}
    (command : program user position = .request (.start detached (some xer)) next) :
    Moves user respond process (process.start runner top below frame detached (some xer) next)
      runner top below := by
  rcases chain.exists_frame with ⟨frame', frame_found, belongs⟩
  rw [located.frame_found] at frame_found
  cases frame_found
  have older := invariant.counted.frames_lt located.frame_found
  have flow_lt := invariant.counted.flows_lt located.flow_found
  let promise : Promise α ε := { Promise.initial with
    previous := some (process.nextFrame + 1)
    taskExecutor := some xer }
  let started : Frame β α ε γ := ⟨false, .at detached.entry, promise, process.nextFlow⟩
  let owner : Frame β α ε γ :=
    ⟨true, .detached process.nextFrame, Promise.initial, process.nextFlow⟩
  have step : StartStep process (process.start runner top below frame detached (some xer) next)
      runner top ⟨process.nextFrame, process.nextFlow⟩ below
        ⟨detached, xer, process.nextFrame, [], none⟩ := by
    constructor
    · exact running
    · rfl
    · rfl
    · rfl
    · intro handle other found differs
      have inside := invariant.counted.frames_lt found
      have isOther := ne_of_flow_ne located.frame_found located.own found differs
      exact (Function.update_of_ne (inside.trans (Nat.lt_succ_self _)).ne ..).trans
        ((Function.update_of_ne inside.ne ..).trans ((Function.update_of_ne isOther ..).trans found))
    · intro handle other found
      have grown : process.nextFrame < process.nextFrame + 1 + 1 :=
        (Nat.lt_succ_self _).trans (Nat.lt_succ_self _)
      rcases Custody.update_eq_some_iff.mp found with ⟨rfl, _⟩ | ⟨_, before⟩
      · exact Nat.lt_succ_self _
      · rcases Custody.update_eq_some_iff.mp before with ⟨rfl, _⟩ | ⟨_, before⟩
        · exact grown
        · rcases Custody.update_eq_some_iff.mp before with ⟨rfl, _⟩ | ⟨_, before⟩
          · exact older.trans grown
          · exact (invariant.counted.frames_lt before).trans grown
    · rfl
  have started_found : (process.start runner top below frame detached (some xer) next).frames
      process.nextFrame = some started :=
    (Function.update_of_ne (Nat.lt_succ_self _).ne ..).trans (Function.update_self ..)
  have owner_found : (process.start runner top below frame detached (some xer) next).frames
      (process.nextFrame + 1) = some owner := Function.update_self ..
  apply Moves.starts step
  · exact ⟨top.flow, flow, position, callers, next, located.flow_found, located.runs, command⟩
  · refine ⟨flow, { frame with point := .starting detached (some xer) next },
      ⟨.run position, callers⟩, ?_⟩
    have older' := older.trans (Nat.lt_succ_self _)
    constructor
    · exact (Function.update_of_ne flow_lt.ne ..).trans located.flow_found
    · exact (Function.update_of_ne older'.ne ..).trans
        ((Function.update_of_ne older.ne ..).trans (Function.update_self ..))
    · exact located.own
    · exact ⟨located.allows.1, _, _, _, rfl⟩
    · apply Shows.starting rfl command
      have onTop : Chain (Function.update process.frames top.handle (some { frame with
          point := .starting detached (some xer) next })) top.flow flow.xer flow.bottom top.handle
            callers :=
        chain.setTop located.frame_found ⟨belongs.1, belongs.2, belongs.3⟩ rfl
      exact (onTop.setNewer older _).setNewer older' _
    · exact located.runs
    · have isNew := invariant.counted.frame_eq_none (Nat.le_refl process.nextFrame)
      have isNew' := invariant.counted.frame_eq_none (Nat.le_succ process.nextFrame)
      apply Rooted.setNew
      · apply Rooted.setNew
        · apply located.rooted.setTop located.frame_found
          · rw [point]
            rintro ⟨⟩
          · rw [point]
            rintro _ ⟨⟩
          · rfl
          · rfl
        · exact (Function.update_of_ne older.ne' ..).trans isNew
      · exact (Function.update_of_ne (Nat.lt_succ_self _).ne' ..).trans
          ((Function.update_of_ne older'.ne' ..).trans isNew')
  · refine ⟨⟨detached, xer, process.nextFrame, [], none⟩, started, ⟨.run detached.entry, []⟩, ?_⟩
    constructor
    · exact Function.update_self ..
    · exact started_found
    · rfl
    · refine ⟨rfl, ?_⟩
      rintro call locked next' ⟨⟩
    · exact .at rfl (.bottom started_found ⟨rfl, rfl, rfl⟩)
    · exact .refl _
    · refine ⟨started, started_found, rfl, .inr ⟨((Nat.zero_le _).trans_lt flow_lt).ne', ?_⟩⟩
      exact ⟨process.nextFrame + 1, owner, rfl, Nat.lt_succ_self _, owner_found, rfl, rfl,
        fun _ => rfl⟩

/-- An exception leaves a call of `start()`. -/
theorem Invariant.escape
    (invariant : Invariant user respond task nthreads
      (process.setRunner runner (.running top below)))
    {activation : Activation (Position β α ε γ) (Except ε α)}
    (located : Located user (process.setRunner runner (.running top below)) ⟨top, .inStart⟩ flow
      frame activation) (exception : ε) :
    OwnStep respond (process.setRunner runner (.running top below))
        (process.escape runner exception (top :: below)) runner top top below ∧
      Stands user (process.escape runner exception (top :: below)) ⟨top, .goesOn⟩ := by
  rcases located.allows with ⟨_, detached, xer, next, point⟩
  have found : process.frames top.handle = some frame := located.frame_found
  have escaped : process.escape runner exception (top :: below) =
      (process.setRunner runner (.running top below)).goOn top frame
        ⟨.start detached xer, .error exception⟩ (next (.error exception)) := by
    unfold Process.escape
    dsimp only
    rw [found]
    dsimp only
    rw [point]
    rfl
  rw [escaped]
  have goesOn : frame.point ≠ .final := by
    rw [point]
    rintro ⟨⟩
  have isTask : ∀ task, frame.point ≠ .detached task := by
    rw [point]
    rintro _ ⟨⟩
  have shows := located.shows
  cases shows with
  | starting point' command chain =>
      rw [point] at point'
      cases point'
      exact invariant.goOn (Function.update_self ..) located.goesOn chain goesOn isTask id
        (fun found' _ => found') (located.runs.tail (.request command)) trivial
  | «at» point' => exact absurd (point.symm.trans point') (by rintro ⟨⟩)
  | awaiting point' => exact absurd (point.symm.trans point') (by rintro ⟨⟩)
  | invoking point' => exact absurd (point.symm.trans point') (by rintro ⟨⟩)
  | detached point' => exact absurd (point.symm.trans point') (by rintro ⟨⟩)

/-- A detached task that has ended is destroyed, with the coroutine that owned it. -/
theorem Invariant.endDetached (invariant : Invariant user respond task nthreads process)
    (running : process.runners runner = .running top below) {result : Except ε α}
    (located : Located user process ⟨top, .goesOn⟩ flow frame ⟨.ret result, []⟩)
    {ended : Frame β α ε γ} (found : process.frames flow.bottom = some ended)
    (own : ended.flow = top.flow) (awaitResume : ended.promise.awaitResume = result)
    (previous : ended.promise.previous = some top.handle) :
    Steps user respond task nthreads process
      (process.endDetached runner top below frame flow.bottom) := by
  have notMain : top.flow ≠ 0 := by
    intro isMain
    rcases located.rooted with ⟨root, root_found, _, ⟨_, none⟩ | ⟨notMain, _⟩⟩
    · rw [found] at root_found
      cases root_found
      rw [previous] at none
      cases none
    · exact notMain isMain
  -- The flow ends in the same way whether the frame of its owner is kept or not.
  have settles : ∀ owner : Option (Frame β α ε γ),
      EndStep process ((((process.setFrame flow.bottom none).setFrame top.handle owner).settle
        top.flow result).setRunner runner (Process.pop below)) runner top below result := by
    intro owner
    constructor
    · exact running
    · intro handle other found' differs
      have notTask := ne_of_flow_ne found own found' differs
      have notOwner := ne_of_flow_ne located.frame_found located.own found' differs
      exact (Function.update_of_ne notOwner ..).trans
        ((Function.update_of_ne notTask ..).trans found')
    · intro handle other found'
      rcases Custody.update_eq_some_iff.mp found' with ⟨rfl, _⟩ | ⟨_, before⟩
      · exact invariant.counted.frames_lt located.frame_found
      · rcases Custody.update_eq_some_iff.mp before with ⟨_, ⟨⟩⟩ | ⟨_, before⟩
        exact invariant.counted.frames_lt before
    · rfl
  have evaluates : ∀ {flow'}, process.flows top.flow = some flow' →
      Evaluates (program user) flow'.task.entry flow'.log result := by
    intro flow' found'
    rw [located.flow_found] at found'
    cases found'
    exact runs_ret_iff.mp located.runs
  have moves : ∀ owner, Moves user respond process _ runner top below := fun owner =>
    .ends (settles owner) evaluates fun isMain => absurd isMain notMain
  unfold Process.endDetached
  rw [found]
  dsimp only
  rw [awaitResume]
  cases result with
  | ok value => exact (moves none).steps invariant
  | error exception =>
      have step := settles (some { frame with suspended := true, point := .final })
      have kept := (moves (some { frame with suspended := true, point := .final })).invariant
        invariant
      have before := (moves (some { frame with suspended := true, point := .final })).steps
        invariant
      cases below with
      | nil =>
          have flow_found := step.flows_eq_some_iff.mpr ⟨flow, located.flow_found, rfl⟩
          rw [if_pos rfl] at flow_found
          refine ⟨.inr ⟨?_, rfl⟩, before.flow_from, before.raised_kept⟩
          constructor
          · exact .terminated rfl kept.misuse_eq flow_found notMain rfl
          · exact ⟨kept.answered.1, kept.answered.2, kept.answered.3, kept.answered.4⟩
          · refine ⟨kept.root.1, kept.root.2, fun returned => ?_⟩
            rcases invariant.root.returned returned with ⟨main, main_found, outcome⟩
            exact ⟨main, (Function.update_of_ne (Ne.symm notMain) ..).trans main_found, outcome⟩
      | cons top' below' =>
          have standing : starts (top' :: below') below'.length = some ⟨top', .inStart⟩ :=
            Function.update_self ..
          rcases step.leaves.starts_stands invariant.placed standing with
            ⟨flow', frame', activation, starter⟩
          rcases kept.escape starter exception with ⟨escapes, stands⟩
          have after := (Moves.goesOn escapes stands).steps kept
          refine ⟨after.sound.imp_right ?_, ?_, ?_⟩
          · rintro ⟨stopped, _⟩
            exact absurd stopped.halts (escapes.invariant kept stands).not_halts
          · intro identity flow'' found'
            rcases escapes.exists_flow found' with ⟨middle, middle_found⟩
            rcases escapes.flow_continues middle_found with ⟨last, last_found, continues, _⟩
            rw [found'] at last_found
            cases last_found
            rcases step.flows_eq_some_iff.mp middle_found with ⟨first, first_found, rfl⟩
            refine .inl ⟨first, first_found, .trans ?_ continues⟩
            split
            next => exact ⟨rfl, rfl, rfl⟩
            next => exact .refl first
          · exact fun found' waits raised =>
              after.raised_kept (before.raised_kept found' waits raised) waits raised

end SkAsync.Coroutine

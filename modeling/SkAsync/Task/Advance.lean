import SkAsync.Task.Step

/-!
# What a coroutine does

Each kind of suspension point is gone on from as the program says: the link to the
awaiting coroutine is used where a procedure returns, a new frame where it calls.
-/

namespace SkAsync.Coroutine

open SkAsync.Library

variable {β α ε γ : Type} [Inhabited α] {user : β → Statement β α ε γ}
  {respond : γ → Except ε α → Prop} {task : Task β γ} {nthreads : Nat}
  {process : Process β α ε γ} {runner : Nat} {top : Activity} {below : List Activity}
  {flow : Flow β α ε γ} {frame : Frame β α ε γ}
  {activation : Activation (Position β α ε γ) (Except ε α)}
  {callers : List (Except ε α → Position β α ε γ)} {position : Position β α ε γ}

omit [Inhabited α] in
/-- The frames of different flows are different. -/
theorem ne_of_flow_ne {frames : Frames β α ε γ} {handle other identity : Nat}
    {frame other' : Frame β α ε γ} (found : frames handle = some frame)
    (own : frame.flow = identity) (found' : frames other = some other')
    (differs : other'.flow ≠ identity) : other ≠ handle := by
  rintro rfl
  rw [found] at found'
  cases found'
  exact differs own

omit [Inhabited α] in
theorem Counted.frame_eq_none (counted : Counted process) {handle : Nat}
    (isNew : process.nextFrame ≤ handle) : process.frames handle = none := by
  cases found : process.frames handle with
  | none => rfl
  | some other => exact absurd (counted.frames_lt found) (Nat.not_lt.mpr isNew)

omit [Inhabited α] in
/-- A step that changes two frames, which belong to the flow on top or are new. -/
theorem OwnStep.of_frames (counted : Counted process)
    (running : process.runners runner = .running top below) {first second handle nextFrame : Nat}
    {firstFrame secondFrame : Option (Frame β α ε γ)} (first_lt : first < nextFrame)
    (second_lt : second < nextFrame) (grows : process.nextFrame ≤ nextFrame)
    (own : ∀ {other frame}, process.frames other = some frame → frame.flow ≠ top.flow →
      other ≠ first ∧ other ≠ second) {runners : Nat → Runner α ε}
    (runners_eq :
      runners = Function.update process.runners runner (.running ⟨handle, top.flow⟩ below)) :
    OwnStep respond process { process with
      frames := Function.update (Function.update process.frames first firstFrame) second secondFrame
      nextFrame := nextFrame
      runners := runners } runner top ⟨handle, top.flow⟩ below := by
  constructor
  · exact running
  · rfl
  · intro other frame found differs
    rcases own found differs with ⟨notFirst, notSecond⟩
    exact (Function.update_of_ne notSecond ..).trans
      ((Function.update_of_ne notFirst ..).trans found)
  · intro other frame found
    rcases Custody.update_eq_some_iff.mp found with ⟨rfl, _⟩ | ⟨_, before⟩
    · exact second_lt
    · rcases Custody.update_eq_some_iff.mp before with ⟨rfl, _⟩ | ⟨_, before⟩
      · exact first_lt
      · exact (counted.frames_lt before).trans_le grows
  · exact id
  · exact fun found _ => found
  · exact .inl rfl
  · rw [runners_eq]

/-! ## Going on in the same coroutine -/

/-- A flow goes on with an answer, by which the object of a call may be destroyed. -/
theorem Invariant.goOn (invariant : Invariant user respond task nthreads process)
    (running : process.runners runner = .running top below)
    (located : Located user process ⟨top, .goesOn⟩ flow frame activation)
    (chain : Chain process.frames top.flow flow.xer flow.bottom top.handle callers)
    (goesOn : frame.point ≠ .final) (isTask : ∀ task, frame.point ≠ .detached task)
    {calls : Nat → Option (Call α ε γ)}
    (calls_from : ∀ {call state}, calls call = some state → process.calls call = some state)
    (calls_kept : ∀ {call state}, process.calls call = some state →
      state.flow ≠ top.flow ∨ state.resumed = false → calls call = some state)
    {exchange : Exchange β α ε γ}
    (runs : Runs (program user) ⟨.run flow.task.entry, []⟩ (flow.log ++ [exchange])
      ⟨.run position, callers⟩)
    (fits : Fits respond flow.xer exchange) :
    OwnStep respond process
        (Process.goOn { process with calls := calls } top frame exchange position) runner top top
          below ∧
      Stands user (Process.goOn { process with calls := calls } top frame exchange position)
        ⟨top, .goesOn⟩ := by
  rcases chain.exists_frame with ⟨frame', found', belongs⟩
  rw [located.frame_found] at found'
  cases found'
  have step : OwnStep respond process
      (Process.goOn { process with calls := calls } top frame exchange position)
        runner top top below := by
    constructor
    · exact running
    · rfl
    · intro handle other found differs
      have isOther := ne_of_flow_ne located.frame_found located.own found differs
      exact (Function.update_of_ne isOther ..).trans found
    · intro handle other found
      rcases Custody.update_eq_some_iff.mp found with ⟨rfl, _⟩ | ⟨_, before⟩
      · exact invariant.counted.frames_lt located.frame_found
      · exact invariant.counted.frames_lt before
    · exact calls_from
    · exact calls_kept
    · refine .inr ⟨exchange, rfl, fun found => ?_⟩
      rw [located.flow_found] at found
      cases found
      exact fits
    · rw [← running, Function.update_eq_self]
      rfl
  refine ⟨step, ?_⟩
  refine ⟨{ flow with log := flow.log ++ [exchange] }, { frame with point := .at position },
    ⟨.run position, callers⟩, ?_⟩
  constructor
  · exact update_map_eq_some_iff.mpr ⟨flow, located.flow_found, (if_pos rfl).symm⟩
  · exact Function.update_self ..
  · exact located.own
  · refine ⟨located.allows.1, ?_⟩
    rintro call locked next ⟨⟩
  · exact .at rfl (chain.setTop located.frame_found ⟨belongs.1, belongs.2, belongs.3⟩ rfl)
  · exact runs
  · exact located.rooted.setTop located.frame_found goesOn isTask rfl rfl

/-! ## A task awaits another -/

theorem Invariant.coAwait (invariant : Invariant user respond task nthreads process)
    (running : process.runners runner = .running top below)
    (located : Located user process ⟨top, .goesOn⟩ flow frame ⟨.run position, callers⟩)
    (point : frame.point = .at position)
    (chain : Chain process.frames top.flow flow.xer flow.bottom top.handle callers)
    {callee : Position β α ε γ} {next : Except ε α → Position β α ε γ}
    (command : program user position = .call callee next) :
    Moves user respond process (process.coAwait runner top below frame callee next) runner top
      below := by
  rcases chain.exists_frame with ⟨frame', found', belongs⟩
  rw [located.frame_found] at found'
  cases found'
  have older := invariant.counted.frames_lt located.frame_found
  have isNew := invariant.counted.frame_eq_none (Nat.le_refl _)
  have step : OwnStep respond process (process.coAwait runner top below frame callee next) runner
      top ⟨process.nextFrame, top.flow⟩ below := by
    apply OwnStep.of_frames invariant.counted running
    · exact older.trans (Nat.lt_succ_self _)
    · exact Nat.lt_succ_self _
    · exact Nat.le_succ _
    · intro other other' found differs
      exact ⟨ne_of_flow_ne located.frame_found located.own found differs,
        (invariant.counted.frames_lt found).ne⟩
    · rfl
  apply Moves.goesOn step
  let promise : Promise α ε := { Promise.initial with
    previous := some top.handle
    taskExecutor := frame.promise.taskExecutor }
  refine ⟨flow, ⟨false, .at callee, promise, top.flow⟩, ⟨.run callee, next :: callers⟩, ?_⟩
  constructor
  · exact located.flow_found
  · exact Function.update_self ..
  · rfl
  · refine ⟨rfl, ?_⟩
    rintro call locked next ⟨⟩
  · apply Shows.at rfl
    have waiting : Chain (Function.update process.frames top.handle (some { frame with
        suspended := true, point := .awaiting process.nextFrame next })) top.flow flow.xer
          flow.bottom top.handle callers :=
      chain.setTop located.frame_found ⟨belongs.1, belongs.2, belongs.3⟩ rfl
    exact waiting.push older (Function.update_self ..) rfl rfl ⟨rfl, belongs.2, rfl⟩ rfl
  · exact located.runs.silent (.call command)
  · apply Rooted.setNew
    · apply located.rooted.setTop located.frame_found
      · rw [point]
        rintro ⟨⟩
      · rw [point]
        rintro _ ⟨⟩
      · rfl
      · rfl
    · exact (Function.update_of_ne older.ne' ..).trans isNew

/-! ## A task ends -/

/-- A task ends that another one awaits. -/
theorem Invariant.finalSuspend (invariant : Invariant user respond task nthreads process)
    (running : process.runners runner = .running top below)
    {next : Except ε α → Position β α ε γ} {result : Except ε α}
    (located : Located user process ⟨top, .goesOn⟩ flow frame ⟨.run position, next :: callers⟩)
    (point : frame.point = .at position)
    (chain : Chain process.frames top.flow flow.xer flow.bottom top.handle (next :: callers))
    (command : program user position = .finish result) :
    Moves user respond process (process.finalSuspend runner top below frame result) runner top
      below := by
  rcases chain.exists_caller located.frame_found with
    ⟨caller, above, previous, newer, above_found, suspended, awaiting, rest⟩
  rcases rest.exists_frame with ⟨above', above_found', belongs⟩
  rw [above_found] at above_found'
  cases above_found'
  have differs : top.handle ≠ caller := newer.ne'
  have ended : process.finalSuspend runner top below frame result =
      ((process.setFrame top.handle (some { frame with
        suspended := true, point := .final, promise := frame.promise.store result })).setFrame
          caller (some { above with suspended := false })).setRunner runner
            (.running ⟨caller, top.flow⟩ below) := by
    unfold Process.finalSuspend
    rw [previous]
    apply Process.transfer_eq
    · exact (Function.update_of_ne differs.symm ..).trans above_found
    · exact suspended
    · rw [awaiting]
      rintro ⟨⟩
  have step : OwnStep respond process (process.finalSuspend runner top below frame result) runner
      top ⟨caller, top.flow⟩ below := by
    rw [ended]
    apply OwnStep.of_frames invariant.counted running
    · exact invariant.counted.frames_lt located.frame_found
    · exact invariant.counted.frames_lt above_found
    · exact Nat.le_refl _
    · intro other other' found differs'
      exact ⟨ne_of_flow_ne located.frame_found located.own found differs',
        ne_of_flow_ne above_found belongs.flow_eq found differs'⟩
    · rfl
  apply Moves.goesOn step
  rw [ended]
  rcases chain.exists_frame with ⟨frame', frame_found, top_belongs⟩
  rw [located.frame_found] at frame_found
  cases frame_found
  have above_found' : Function.update process.frames top.handle (some { frame with
      suspended := true, point := .final, promise := frame.promise.store result }) caller =
        some above := (Function.update_of_ne differs.symm ..).trans above_found
  refine ⟨flow, { above with suspended := false }, ⟨.ret result, next :: callers⟩, ?_⟩
  constructor
  · exact located.flow_found
  · exact Function.update_self ..
  · exact belongs.flow_eq
  · refine ⟨rfl, fun call locked next' point' => ?_⟩
    have impossible := awaiting.symm.trans point'
    cases impossible
  · apply Shows.awaiting
    · exact awaiting
    · exact (Function.update_of_ne differs ..).trans (Function.update_self ..)
    · exact located.own
    · rfl
    · exact Promise.awaitResume_store top_belongs.exception_eq result
    · exact newer
    · exact (rest.setNewer newer _).setTop above_found' ⟨belongs.1, belongs.2, belongs.3⟩ rfl
  · exact located.runs.silent (.finish command)
  · apply Rooted.setTop _ above_found'
    · rw [awaiting]
      rintro ⟨⟩
    · rw [awaiting]
      rintro _ ⟨⟩
    · rfl
    · rfl
    · apply located.rooted.setTop located.frame_found
      · rw [point]
        rintro ⟨⟩
      · rw [point]
        rintro _ ⟨⟩
      · rfl
      · exact Promise.previous_store ..

/-- A coroutine gets the result of the task it has awaited, and destroys the task. -/
theorem Invariant.awaitResume (invariant : Invariant user respond task nthreads process)
    (running : process.runners runner = .running top below)
    {next : Except ε α → Position β α ε γ} {result : Except ε α}
    (located : Located user process ⟨top, .goesOn⟩ flow frame ⟨.ret result, next :: callers⟩)
    {awaited : Nat} {ended : Frame β α ε γ} (point : frame.point = .awaiting awaited next)
    (found : process.frames awaited = some ended) (own : ended.flow = top.flow)
    (final : ended.point = .final) (newer : top.handle < awaited)
    (chain : Chain process.frames top.flow flow.xer flow.bottom top.handle callers) :
    Moves user respond process ((process.setFrame awaited none).setFrame top.handle
      (some { frame with point := .at (next result) })) runner top below := by
  rcases chain.exists_frame with ⟨frame', frame_found, belongs⟩
  rw [located.frame_found] at frame_found
  cases frame_found
  have step : OwnStep respond process ((process.setFrame awaited none).setFrame top.handle
      (some { frame with point := .at (next result) })) runner top top below := by
    apply OwnStep.of_frames invariant.counted running
    · exact invariant.counted.frames_lt found
    · exact invariant.counted.frames_lt located.frame_found
    · exact Nat.le_refl _
    · intro other other' found' differs
      exact ⟨ne_of_flow_ne found own found' differs,
        ne_of_flow_ne located.frame_found located.own found' differs⟩
    · rw [← running, Function.update_eq_self]
      rfl
  apply Moves.goesOn step
  have frame_found' : Function.update process.frames awaited none top.handle = some frame :=
    (Function.update_of_ne newer.ne ..).trans located.frame_found
  refine ⟨flow, { frame with point := .at (next result) }, ⟨.run (next result), callers⟩, ?_⟩
  constructor
  · exact located.flow_found
  · exact Function.update_self ..
  · exact located.own
  · refine ⟨located.allows.1, ?_⟩
    rintro call locked next' ⟨⟩
  · apply Shows.at rfl
    exact (chain.setNewer newer none).setTop frame_found' ⟨belongs.1, belongs.2, belongs.3⟩ rfl
  · exact located.runs.silent .resume
  · apply Rooted.setTop _ frame_found'
    · rw [point]
      rintro ⟨⟩
    · rw [point]
      rintro _ ⟨⟩
    · rfl
    · rfl
    · exact located.rooted.destroy found final (chain.bottom_le.trans_lt newer)

/-- The task of `wait` ends, and with it its flow. -/
theorem Invariant.finalSuspend_main (invariant : Invariant user respond task nthreads process)
    (running : process.runners runner = .running top below) {result : Except ε α}
    (located : Located user process ⟨top, .goesOn⟩ flow frame ⟨.run position, []⟩)
    (chain : Chain process.frames top.flow flow.xer flow.bottom top.handle [])
    (command : program user position = .finish result) (isMain : top.flow = 0)
    (previous : frame.promise.previous = none) :
    Moves user respond process (process.finalSuspend runner top below frame result) runner top
      below := by
  rcases chain.exists_frame with ⟨frame', frame_found, belongs⟩
  rw [located.frame_found] at frame_found
  cases frame_found
  have ended : process.finalSuspend runner top below frame result =
      ((process.setFrame top.handle (some { frame with
        suspended := true, point := .final, promise := frame.promise.store result })).settle
          top.flow result).setRunner runner (Process.pop below) := by
    unfold Process.finalSuspend
    rw [previous]
  have step : EndStep process (process.finalSuspend runner top below frame result) runner top
      below result := by
    rw [ended]
    constructor
    · exact running
    · intro handle other found differs
      have isOther := ne_of_flow_ne located.frame_found located.own found differs
      exact (Function.update_of_ne isOther ..).trans found
    · intro handle other found
      rcases Custody.update_eq_some_iff.mp found with ⟨rfl, _⟩ | ⟨_, before⟩
      · exact invariant.counted.frames_lt located.frame_found
      · exact invariant.counted.frames_lt before
    · rfl
  apply Moves.ends step
  · intro flow' found
    rw [located.flow_found] at found
    cases found
    exact runs_ret_iff.mp (located.runs.silent (.finish command))
  · intro _
    rcases invariant.root.main with ⟨main, main_found, _, _, bottom_eq⟩
    have flow_found := located.flow_found
    rw [isMain, main_found] at flow_found
    cases flow_found
    have handle_eq : top.handle = 0 := chain.eq_bottom.trans bottom_eq
    have found : (process.finalSuspend runner top below frame result).frames 0 = some { frame with
        suspended := true, point := .final, promise := frame.promise.store result } := by
      rw [ended, ← handle_eq]
      exact Function.update_self ..
    exact ⟨_, found, located.own.trans isMain, rfl,
      Promise.awaitResume_store belongs.exception_eq result⟩

/-- A detached task ends, and the coroutine that owns it goes on. -/
theorem Invariant.finalSuspend_detached (invariant : Invariant user respond task nthreads process)
    (running : process.runners runner = .running top below) {result : Except ε α}
    (located : Located user process ⟨top, .goesOn⟩ flow frame ⟨.run position, []⟩)
    (chain : Chain process.frames top.flow flow.xer flow.bottom top.handle [])
    (command : program user position = .finish result) (notMain : top.flow ≠ 0) {detach : Nat}
    {owner : Frame β α ε γ} (previous : frame.promise.previous = some detach)
    (newer : top.handle < detach) (owner_found : process.frames detach = some owner)
    (owner_own : owner.flow = top.flow) (detached : owner.point = .detached top.handle)
    (suspended : owner.suspended = true) :
    Moves user respond process (process.finalSuspend runner top below frame result) runner top
      below := by
  rcases chain.exists_frame with ⟨frame', frame_found, belongs⟩
  rw [located.frame_found] at frame_found
  cases frame_found
  have ended : process.finalSuspend runner top below frame result =
      ((process.setFrame top.handle (some { frame with
        suspended := true, point := .final, promise := frame.promise.store result })).setFrame
          detach (some { owner with suspended := false })).setRunner runner
            (.running ⟨detach, top.flow⟩ below) := by
    unfold Process.finalSuspend
    rw [previous]
    apply Process.transfer_eq
    · exact (Function.update_of_ne newer.ne' ..).trans owner_found
    · exact suspended
    · rw [detached]
      rintro ⟨⟩
  have step : OwnStep respond process (process.finalSuspend runner top below frame result) runner
      top ⟨detach, top.flow⟩ below := by
    rw [ended]
    apply OwnStep.of_frames invariant.counted running
    · exact invariant.counted.frames_lt located.frame_found
    · exact invariant.counted.frames_lt owner_found
    · exact Nat.le_refl _
    · intro other other' found differs
      exact ⟨ne_of_flow_ne located.frame_found located.own found differs,
        ne_of_flow_ne owner_found owner_own found differs⟩
    · rfl
  apply Moves.goesOn step
  rw [ended]
  have isBottom := chain.eq_bottom
  have root_found : Function.update (Function.update process.frames top.handle (some { frame with
      suspended := true, point := .final, promise := frame.promise.store result })) detach
        (some { owner with suspended := false }) flow.bottom = some { frame with
          suspended := true, point := .final, promise := frame.promise.store result } := by
    rw [← isBottom, Function.update_of_ne newer.ne, Function.update_self]
  have previous' : (frame.promise.store result).previous = some detach :=
    (Promise.previous_store ..).trans previous
  rw [isBottom] at newer detached
  refine ⟨flow, { owner with suspended := false }, ⟨.ret result, []⟩, ?_⟩
  constructor
  · exact located.flow_found
  · exact Function.update_self ..
  · exact owner_own
  · refine ⟨rfl, fun call locked next point' => ?_⟩
    have impossible := detached.symm.trans point'
    cases impossible
  · exact .detached detached root_found located.own rfl
      (Promise.awaitResume_store belongs.exception_eq result) previous' newer
  · exact located.runs.silent (.finish command)
  · exact ⟨_, root_found, located.own, .inr ⟨notMain, detach, _, previous', newer,
      Function.update_self .., owner_own, detached, absurd rfl⟩⟩

end SkAsync.Coroutine

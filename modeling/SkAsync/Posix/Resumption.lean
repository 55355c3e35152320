import SkAsync.Posix.EventLoop

/-!
# Work resumes the right coroutine

For every registration, work is posted at most once and run at most once, so no
registration is resumed twice.  The waiter object lives until that work has run, so
work that reads the handle in it resumes the right coroutine, whenever it runs.  Work
that reads the copy does so exactly while the event thread is in the block that posted
it.
-/

namespace SkAsync.Posix.EventLoop

open SkAsync.Library

/-! ## The promise and when it is kept -/

/-- Work resumed the coroutine of the registration it was posted for, and that waits for
an event that was reported for its descriptor. -/
def Right (registrations : List Interest) (resumption : Resumption) : Prop :=
  ∃ interest, registrations[resumption.cause.registration]? = some interest ∧
    resumption.outcome = .ok interest.handle ∧ interest.fd = resumption.cause.fd ∧
    resumption.cause.event.has interest.direction = true

/-- All work did, and no registration was resumed twice. -/
structure ResumesRight (loop : EventLoop) : Prop where
  right : ∀ resumption ∈ loop.resumed, Right loop.registrations resumption
  once : (loop.resumed.map fun resumption => resumption.cause.registration).Nodup

/-- The state after a step is one in which all work did the right thing. -/
def KeepsPromise (build : Build) (shutdownPipe : Nat) (loop : EventLoop) (event : Event) : Prop :=
  ∀ next, step build shutdownPipe loop event = some next → ResumesRight next

/-- Work that was posted for a waiter that writes runs before the event thread leaves the
block that posted it. -/
def InTime (loop : EventLoop) : Event → Prop
  | .executor id (.execute worker) => ∀ ticket registration cause,
      (loop.executors id).workers worker =
          .took ⟨ticket, .resume (.localHandle registration) cause⟩ →
        ∃ handle events, loop.thread = .posted registration handle events
  | _ => True

/-! ## The invariant -/

/-- Work was posted for a registration. -/
def Posted (loop : EventLoop) (registration : Nat) : Prop :=
  ∃ id item, item ∈ (loop.executors id).posted ∧ item.work.registration = some registration

structure Invariant (loop : EventLoop) : Prop where
  executors : ∀ id, (loop.executors id).Invariant
  /-- A waiter object belongs to a coroutine that is suspended in it and to its
  registration. -/
  alive : ∀ {waiter coro}, loop.waiters waiter = some coro →
    loop.suspended coro.coroHandle = some waiter ∧
      ∃ interest, loop.registrations[coro.registration]? = some interest ∧
        interest.handle = coro.coroHandle
  /-- The waiter of a descriptor is alive and was registered for it, and no work was
  posted for it yet. -/
  listed : ∀ {fd state direction waiter}, loop.state fd = some state →
    state.waiter direction = some waiter → ∃ coro, loop.waiters waiter = some coro ∧
      loop.registrations[coro.registration]? = some ⟨fd, direction, coro.coroHandle⟩ ∧
      ¬ loop.Posted coro.registration
  /-- Work is posted once for a registration. -/
  posted_once : ∀ {id id' item item' registration}, item ∈ (loop.executors id).posted →
    item' ∈ (loop.executors id').posted → item.work.registration = some registration →
    item'.work.registration = some registration → id = id' ∧ item = item'
  /-- Work is posted because an event of the registration was reported. -/
  posted_for : ∀ {id item captured cause}, item ∈ (loop.executors id).posted →
    item.work = .resume captured cause →
      ∃ interest, loop.registrations[cause.registration]? = some interest ∧
        interest.fd = cause.fd ∧ cause.event.has interest.direction = true
  /-- Until work runs, its waiter object is alive. -/
  pending : ∀ {id item captured cause}, item ∈ (loop.executors id).posted →
    item.work = .resume captured cause → item ∉ (loop.executors id).executed →
      ∃ waiter coro, loop.waiters waiter = some coro ∧ coro.registration = cause.registration ∧
        (captured = .coroHandle waiter ∨ captured = .localHandle cause.registration)
  /-- The variable of the block has the handle of the registration. -/
  in_block : ∀ {registration handle events}, loop.thread = .posted registration handle events →
    ∃ interest, loop.registrations[registration]? = some interest ∧ interest.handle = handle
  resumed_executed : ∀ resumption ∈ loop.resumed, ∃ id item,
    item ∈ (loop.executors id).executed ∧
      item.work.registration = some resumption.cause.registration
  resumes_right : ResumesRight loop

theorem not_posted_of_unlocked {loop : EventLoop} (unlocked : loop.unlocked = true)
    (registration handle : Nat) (events : List (Nat × Reported)) :
    loop.thread ≠ .posted registration handle events := by
  intro inBlock
  rw [EventLoop.unlocked, inBlock] at unlocked
  cases unlocked

/-- What was registered stays registered. -/
theorem registered_append {registrations : List Interest} {registration : Nat}
    {interest : Interest} (registered : registrations[registration]? = some interest)
    (more : List Interest) : (registrations ++ more)[registration]? = some interest := by
  rw [List.getElem?_append_left (List.getElem?_eq_some_iff.mp registered).1]
  exact registered

theorem Right.append {registrations : List Interest} {resumption : Resumption}
    (right : Right registrations resumption) (more : List Interest) :
    Right (registrations ++ more) resumption := by
  rcases right with ⟨interest, registered, rest⟩
  exact ⟨interest, registered_append registered more, rest⟩

theorem invariant_initial : Invariant initial := by
  constructor
  · exact fun _ => MtExecutor.invariant_initial
  all_goals simp [initial, MtExecutor.initial]
  constructor <;> simp

namespace Invariant

variable {loop : EventLoop}

/-- What was executed was posted. -/
theorem executed_posted (invariant : Invariant loop) {id : Nat} {item : WorkItem Work}
    (executed : item ∈ (loop.executors id).executed) : item ∈ (loop.executors id).posted := by
  rw [(invariant.executors id).fifo]
  exact List.mem_append_left _ ((invariant.executors id).executed_dequeued item executed)

/-! ## Other places -/

/-- Descriptors may forget their waiters, and the event thread may go on. -/
theorem relist (invariant : Invariant loop) {state : Nat → Option FdState} {thread : EventThread}
    (listed : ∀ {fd after direction waiter}, state fd = some after →
      after.waiter direction = some waiter →
        ∃ before, loop.state fd = some before ∧ before.waiter direction = some waiter)
    (leaves : ∀ registration handle events, thread ≠ .posted registration handle events) :
    Invariant { loop with state := state, thread := thread } where
  executors := invariant.executors
  alive := invariant.alive
  listed := by
    intro fd after direction waiter found waits
    rcases listed found waits with ⟨before, found', waits'⟩
    exact invariant.listed found' waits'
  posted_once := invariant.posted_once
  posted_for := invariant.posted_for
  pending := invariant.pending
  in_block := fun inBlock => absurd inBlock (leaves _ _ _)
  resumed_executed := invariant.resumed_executed
  resumes_right := ⟨invariant.resumes_right.right, invariant.resumes_right.once⟩

/-- Work is posted only for what was registered. -/
theorem registered_of_posted (invariant : Invariant loop) {registration : Nat}
    (posted : loop.Posted registration) : registration < loop.registrations.length := by
  rcases posted with ⟨id, item, isPosted, isFor⟩
  cases work : item.work with
  | other =>
      rw [work] at isFor
      cases isFor
  | resume captured cause =>
      rw [work] at isFor
      cases isFor
      rcases invariant.posted_for isPosted work with ⟨interest, registered, _⟩
      exact (List.getElem?_eq_some_iff.mp registered).1

theorem setWaiter_waiter (state : FdState) (direction other : Direction) (waiter : Nat) :
    (setWaiter state direction waiter).waiter other =
      if other = direction then some waiter else state.waiter other := by
  cases direction <;> cases other <;> rfl

/-- A coroutine that was not suspended begins to wait, in a new waiter object. -/
theorem awaitSuspend (invariant : Invariant loop) {direction : Direction}
    {fd waiter handle executor : Nat} {state : FdState} (unlocked : loop.unlocked = true)
    (new : loop.waiters waiter = none) (runs : loop.suspended handle = none)
    (found : loop.state fd = some state) :
    Invariant (loop.awaitSuspend direction fd waiter handle executor state) := by
  have other_waiter : ∀ {other coro}, loop.waiters other = some coro → other ≠ waiter := by
    rintro other coro isAlive rfl
    rw [new] at isAlive
    cases isAlive
  have still_alive : ∀ {other coro}, loop.waiters other = some coro →
      (loop.awaitSuspend direction fd waiter handle executor state).waiters other = some coro :=
    fun isAlive => (Function.update_of_ne (other_waiter isAlive) _ _).trans isAlive
  have registered_new : (loop.registrations ++ [⟨fd, direction, handle⟩])[
      loop.registrations.length]? = some (⟨fd, direction, handle⟩ : Interest) := by
    rw [List.getElem?_append_right (Nat.le_refl _), Nat.sub_self]
    rfl
  have listed_before : ∀ {other before direction' other'}, loop.state other = some before →
      before.waiter direction' = some other' → ∃ coro,
        (loop.awaitSuspend direction fd waiter handle executor state).waiters other' = some coro ∧
        (loop.registrations ++ [⟨fd, direction, handle⟩])[coro.registration]? =
          some ⟨other, direction', coro.coroHandle⟩ ∧ ¬ loop.Posted coro.registration := by
    intro other before direction' other' found' waits
    rcases invariant.listed found' waits with ⟨coro, isAlive, registered, notPosted⟩
    exact ⟨coro, still_alive isAlive, registered_append registered _, notPosted⟩
  constructor
  · exact invariant.executors
  · intro other coro isAlive
    rcases Custody.update_eq_some_iff.mp isAlive with ⟨rfl, isNew⟩ | ⟨_, isAlive⟩
    · cases isNew
      exact ⟨Function.update_self .., _, registered_new, rfl⟩
    · rcases invariant.alive isAlive with ⟨suspended, interest, registered, handle_eq⟩
      have differs : coro.coroHandle ≠ handle := by
        rintro isHandle
        rw [isHandle, runs] at suspended
        cases suspended
      exact ⟨(Function.update_of_ne differs _ _).trans suspended, interest,
        registered_append registered _, handle_eq⟩
  · intro other after direction' other' found' waits
    rcases Custody.update_eq_some_iff.mp found' with ⟨rfl, isNew⟩ | ⟨_, found'⟩
    · cases isNew
      rw [setWaiter_waiter] at waits
      split_ifs at waits with isDirection
      · cases waits
        subst isDirection
        refine ⟨_, Function.update_self .., registered_new, fun posted => ?_⟩
        exact absurd (invariant.registered_of_posted posted) (Nat.lt_irrefl _)
      · exact listed_before found waits
    · exact listed_before found' waits
  · exact invariant.posted_once
  · intro id item captured cause posted work
    rcases invariant.posted_for posted work with ⟨interest, registered, rest⟩
    exact ⟨interest, registered_append registered _, rest⟩
  · intro id item captured cause posted work waits
    rcases invariant.pending posted work waits with ⟨other, coro, isAlive, rest⟩
    exact ⟨other, coro, still_alive isAlive, rest⟩
  · intro registration handle' events inBlock
    exact absurd inBlock (not_posted_of_unlocked unlocked _ _ _)
  · exact invariant.resumed_executed
  · exact ⟨fun resumption member => (invariant.resumes_right.right resumption member).append _,
      invariant.resumes_right.once⟩

end Invariant

/-! ## Posting -/

section PostResume

variable {loop : EventLoop} {fd : Nat} {event : Reported} {after : FdState} {coro : CoroState}
  {captured : Captured} {thread : EventThread}

/-- The item that is posted. -/
def resumeItem (loop : EventLoop) (fd : Nat) (event : Reported) (coro : CoroState)
    (captured : Captured) : WorkItem Work :=
  ⟨(loop.executors coro.taskExecutor).posted.length,
    .resume captured ⟨coro.registration, fd, event⟩⟩

theorem mem_posted_postResume {id : Nat} {item : WorkItem Work} :
    item ∈ ((loop.postResume fd event after coro captured thread).executors id).posted ↔
      item ∈ (loop.executors id).posted ∨
        id = coro.taskExecutor ∧ item = loop.resumeItem fd event coro captured := by
  change item ∈ (Function.update loop.executors coro.taskExecutor _ id).posted ↔ _
  by_cases same : id = coro.taskExecutor
  · subst same
    rw [Function.update_self]
    change item ∈ _ ++ [_] ↔ _
    simp [resumeItem]
  · rw [Function.update_of_ne same]
    simp [same]

theorem executed_postResume (id : Nat) :
    ((loop.postResume fd event after coro captured thread).executors id).executed =
      (loop.executors id).executed := by
  change (Function.update loop.executors coro.taskExecutor _ id).executed = _
  by_cases same : id = coro.taskExecutor
  · subst same
    rw [Function.update_self]
    rfl
  · rw [Function.update_of_ne same]

theorem posted_postResume {registration : Nat} :
    (loop.postResume fd event after coro captured thread).Posted registration ↔
      loop.Posted registration ∨ registration = coro.registration := by
  constructor
  · rintro ⟨id, item, isPosted, isFor⟩
    rcases mem_posted_postResume.mp isPosted with before | ⟨_, rfl⟩
    · exact .inl ⟨id, item, before, isFor⟩
    · exact .inr (Option.some.inj isFor).symm
  · rintro (⟨id, item, isPosted, isFor⟩ | rfl)
    · exact ⟨id, item, mem_posted_postResume.mpr (.inl isPosted), isFor⟩
    · exact ⟨_, _, mem_posted_postResume.mpr (.inr ⟨rfl, rfl⟩), rfl⟩

/-- The waiter of a descriptor is taken off and work is posted for it. -/
theorem Invariant.postResume (invariant : Invariant loop) {before : FdState}
    {direction : Direction} {waiter : Nat} (found : loop.state fd = some before)
    (waits : before.waiter direction = some waiter) (isAlive : loop.waiters waiter = some coro)
    (cleared : ∀ {other waiter'}, after.waiter other = some waiter' →
      other ≠ direction ∧ before.waiter other = some waiter')
    (reported : event.has direction = true)
    (captures : captured = .coroHandle waiter ∨ captured = .localHandle coro.registration)
    (inBlock : ∀ registration handle events, thread = .posted registration handle events →
      registration = coro.registration ∧ handle = coro.coroHandle) :
    Invariant (loop.postResume fd event after coro captured thread) := by
  rcases invariant.listed found waits with ⟨coro', isAlive', registered, notPosted⟩
  rw [isAlive, Option.some.injEq] at isAlive'
  subst isAlive'
  -- No item was posted for this registration before.
  have fresh : ∀ {id item}, item ∈ (loop.executors id).posted →
      item.work.registration ≠ some coro.registration :=
    fun isPosted isFor => notPosted ⟨_, _, isPosted, isFor⟩
  constructor
  · apply (Function.forall_update_iff _ fun _ executor => MtExecutor.Invariant executor).mpr
    exact ⟨MtExecutor.invariant_post (invariant.executors _) _, fun id _ => invariant.executors id⟩
  · exact invariant.alive
  · intro other after' direction' waiter' found' waits'
    have was_listed : ∃ state, loop.state other = some state ∧
        state.waiter direction' = some waiter' ∧ ¬ (other = fd ∧ direction' = direction) := by
      rcases Custody.update_eq_some_iff.mp found' with ⟨rfl, isNew⟩ | ⟨differs, found'⟩
      · cases isNew
        rcases cleared waits' with ⟨differs, waits''⟩
        exact ⟨before, found, waits'', fun both => differs both.2⟩
      · exact ⟨after', found', waits', fun both => differs both.1⟩
    rcases was_listed with ⟨state, found'', waits'', differs⟩
    rcases invariant.listed found'' waits'' with ⟨coro', isAlive', registered', notPosted'⟩
    refine ⟨coro', isAlive', registered', fun posted => ?_⟩
    rcases posted_postResume.mp posted with posted | same
    · exact notPosted' posted
    · rw [same, registered, Option.some.injEq, Interest.mk.injEq] at registered'
      exact differs ⟨registered'.1.symm, registered'.2.1.symm⟩
  · intro id id' item item' registration isPosted isPosted' isFor isFor'
    rcases mem_posted_postResume.mp isPosted with old | ⟨rfl, rfl⟩
    · rcases mem_posted_postResume.mp isPosted' with old' | ⟨rfl, rfl⟩
      · exact invariant.posted_once old old' isFor isFor'
      · cases isFor'
        exact absurd isFor (fresh old)
    · rcases mem_posted_postResume.mp isPosted' with old' | ⟨rfl, rfl⟩
      · cases isFor
        exact absurd isFor' (fresh old')
      · exact ⟨rfl, rfl⟩
  · intro id item captured' cause isPosted work
    rcases mem_posted_postResume.mp isPosted with old | ⟨rfl, rfl⟩
    · exact invariant.posted_for old work
    · cases work
      exact ⟨_, registered, rfl, reported⟩
  · intro id item captured' cause isPosted work waiting
    rw [executed_postResume] at waiting
    rcases mem_posted_postResume.mp isPosted with old | ⟨rfl, rfl⟩
    · exact invariant.pending old work waiting
    · cases work
      exact ⟨waiter, coro, isAlive, rfl, captures⟩
  · intro registration handle events posted
    rcases inBlock registration handle events posted with ⟨rfl, rfl⟩
    exact ⟨_, registered, rfl⟩
  · intro resumption member
    rcases invariant.resumed_executed resumption member with ⟨id, item, executed, isFor⟩
    refine ⟨id, item, ?_, isFor⟩
    rw [executed_postResume]
    exact executed
  · exact ⟨invariant.resumes_right.right, invariant.resumes_right.once⟩

end PostResume

/-- A waiter is taken off the state of its descriptor because its event was reported. -/
structure Takes (event : Reported) (direction : Direction) (before after : FdState)
    (waiter : Nat) : Prop where
  reported : event.has direction = true
  waits : before.waiter direction = some waiter
  cleared : ∀ {other waiter'}, after.waiter other = some waiter' →
    other ≠ direction ∧ before.waiter other = some waiter'

/-- The block for `EPOLLIN` takes the waiter that reads. -/
theorem handleInput_takes {event : Reported} {before after : FdState} {taken : Direction × Nat}
    {rest : List (Direction × Nat)}
    (handled : EpollReactor.handleInput event before = (after, taken :: rest)) :
    Takes event .read before after taken.2 := by
  unfold EpollReactor.handleInput at handled
  split at handled
  · rename_i waiter isInput waits
    cases handled
    refine ⟨isInput, waits, ?_⟩
    intro other waiter' waits'
    cases other with
    | read => cases waits'
    | write => exact ⟨Direction.noConfusion, waits'⟩
  · cases handled

/-- The block for `EPOLLOUT` takes the waiter that writes. -/
theorem handleOutput_takes {event : Reported} {before after : FdState} {taken : Direction × Nat}
    {rest : List (Direction × Nat)}
    (handled : EpollReactor.handleOutput event before = (after, taken :: rest)) :
    Takes event .write before after taken.2 := by
  unfold EpollReactor.handleOutput at handled
  split at handled
  · rename_i waiter isOutput waits
    cases handled
    refine ⟨isOutput, waits, ?_⟩
    intro other waiter' waits'
    cases other with
    | read => exact ⟨Direction.noConfusion, waits'⟩
    | write => cases waits'
  · cases handled

/-- A step of the event thread. -/
theorem Invariant.advance {loop next : EventLoop} (invariant : Invariant loop)
    {shutdownPipe : Nat} (stepped : loop.advance shutdownPipe = some next) : Invariant next := by
  have goes_on : ∀ {thread}, (∀ registration handle events,
      thread ≠ EventThread.posted registration handle events) →
      Invariant { loop with thread := thread } :=
    fun leaves => invariant.relist (fun found waits => ⟨_, found, waits⟩) leaves
  unfold EventLoop.advance at stepped
  split at stepped
  · cases stepped
  · cases stepped
    exact goes_on (by simp)
  · rename_i fd event events _
    split_ifs at stepped
    · cases stepped
      exact goes_on (by simp)
    · split at stepped
      · cases stepped
      · rename_i before found
        split at stepped
        · cases stepped
          exact goes_on (by simp)
        · rename_i after direction waiter rest handled
          have takes := handleInput_takes handled
          split at stepped
          · cases stepped
          · rename_i coro isAlive
            cases stepped
            exact invariant.postResume found takes.waits isAlive takes.cleared takes.reported
              (.inl rfl) (by simp)
  · cases stepped
  · rename_i fd event events _
    split at stepped
    · cases stepped
    · rename_i before found
      split at stepped
      · cases stepped
        exact goes_on (by simp)
      · rename_i after direction waiter rest handled
        have takes := handleOutput_takes handled
        split at stepped
        · cases stepped
        · rename_i coro isAlive
          cases stepped
          apply invariant.postResume found takes.waits isAlive takes.cleared takes.reported
          · exact .inr rfl
          · intro registration handle events' inBlock
            cases inBlock
            exact ⟨rfl, rfl⟩
  · cases stepped
    exact goes_on (by simp)
  · cases stepped

/-! ## One batch -/

theorem handleInput_nil {event : Reported} {before after : FdState}
    (handled : EpollReactor.handleInput event before = (after, [])) : after = before := by
  unfold EpollReactor.handleInput at handled
  split at handled
  · cases handled
  · cases handled
    rfl

theorem handleOutput_nil {event : Reported} {before after : FdState}
    (handled : EpollReactor.handleOutput event before = (after, [])) : after = before := by
  unfold EpollReactor.handleOutput at handled
  split at handled
  · cases handled
  · cases handled
    rfl

/-- The block for `EPOLLIN` is one step. -/
theorem exists_advance_input {loop : EventLoop} (invariant : Invariant loop)
    {shutdownPipe fd : Nat} {event : Reported} {events : List (Nat × Reported)} {state : FdState}
    (thread_eq : loop.thread = .input ((fd, event) :: events)) (other : fd ≠ shutdownPipe)
    (found : loop.state fd = some state) :
    ∃ next, loop.advance shutdownPipe = some next ∧
      next.thread = .output ((fd, event) :: events) ∧
      next.state = Function.update loop.state fd
        (some (EpollReactor.handleInput event state).1) := by
  unfold EventLoop.advance
  simp only [thread_eq, if_neg other, found]
  rcases handled : EpollReactor.handleInput event state with
    ⟨after, _ | ⟨⟨direction, waiter⟩, rest⟩⟩
  · refine ⟨_, rfl, rfl, ?_⟩
    rw [handleInput_nil handled, ← found]
    exact (Function.update_eq_self fd loop.state).symm
  · rcases invariant.listed found (handleInput_takes handled).waits with ⟨coro, isAlive, _⟩
    simp only [isAlive]
    exact ⟨_, rfl, rfl, rfl⟩

/-- The block for `EPOLLOUT` is one step or, when it posts work, two. -/
theorem exists_advance_output {loop : EventLoop} (invariant : Invariant loop) (build : Build)
    {shutdownPipe fd : Nat} {event : Reported} {events : List (Nat × Reported)} {state : FdState}
    (thread_eq : loop.thread = .output ((fd, event) :: events))
    (found : loop.state fd = some state) :
    ∃ n next, Library.execute (step build shutdownPipe) loop (List.replicate n .advance) =
        some next ∧
      Invariant next ∧ next.thread = .input events ∧
      next.state = Function.update loop.state fd
        (some (EpollReactor.handleOutput event state).1) := by
  rcases handled : EpollReactor.handleOutput event state with
    ⟨after, _ | ⟨⟨direction, waiter⟩, rest⟩⟩
  · have stepped : loop.advance shutdownPipe = some { loop with thread := .input events } := by
      unfold EventLoop.advance
      simp only [thread_eq, found, handled]
    refine ⟨1, _, execute_cons_eq_some_iff.mpr ⟨_, stepped, rfl⟩, invariant.advance stepped,
      rfl, ?_⟩
    rw [handleOutput_nil handled, ← found]
    exact (Function.update_eq_self fd loop.state).symm
  · rcases invariant.listed found (handleOutput_takes handled).waits with ⟨coro, isAlive, _⟩
    have stepped : loop.advance shutdownPipe = some (loop.postResume fd event after coro
        (.localHandle coro.registration)
        (.posted coro.registration coro.coroHandle events)) := by
      unfold EventLoop.advance
      simp only [thread_eq, found, handled, isAlive]
    have invariant' := invariant.advance stepped
    refine ⟨2, _, execute_cons_eq_some_iff.mpr ⟨_, stepped, execute_cons_eq_some_iff.mpr
      ⟨_, rfl, rfl⟩⟩, ?_, rfl, rfl⟩
    exact invariant'.advance (show EventLoop.advance shutdownPipe _ = some _ from rfl)

/-- The steps of the event thread through a batch do to the descriptors what
`EpollReactor.handleEvents` does at once. -/
theorem exists_advance_batch (build : Build) {shutdownPipe : Nat} {loop : EventLoop}
    (invariant : Invariant loop) {events : List (Nat × Reported)}
    (thread_eq : loop.thread = .input events) (others : ∀ report ∈ events, report.1 ≠ shutdownPipe)
    {reactor reactor' : EpollReactor} (same : reactor.state = loop.state)
    (handled : reactor.handleEvents events = some reactor') :
    ∃ n final, Library.execute (step build shutdownPipe) loop (List.replicate n .advance) =
        some final ∧
      final.thread = .waiting ∧ final.state = reactor'.state := by
  induction events generalizing loop reactor with
  | nil =>
      cases handled
      have stepped : loop.advance shutdownPipe = some { loop with thread := .waiting } := by
        unfold EventLoop.advance
        simp only [thread_eq]
      exact ⟨1, _, execute_cons_eq_some_iff.mpr ⟨_, stepped, rfl⟩, rfl, same.symm⟩
  | cons report events ih =>
      rcases report with ⟨fd, event⟩
      simp only [EpollReactor.handleEvents] at handled
      split at handled
      · cases handled
      · rename_i state found
        rw [same] at found
        rcases exists_advance_input invariant thread_eq (others _ List.mem_cons_self) found with
          ⟨middle, stepped, thread_eq', state_eq⟩
        have invariant' := invariant.advance stepped
        have found' : middle.state fd = some (EpollReactor.handleInput event state).1 := by
          rw [state_eq, Function.update_self]
        rcases exists_advance_output invariant' build thread_eq' found' with
          ⟨n, next, ran, invariant'', thread_eq'', state_eq'⟩
        have same' : (Function.update reactor.state fd (some (EpollReactor.handleOutput event
            (EpollReactor.handleInput event state).1).1)) = next.state := by
          rw [state_eq', state_eq, same, Function.update_idem]
        rcases ih invariant'' thread_eq''
            (fun other member => others other (List.mem_cons_of_mem _ member)) same' handled with
          ⟨m, final, ran', waiting, final_eq⟩
        refine ⟨1 + n + m, final, ?_, waiting, final_eq⟩
        rw [List.replicate_add, List.replicate_add, execute_append_eq_some_iff]
        refine ⟨next, execute_append_eq_some_iff.mpr ⟨middle, ?_, ran⟩, ran'⟩
        exact execute_cons_eq_some_iff.mpr ⟨middle, stepped, rfl⟩

/-! ## Running -/

/-- An executor goes on, with no new work for waiters. -/
theorem Invariant.setExecutor {loop : EventLoop} (invariant : Invariant loop) {id : Nat}
    {executor : MtExecutor Work} (valid : executor.Invariant)
    (posted : ∀ item ∈ executor.posted, item.work.registration ≠ none →
      item ∈ (loop.executors id).posted)
    (executed : ∀ item ∈ (loop.executors id).executed, item ∈ executor.executed) :
    Invariant { loop with executors := Function.update loop.executors id executor } := by
  have posted_before : ∀ {other item registration},
      item ∈ (Function.update loop.executors id executor other).posted →
        item.work.registration = some registration → item ∈ (loop.executors other).posted := by
    intro other item registration isPosted isFor
    by_cases same : other = id
    · subst same
      rw [Function.update_self] at isPosted
      exact posted item isPosted (by rw [isFor]; exact Option.some_ne_none _)
    · rwa [Function.update_of_ne same] at isPosted
  have executed_after : ∀ {other item}, item ∈ (loop.executors other).executed →
      item ∈ (Function.update loop.executors id executor other).executed := by
    intro other item isExecuted
    by_cases same : other = id
    · subst same
      rw [Function.update_self]
      exact executed item isExecuted
    · rwa [Function.update_of_ne same]
  have for_registration : ∀ {item : WorkItem Work} {captured cause},
      item.work = .resume captured cause → item.work.registration = some cause.registration := by
    intro item captured cause work
    rw [work]
    rfl
  constructor
  · apply (Function.forall_update_iff _ fun _ executor => MtExecutor.Invariant executor).mpr
    exact ⟨valid, fun other _ => invariant.executors other⟩
  · exact invariant.alive
  · intro fd state direction waiter found waits
    rcases invariant.listed found waits with ⟨coro, isAlive, registered, notPosted⟩
    refine ⟨coro, isAlive, registered, ?_⟩
    rintro ⟨other, item, isPosted, isFor⟩
    exact notPosted ⟨other, item, posted_before isPosted isFor, isFor⟩
  · intro other other' item item' registration isPosted isPosted' isFor isFor'
    exact invariant.posted_once (posted_before isPosted isFor) (posted_before isPosted' isFor')
      isFor isFor'
  · intro other item captured cause isPosted work
    exact invariant.posted_for (posted_before isPosted (for_registration work)) work
  · intro other item captured cause isPosted work waiting
    exact invariant.pending (posted_before isPosted (for_registration work)) work
      fun isExecuted => waiting (executed_after isExecuted)
  · exact invariant.in_block
  · intro resumption member
    rcases invariant.resumed_executed resumption member with ⟨other, item, isExecuted, isFor⟩
    exact ⟨other, item, executed_after isExecuted, isFor⟩
  · exact ⟨invariant.resumes_right.right, invariant.resumes_right.once⟩

/-- Work that reads the handle of its waiter resumes the coroutine, and the waiter object is
destroyed. -/
theorem Invariant.call {loop : EventLoop} (invariant : Invariant loop) {captured : Captured}
    {cause : Cause} {waiter : Nat} {coro : CoroState} {interest : Interest} {id : Nat}
    {item : WorkItem Work} (isAlive : loop.waiters waiter = some coro)
    (isFor : coro.registration = cause.registration)
    (read_eq : loop.read captured = .ok coro.coroHandle)
    (registered : loop.registrations[cause.registration]? = some interest)
    (reported : interest.fd = cause.fd ∧ cause.event.has interest.direction = true)
    (executed : item ∈ (loop.executors id).executed)
    (itemFor : item.work.registration = some cause.registration)
    (first : ∀ resumption ∈ loop.resumed, resumption.cause.registration ≠ cause.registration) :
    Invariant (loop.call (.resume captured cause)) := by
  rcases invariant.alive isAlive with ⟨suspended, interest', registered', handle_eq⟩
  rw [isFor, registered, Option.some.injEq] at registered'
  subst registered'
  have call_eq : loop.call (.resume captured cause) =
      { loop with
        waiters := Function.update loop.waiters waiter none
        suspended := Function.update loop.suspended coro.coroHandle none
        resumed := loop.resumed ++ [⟨cause, .ok coro.coroHandle⟩] } := by
    simp only [EventLoop.call, read_eq, resume, suspended]
  have still_alive : ∀ {other coro'}, loop.waiters other = some coro' →
      coro'.registration ≠ cause.registration →
        Function.update loop.waiters waiter none other = some coro' := by
    intro other coro' isAlive' differs
    have other_ne : other ≠ waiter := by
      rintro rfl
      rw [isAlive, Option.some.injEq] at isAlive'
      subst isAlive'
      exact differs isFor
    rwa [Function.update_of_ne other_ne]
  have was_posted : loop.Posted cause.registration :=
    ⟨id, item, invariant.executed_posted executed, itemFor⟩
  rw [call_eq]
  constructor
  · exact invariant.executors
  · intro other coro' isAlive'
    rcases Custody.update_eq_some_iff.mp isAlive' with ⟨_, isGone⟩ | ⟨elsewhere, isAlive'⟩
    · cases isGone
    · rcases invariant.alive isAlive' with ⟨suspended', rest⟩
      have differs : coro'.coroHandle ≠ coro.coroHandle := by
        intro sameHandle
        rw [sameHandle, suspended] at suspended'
        exact elsewhere (Option.some.inj suspended').symm
      exact ⟨(Function.update_of_ne differs _ _).trans suspended', rest⟩
  · intro fd state direction other found waits
    rcases invariant.listed found waits with ⟨coro', isAlive', registered', notPosted⟩
    have differs : coro'.registration ≠ cause.registration := by
      intro same
      rw [same] at notPosted
      exact notPosted was_posted
    exact ⟨coro', still_alive isAlive' differs, registered', notPosted⟩
  · exact invariant.posted_once
  · exact invariant.posted_for
  · intro other item' captured' cause' isPosted work waiting
    rcases invariant.pending isPosted work waiting with ⟨waiter', coro', isAlive', isFor', rest⟩
    have differs : coro'.registration ≠ cause.registration := by
      rw [isFor']
      intro same
      have isFor'' : item'.work.registration = some cause.registration := by
        rw [work, ← same]
        rfl
      rcases invariant.posted_once (invariant.executed_posted executed) isPosted itemFor isFor''
        with ⟨rfl, rfl⟩
      exact waiting executed
    exact ⟨waiter', coro', still_alive isAlive' differs, isFor', rest⟩
  · exact invariant.in_block
  · intro resumption member
    rcases List.mem_append.mp member with old | new
    · exact invariant.resumed_executed resumption old
    · rw [List.mem_singleton.mp new]
      exact ⟨id, item, executed, itemFor⟩
  · constructor
    · intro resumption member
      rcases List.mem_append.mp member with old | new
      · exact invariant.resumes_right.right resumption old
      · rw [List.mem_singleton.mp new]
        exact ⟨interest, registered, by rw [handle_eq], reported⟩
    · rw [List.map_append, List.map_singleton, List.nodup_append]
      refine ⟨invariant.resumes_right.once, List.nodup_singleton _, ?_⟩
      intro registration old other new same
      rcases List.mem_map.mp old with ⟨resumption, member, registration_eq⟩
      rw [List.mem_singleton.mp new] at same
      exact first resumption member (registration_eq.trans same)

theorem read_localHandle_eq_ok {loop : EventLoop} {registration handle : Nat}
    (read_eq : loop.read (.localHandle registration) = .ok handle) :
    ∃ events, loop.thread = .posted registration handle events := by
  unfold read at read_eq
  dsimp only at read_eq
  split at read_eq
  · rename_i current handle' events thread_eq
    split_ifs at read_eq with same
    cases read_eq
    subst same
    exact ⟨events, thread_eq⟩
  · cases read_eq

theorem read_localHandle {loop : EventLoop} {registration handle : Nat}
    {events : List (Nat × Reported)}
    (thread_eq : loop.thread = .posted registration handle events) :
    loop.read (.localHandle registration) = .ok handle := by
  simp [read, thread_eq]

/-- An executor begins to run work that was posted for a waiter. -/
theorem Invariant.execute {loop : EventLoop} (invariant : Invariant loop) {id worker ticket : Nat}
    {captured : Captured} {cause : Cause} {executor : MtExecutor Work}
    (took : (loop.executors id).workers worker = .took ⟨ticket, .resume captured cause⟩)
    (stepped : (loop.executors id).step (.execute worker) = some executor)
    (posted_eq : executor.posted = (loop.executors id).posted)
    (executed_eq : executor.executed =
      (loop.executors id).executed ++ [⟨ticket, .resume captured cause⟩])
    (inTime : InTime loop (.executor id (.execute worker))) :
    Invariant ({ loop with executors := Function.update loop.executors id executor }.call
      (.resume captured cause)) := by
  have valid := invariant.executors id
  have isPosted : ⟨ticket, .resume captured cause⟩ ∈ (loop.executors id).posted := by
    rw [valid.fifo]
    exact List.mem_append_left _ (valid.custody.held_arrived (congrArg Worker.item took))
  have waiting := valid.took_not_executed took
  rcases invariant.pending isPosted rfl waiting with ⟨waiter, coro, isAlive, isFor, captures⟩
  rcases invariant.posted_for isPosted rfl with ⟨interest, registered, reported⟩
  have read_eq : loop.read captured = .ok coro.coroHandle := by
    rcases captures with rfl | rfl
    · simp [read, isAlive]
    · rcases inTime ticket _ cause took with ⟨handle, events, thread_eq⟩
      rcases invariant.in_block thread_eq with ⟨interest', registered', handle_eq'⟩
      rcases invariant.alive isAlive with ⟨_, interest'', registered'', handle_eq''⟩
      rw [isFor, registered', Option.some.injEq] at registered''
      rw [read_localHandle thread_eq, ← handle_eq', registered'', handle_eq'']
  have first : ∀ resumption ∈ loop.resumed,
      resumption.cause.registration ≠ cause.registration := by
    intro resumption member same
    rcases invariant.resumed_executed resumption member with ⟨other, item, executed, itemFor⟩
    rw [same] at itemFor
    rcases invariant.posted_once (invariant.executed_posted executed) isPosted itemFor rfl with
      ⟨rfl, rfl⟩
    exact waiting executed
  have set := invariant.setExecutor (MtExecutor.invariant_step valid stepped)
    (fun item isPosted _ => posted_eq ▸ isPosted)
    (fun item executed => executed_eq ▸ List.mem_append_left _ executed)
  have executed : (⟨ticket, .resume captured cause⟩ : WorkItem Work) ∈
      (Function.update loop.executors id executor id).executed := by
    rw [Function.update_self, executed_eq]
    exact List.mem_append_right _ List.mem_cons_self
  apply set.call isAlive isFor ?_ registered reported executed rfl first
  cases captured <;> exact read_eq

/-- A step of an executor. -/
theorem Invariant.executor {loop : EventLoop} (invariant : Invariant loop) {id : Nat}
    {event : MtExecutor.Event Work} {executor : MtExecutor Work} (foreign : IsForeign event)
    (stepped : (loop.executors id).step event = some executor)
    (inTime : InTime loop (.executor id event)) :
    Invariant ({ loop with executors := Function.update loop.executors id executor }.call
      (called (loop.executors id) event)) := by
  have valid := MtExecutor.invariant_step (invariant.executors id) stepped
  rcases MtExecutor.step_lists stepped with ⟨caller, work, rfl, rfl⟩ |
    ⟨worker, ⟨ticket, work⟩, rfl, took, posted_eq, executed_eq⟩ |
    ⟨notPost, notExecute, posted_eq, executed_eq⟩
  · cases foreign
    refine invariant.setExecutor valid ?_ (fun item executed => executed)
    intro item isPosted isFor
    rcases List.mem_append.mp isPosted with old | new
    · exact old
    · rw [List.mem_singleton.mp new] at isFor
      exact absurd rfl isFor
  · have called_eq : called (loop.executors id) (.execute worker) = work := by
      simp [called, took]
    rw [called_eq]
    cases work with
    | other =>
        exact invariant.setExecutor valid (fun item isPosted _ => posted_eq ▸ isPosted)
          (fun item executed => executed_eq ▸ List.mem_append_left _ executed)
    | resume captured cause =>
        exact invariant.execute took stepped posted_eq executed_eq inTime
  · have called_eq : called (loop.executors id) event = .other := by
      cases event with
      | execute worker => exact absurd rfl (notExecute worker)
      | _ => rfl
    rw [called_eq]
    exact invariant.setExecutor valid (fun item isPosted _ => posted_eq ▸ isPosted)
      (fun item executed => executed_eq ▸ executed)

/-! ## One step -/

theorem invariant_step {build : Build} {shutdownPipe : Nat} {loop next : EventLoop} {event : Event}
    (invariant : Invariant loop) (inTime : InTime loop event)
    (stepped : step build shutdownPipe loop event = some next) : Invariant next := by
  cases event with
  | associate fd =>
      simp only [step] at stepped
      split_ifs at stepped with unlocked
      cases stepped
      refine invariant.relist ?_ (not_posted_of_unlocked unlocked)
      intro other after direction waiter found waits
      rcases Custody.update_eq_some_iff.mp found with ⟨rfl, isNew⟩ | ⟨_, found⟩
      · cases isNew
        cases before : loop.state other with
        | none =>
            rw [before] at waits
            cases direction <;> cases waits
        | some state =>
            rw [before] at waits
            refine ⟨state, rfl, ?_⟩
            cases direction <;> exact waits
      · exact ⟨after, found, waits⟩
  | deassociate fd =>
      simp only [step] at stepped
      split_ifs at stepped with unlocked
      cases stepped
      refine invariant.relist ?_ (not_posted_of_unlocked unlocked)
      intro other after direction waiter found waits
      rcases Custody.update_eq_some_iff.mp found with ⟨_, isGone⟩ | ⟨_, found⟩
      · cases isGone
      · exact ⟨after, found, waits⟩
  | suspend direction fd waiter handle executor =>
      simp only [step] at stepped
      split_ifs at stepped with free
      split at stepped
      · cases stepped
      · rename_i state found
        split at stepped
        · cases stepped
        · cases stepped
          exact invariant.awaitSuspend free.1 free.2.1 free.2.2 found
  | wait events =>
      simp only [step] at stepped
      split_ifs at stepped
      cases stepped
      exact invariant.relist (fun found waits => ⟨_, found, waits⟩) (by simp)
  | advance => exact invariant.advance stepped
  | executor id event =>
      simp only [step] at stepped
      split_ifs at stepped with foreign
      split at stepped
      · cases stepped
      · rename_i executor progressed
        cases stepped
        exact invariant.executor foreign progressed inTime

/-! ## Every interleaving -/

/-- A thread of an executor can always run what it has taken. -/
theorem step_execute (build : Build) (shutdownPipe : Nat) {loop : EventLoop}
    {id worker ticket : Nat} {work : Work}
    (took : (loop.executors id).workers worker = .took ⟨ticket, work⟩) :
    ∃ executors, step build shutdownPipe loop (.executor id (.execute worker)) =
      some ({ loop with executors := executors }.call work) := by
  simp only [step, MtExecutor.step, called, took]
  exact ⟨_, if_pos trivial⟩

/-- Work that runs too late does not resume the coroutine it was posted for. -/
theorem inTime_of_keepsPromise {build : Build} {shutdownPipe : Nat} {loop : EventLoop}
    {event : Event} (keeps : KeepsPromise build shutdownPipe loop event) : InTime loop event := by
  cases event with
  | executor id event =>
      cases event with
      | execute worker =>
          intro ticket registration cause took
          rcases step_execute build shutdownPipe took with ⟨executor, stepped⟩
          cases read_eq : loop.read (.localHandle registration) with
          | ok handle => exact ⟨handle, read_localHandle_eq_ok read_eq⟩
          | error fault =>
              have member : ⟨cause, .error fault⟩ ∈
                  ({ loop with executors := executor }.call
                    (.resume (.localHandle registration) cause)).resumed := by
                have read_eq' : { loop with executors := executor }.read
                    (.localHandle registration) = .error fault := read_eq
                rw [EventLoop.call, read_eq']
                exact List.mem_append_right _ List.mem_cons_self
              rcases (keeps _ stepped).right _ member with ⟨interest, _, outcome_eq, _⟩
              cases outcome_eq
      | _ => trivial
  | _ => trivial

/-- In every interleaving, all work resumes the right coroutine, and none twice, exactly if
the work that was posted for waiters that write runs before the event thread leaves the
block that posted it. -/
theorem resumesRight_iff (build : Build) (shutdownPipe : Nat) (events : List Event) :
    Along (step build shutdownPipe) (KeepsPromise build shutdownPipe) initial events ↔
      Along (step build shutdownPipe) InTime initial events := by
  constructor
  · exact Along.imp fun keeps => inTime_of_keepsPromise keeps
  · exact Along.imp_of_invariant invariant_step
      (fun invariant inTime next stepped => (invariant_step invariant inTime stepped).resumes_right)
      invariant_initial

/-- Two coroutines wait for descriptors to become writable, and both are reported.  The work
of the first runs when the event thread is in the block of the second. -/
theorem not_keepsPromise_of_two_writers :
    ¬ ∀ events, Along (step .debug 3) (KeepsPromise .debug 3) initial events := by
  intro keeps
  have promise := keeps ([.associate 5, .associate 6, .suspend .write 5 100 1 0,
    .suspend .write 6 200 2 0, .executor 0 (.startThreads 1),
    .wait [(5, ⟨false, true, false⟩), (6, ⟨false, true, false⟩)], .advance, .advance, .advance,
    .advance, .advance, .executor 0 (.dequeue 0)] ++ [.executor 0 (.execute 0)])
  have afterExecute := promise.last rfl _ rfl
  rcases afterExecute.right _ List.mem_cons_self with ⟨interest, _, outcome_eq, _⟩
  cases outcome_eq

end SkAsync.Posix.EventLoop

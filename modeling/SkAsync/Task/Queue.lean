import SkAsync.Task.Thread

/-!
# The queues of the executors

A thread takes the first work off its queue.  The main thread looks first whether the
task of `wait` has ended, and returns its result if it has.
-/

namespace SkAsync.Coroutine

open SkAsync.Library

variable {β α ε γ : Type} {process : Process β α ε γ} {runner : Nat}

/-- A thread that was blocked in its loop takes work or returns. -/
theorem Steady.setRunner (now : Runner α ε) (idle : process.runners runner = .idle)
    (empty : now.stack = fun _ => none) (goesOn : ∀ {top below}, now ≠ .suspending top below)
    (queue : Executor → List Nat) :
    Steady process { process.setRunner runner now with queue := queue } := by
  constructor
  · rfl
  · rfl
  · rfl
  · rfl
  · rfl
  · rfl
  · exact fun found => ⟨_, found, .refl _⟩
  · exact fun found => ⟨_, found, .refl _⟩
  · intro other
    change (Function.update process.runners runner now other).stack = _
    by_cases same : other = runner
    · subst same
      rw [Function.update_self, idle, empty]
      rfl
    · rw [Function.update_of_ne same]
  · intro other top below
    change Function.update process.runners runner now other = _ ↔ _
    by_cases same : other = runner
    · subst same
      rw [Function.update_self, idle]
      constructor
      · exact fun suspending => absurd suspending goesOn
      · rintro ⟨⟩
    · rw [Function.update_of_ne same]

/-- The first work is taken off a queue. -/
theorem Work.take (work : Work process) (idle : process.runners runner = .idle) {call : Nat}
    {rest : List Nat} (queued : process.queue (executorOf runner) = call :: rest) :
    Work ((process.setQueue (executorOf runner) rest).setRunner runner (.took call)) := by
  have nodup := work.nodup (executorOf runner)
  rw [queued, List.nodup_cons] at nodup
  have isQueued : call ∈ process.queue (executorOf runner) := by
    rw [queued]
    exact List.mem_cons_self
  rcases work.queued isQueued with ⟨state, found, awaits⟩
  have took_iff : ∀ {other taken}, Function.update process.runners runner (.took call) other =
      .took taken ↔ other = runner ∧ taken = call ∨ process.runners other = .took taken := by
    intro other taken
    by_cases same : other = runner
    · subst same
      simp [idle, eq_comm]
    · simp [same]
  have still : ∀ {xer other}, other ∈ Function.update process.queue (executorOf runner) rest xer →
      other ∈ process.queue xer ∧ other ≠ call := by
    intro xer other member
    by_cases same : xer = executorOf runner
    · subst same
      rw [Function.update_self] at member
      rw [queued]
      refine ⟨List.mem_cons_of_mem _ member, ?_⟩
      rintro rfl
      exact nodup.1 member
    · rw [Function.update_of_ne same] at member
      refine ⟨member, ?_⟩
      -- A call is queued where its executor is.
      rintro rfl
      rcases work.queued member with ⟨state', found', awaits'⟩
      rw [found] at found'
      cases found'
      have executor_eq := awaits'.taskExecutor_eq
      rw [awaits.taskExecutor_eq] at executor_eq
      cases executor_eq
      exact same rfl
  constructor
  · exact work.executor
  · exact work.resumed_posted
  · exact fun member => work.queued (still member).1
  · intro other taken took
    rcases took_iff.mp took with ⟨rfl, rfl⟩ | before
    · exact ⟨state, found, awaits⟩
    · exact work.taken before
  · intro xer
    change (Function.update process.queue (executorOf runner) rest xer).Nodup
    by_cases same : xer = executorOf runner
    · subst same
      rw [Function.update_self]
      exact nodup.2
    · rw [Function.update_of_ne same]
      exact work.nodup xer
  · intro other taken took xer member
    rcases took_iff.mp took with ⟨_, rfl⟩ | before
    · exact (still member).2 rfl
    · exact work.taken_not_queued before xer (still member).1
  · intro first second taken took took'
    rcases took_iff.mp took with ⟨rfl, rfl⟩ | before
    · rcases took_iff.mp took' with ⟨rfl, _⟩ | before'
      · rfl
      · exact absurd isQueued (work.taken_not_queued before' _)
    · rcases took_iff.mp took' with ⟨rfl, rfl⟩ | before'
      · exact absurd isQueued (work.taken_not_queued before _)
      · exact work.taken_once before before'
  · intro other state' found' waits posted
    by_cases same : other = call
    · exact .inr ⟨runner, took_iff.mpr (.inl ⟨rfl, same⟩)⟩
    · rcases work.found found' waits posted with ⟨xer, member⟩ | ⟨taker, took⟩
      · refine .inl ⟨xer, ?_⟩
        change other ∈ Function.update process.queue (executorOf runner) rest xer
        by_cases sameQueue : xer = executorOf runner
        · subst sameQueue
          rw [queued] at member
          rw [Function.update_self]
          exact (List.mem_cons.mp member).resolve_left same
        · rwa [Function.update_of_ne sameQueue]
      · exact .inr ⟨taker, took_iff.mpr (.inr took)⟩

/-- The call of `wait` returns. -/
theorem Work.return (work : Work process) (idle : process.runners runner = .idle)
    (result : Except ε α) : Work (process.setRunner runner (.returned result)) := by
  refine work.congr rfl rfl rfl ?_
  intro other call
  rw [runner_eq_iff rfl]
  constructor
  · rintro (⟨_, ⟨⟩⟩ | ⟨_, before⟩)
    exact before
  · intro took
    refine .inr ⟨?_, took⟩
    rintro rfl
    rw [idle] at took
    cases took

variable [Inhabited α] {user : β → Statement β α ε γ} {respond : γ → Except ε α → Prop}
  {task : Task β γ} {nthreads : Nat}

/-- One iteration of `run` with the lock held. -/
theorem Invariant.dequeue (invariant : Invariant user respond task nthreads process)
    (idle : process.runners runner = .idle) {process' : Process β α ε γ}
    (stepped : process.dequeue runner = some process') :
    Invariant user respond task nthreads process' ∧ process'.flows = process.flows ∧
      process'.calls = process.calls := by
  have takes : ∀ {call rest}, process.queue (executorOf runner) = call :: rest →
      Invariant user respond task nthreads
        ((process.setQueue (executorOf runner) rest).setRunner runner (.took call)) := by
    intro call rest queued
    have steady := Steady.setRunner (.took call) idle rfl (by rintro _ _ ⟨⟩)
      (Function.update process.queue (executorOf runner) rest)
    constructor
    · exact invariant.misuse_eq
    · exact invariant.terminated_eq
    · exact steady.counted invariant.counted
    · exact steady.placed invariant.placed
    · exact steady.answered invariant.answered invariant.answered.called
    · exact invariant.work.take idle queued
    · exact steady.locks invariant.locks
    · apply steady.root invariant.root
      intro result returned
      rcases (runner_eq_iff rfl).mp returned with ⟨_, ⟨⟩⟩ | ⟨_, before⟩
      exact invariant.root.returned before
    · exact invariant.crew.setRunner rfl (by rintro ⟨⟩) (by rintro _ ⟨⟩)
  have took : ∀ {next}, process.take runner = some next →
      Invariant user respond task nthreads next ∧ next.flows = process.flows ∧
        next.calls = process.calls := by
    intro next taken
    cases queued : process.queue (executorOf runner) with
    | nil =>
        rw [Process.take_of_nil queued] at taken
        cases taken
    | cons call rest =>
        rw [Process.take_of_cons queued] at taken
        cases taken
        exact ⟨takes queued, rfl, rfl⟩
  unfold Process.dequeue at stepped
  by_cases main : runner = 0
  · subst main
    rw [if_pos rfl] at stepped
    rcases invariant.main_frame with ⟨flow, frame, flow_found, frame_found, state⟩
    rw [frame_found] at stepped
    dsimp only at stepped
    split at stepped
    next final =>
      cases stepped
      rcases state with ⟨_, goesOn⟩ | ⟨outcome, _⟩
      · exact absurd final goesOn
      have steady := Steady.setRunner (.returned frame.promise.awaitResume) idle rfl
        (by rintro _ _ ⟨⟩) process.queue
      refine ⟨?_, rfl, rfl⟩
      constructor
      · exact invariant.misuse_eq
      · exact invariant.terminated_eq
      · exact steady.counted invariant.counted
      · exact steady.placed invariant.placed
      · exact steady.answered invariant.answered invariant.answered.called
      · exact invariant.work.return idle _
      · exact steady.locks invariant.locks
      · apply steady.root invariant.root
        intro result returned
        rcases (runner_eq_iff rfl).mp returned with ⟨_, ⟨⟩⟩ | ⟨differs, _⟩
        · exact ⟨flow, flow_found, outcome⟩
        · exact absurd rfl differs
      · exact invariant.crew.setRunner rfl (by rintro ⟨⟩) fun _ => rfl
    next => exact took stepped
  · rw [if_neg main] at stepped
    exact took stepped

end SkAsync.Coroutine

import Mathlib.Data.List.Nodup
import SkAsync.Library.Interleaving

/-!
# Submission to the ring

`_put_sq` puts a request in a slot of the submission ring and submits it, or keeps it
for later when there is no slot; the completion thread moves what was kept to the
ring.  Both hold the mutex, so that each is one atomic step.  A slot that was filled
stays filled until a later submission hands it to the kernel, whatever the outcome of
this one.

Every request is passed to `_put_sq` once.  The lists of the requests placed in the
ring, handed to the kernel and answered are kept for the statements only.
-/

namespace SkAsync.Posix

open SkAsync.Library

/-- The errors of `_put_sq`: `errno` after a submission, or an allocation that failed. -/
inductive PutError
  | system (errno : Int)
  | notEnoughMemory
  deriving DecidableEq, Repr

/-- `EBUSY`. -/
abbrev ebusy : Int := 16

/-- The filled slots of the ring, `_pending`, and what has happened so far. -/
structure SubmissionRing where
  slots : List Nat
  pending : List Nat
  placed : List Nat
  handed : List Nat
  results : List (Nat × Except PutError Unit)

namespace SubmissionRing

/-- A new ring. -/
def initial : SubmissionRing :=
  ⟨[], [], [], [], []⟩

/-- `_try_put_sq`: `io_uring_get_sqe` finds a slot unless all of them are filled. -/
def tryPutSq (capacity : Nat) (ring : SubmissionRing) (newsqe : Nat) : Option SubmissionRing :=
  if ring.slots.length < capacity then
    some { ring with slots := ring.slots ++ [newsqe], placed := ring.placed ++ [newsqe] }
  else none

/-- `io_uring_submit` with its result: a success hands the filled slots to the kernel. -/
def submit (ring : SubmissionRing) (r : Int) : SubmissionRing :=
  if r ≥ 0 then { ring with slots := [], handed := ring.handed ++ ring.slots } else ring

/-- `_put_sq`, with the result of `io_uring_submit`, the value of `errno` after it, and
whether `push_back` can allocate. -/
def putSq (capacity : Nat) (ring : SubmissionRing) (newsqe : Nat) (r errno : Int)
    (allocates : Bool) : SubmissionRing × Except PutError Unit :=
  match ring.tryPutSq capacity newsqe with
  | some ring =>
      let ring := ring.submit r
      if r ≥ 0 ∨ r = -ebusy then (ring, .ok ()) else (ring, .error (.system errno))
  | none =>
      if allocates then ({ ring with pending := ring.pending ++ [newsqe] }, .ok ())
      else (ring, .error .notEnoughMemory)

/-- The loop of the completion thread over `_pending`. -/
def queuePending (capacity : Nat) : SubmissionRing → List Nat → SubmissionRing
  | ring, [] => { ring with pending := [] }
  | ring, front :: pending =>
      match ring.tryPutSq capacity front with
      | some ring => queuePending capacity ring pending
      | none => { ring with pending := front :: pending }

/-- The locked part of a round of the completion thread. -/
def round (capacity : Nat) (ring : SubmissionRing) (r : Int) : SubmissionRing :=
  (queuePending capacity ring ring.pending).submit r

/-- The atomic steps of the threads. -/
inductive Event
  | put (request : Nat) (r errno : Int) (allocates : Bool)
  | round (r : Int)
  deriving DecidableEq, Repr

/-- One atomic step.  A request is passed to `_put_sq` once. -/
def step (capacity : Nat) (ring : SubmissionRing) : Event → Option SubmissionRing
  | .put request r errno allocates =>
      if request ∈ ring.results.map Prod.fst then none
      else
        let (ring, result) := ring.putSq capacity request r errno allocates
        some { ring with results := ring.results ++ [(request, result)] }
  | .round r => some (ring.round capacity r)

/-! ## The promise and when it is kept -/

/-- A request that was accepted is placed in the ring once or is kept once; one that
was refused is in neither. -/
structure AllOrNothing (ring : SubmissionRing) : Prop where
  accepted_once : ∀ request, (request, .ok ()) ∈ ring.results →
    ring.placed.count request + ring.pending.count request = 1
  refused_never : ∀ request error, (request, .error error) ∈ ring.results →
    request ∉ ring.placed ∧ request ∉ ring.pending

/-- The state after a step keeps the promise. -/
def KeepsPromise (capacity : Nat) (ring : SubmissionRing) (event : Event) : Prop :=
  ∀ next, step capacity ring event = some next → AllOrNothing next

/-- A submission that follows on a slot being filled succeeds or returns `-EBUSY`. -/
def Submits (capacity : Nat) (ring : SubmissionRing) : Event → Prop
  | .put request r _ _ => request ∉ ring.results.map Prod.fst → ring.slots.length < capacity →
      r ≥ 0 ∨ r = -ebusy
  | .round _ => True

/-- The request of a call, if it was accepted. -/
def acceptedRequest : Nat × Except PutError Unit → Option Nat
  | (request, .ok ()) => some request
  | (_, .error _) => none

/-- The requests that were accepted, in the order of the calls. -/
def accepted (ring : SubmissionRing) : List Nat :=
  ring.results.filterMap acceptedRequest

/-- What is placed in the ring or kept are the requests that were accepted. -/
structure Invariant (ring : SubmissionRing) : Prop where
  calls_nodup : (ring.results.map Prod.fst).Nodup
  accounted : (ring.placed ++ ring.pending).Perm ring.accepted

theorem mem_accepted_iff {ring : SubmissionRing} {request : Nat} :
    request ∈ ring.accepted ↔ (request, .ok ()) ∈ ring.results := by
  unfold accepted
  rw [List.mem_filterMap]
  constructor
  · rintro ⟨⟨called, result⟩, member, found⟩
    cases result with
    | ok done =>
        cases found
        exact member
    | error error => cases found
  · intro member
    exact ⟨_, member, rfl⟩

theorem accepted_sublist (ring : SubmissionRing) :
    ring.accepted.Sublist (ring.results.map Prod.fst) := by
  unfold accepted
  induction ring.results with
  | nil => exact List.Sublist.slnil
  | cons call calls ih =>
      rcases call with ⟨request, result⟩
      cases result with
      | ok done => exact ih.cons_cons request
      | error error => exact ih.cons request

/-- The invariant gives what is promised to every caller. -/
theorem Invariant.allOrNothing {ring : SubmissionRing} (invariant : Invariant ring) :
    AllOrNothing ring := by
  constructor
  · intro request success
    rw [← List.count_append, invariant.accounted.count_eq]
    exact List.count_eq_one_of_mem (invariant.calls_nodup.sublist ring.accepted_sublist)
      (mem_accepted_iff.mpr success)
  · intro request error refused
    have notAccepted : request ∉ ring.accepted := by
      intro isAccepted
      have same := List.inj_on_of_nodup_map invariant.calls_nodup
        (mem_accepted_iff.mp isAccepted) refused rfl
      cases same
    rw [← invariant.accounted.mem_iff, List.mem_append, not_or] at notAccepted
    exact notAccepted

theorem invariant_initial : Invariant initial :=
  ⟨List.nodup_nil, List.Perm.refl _⟩

/-! ## One step -/

@[simp]
theorem submit_placed (ring : SubmissionRing) (r : Int) : (ring.submit r).placed = ring.placed := by
  unfold submit
  split_ifs <;> rfl

@[simp]
theorem submit_pending (ring : SubmissionRing) (r : Int) :
    (ring.submit r).pending = ring.pending := by
  unfold submit
  split_ifs <;> rfl

@[simp]
theorem submit_results (ring : SubmissionRing) (r : Int) :
    (ring.submit r).results = ring.results := by
  unfold submit
  split_ifs <;> rfl

theorem tryPutSq_eq_some {capacity : Nat} {ring next : SubmissionRing} {newsqe : Nat}
    (found : ring.tryPutSq capacity newsqe = some next) :
    ring.slots.length < capacity ∧ next.placed = ring.placed ++ [newsqe] ∧
      next.pending = ring.pending ∧ next.results = ring.results := by
  unfold tryPutSq at found
  split_ifs at found with room
  cases found
  exact ⟨room, rfl, rfl, rfl⟩

/-- The loop moves requests from the front of `_pending` to the ring, in order. -/
theorem queuePending_spec (capacity : Nat) (ring : SubmissionRing) (pending : List Nat) :
    (queuePending capacity ring pending).placed ++ (queuePending capacity ring pending).pending =
        ring.placed ++ pending ∧
      (queuePending capacity ring pending).results = ring.results := by
  induction pending generalizing ring with
  | nil => exact ⟨rfl, rfl⟩
  | cons front pending ih =>
      unfold queuePending
      cases found : ring.tryPutSq capacity front with
      | none => exact ⟨rfl, rfl⟩
      | some next =>
          rcases tryPutSq_eq_some found with ⟨_, placed_eq, _, results_eq⟩
          rcases ih next with ⟨moved, kept⟩
          rw [placed_eq, List.append_assoc, List.singleton_append] at moved
          exact ⟨moved, kept.trans results_eq⟩

/-- What `_put_sq` does with a request, if the submission it makes does not fail. -/
theorem putSq_spec {capacity : Nat} {ring : SubmissionRing} (newsqe : Nat) {r : Int} (errno : Int)
    (submits : ring.slots.length < capacity → r ≥ 0 ∨ r = -ebusy) (allocates : Bool) :
    (ring.putSq capacity newsqe r errno allocates).1.results = ring.results ∧
      match ring.putSq capacity newsqe r errno allocates with
      | (next, .ok ()) =>
          (next.placed ++ next.pending).Perm (ring.placed ++ ring.pending ++ [newsqe])
      | (next, .error _) => next.placed ++ next.pending = ring.placed ++ ring.pending := by
  unfold putSq
  cases found : ring.tryPutSq capacity newsqe with
  | some next =>
      rcases tryPutSq_eq_some found with ⟨room, placed_eq, pending_eq, results_eq⟩
      dsimp only
      rw [if_pos (submits room)]
      refine ⟨(submit_results next r).trans results_eq, ?_⟩
      dsimp only
      rw [submit_placed, submit_pending, placed_eq, pending_eq, List.append_assoc,
        List.append_assoc]
      exact List.perm_append_comm.append_left ring.placed
  | none =>
      dsimp only
      split_ifs
      · refine ⟨rfl, ?_⟩
        dsimp only
        rw [List.append_assoc]
      · exact ⟨rfl, rfl⟩

theorem invariant_step {capacity : Nat} {ring next : SubmissionRing} {event : Event}
    (invariant : Invariant ring) (submits : Submits capacity ring event)
    (stepped : step capacity ring event = some next) : Invariant next := by
  cases event with
  | put request r errno allocates =>
      simp only [step] at stepped
      split_ifs at stepped with again
      rcases putSq_spec request errno (submits again) allocates with
        ⟨results_eq, placed⟩
      generalize ring.putSq capacity request r errno allocates = put at stepped results_eq placed
      rcases put with ⟨after, result⟩
      cases stepped
      constructor
      · change ((after.results ++ [(request, result)]).map Prod.fst).Nodup
        rw [results_eq, List.map_append, List.nodup_append]
        refine ⟨invariant.calls_nodup, by simp, ?_⟩
        intro called member other isRequest same
        rw [same, List.mem_singleton.mp isRequest] at member
        exact again member
      · unfold accepted
        rw [results_eq, List.filterMap_append]
        cases result with
        | ok done => exact placed.trans (invariant.accounted.append_right [request])
        | error error =>
            change (after.placed ++ after.pending).Perm (ring.accepted ++ [])
            rw [List.append_nil]
            exact (List.Perm.of_eq placed).trans invariant.accounted
  | round r =>
      cases stepped
      rcases queuePending_spec capacity ring ring.pending with ⟨moved, results_eq⟩
      constructor
      · rw [round, submit_results, results_eq]
        exact invariant.calls_nodup
      · have accepted_eq : (ring.round capacity r).accepted = ring.accepted := by
          rw [accepted, round, submit_results, results_eq, accepted]
        rw [accepted_eq, round, submit_placed, submit_pending, moved]
        exact invariant.accounted

/-! ## Every interleaving -/

/-- A request that is put in a slot and answered with an error is placed in the ring. -/
theorem submits_of_keepsPromise {capacity : Nat} {ring : SubmissionRing} {event : Event}
    (keeps : KeepsPromise capacity ring event) : Submits capacity ring event := by
  cases event with
  | round r => trivial
  | put request r errno allocates =>
      intro fresh room
      by_contra fails
      have result : ring.putSq capacity request r errno allocates =
          (submit { ring with
              slots := ring.slots ++ [request], placed := ring.placed ++ [request] } r,
            .error (.system errno)) := by
        unfold putSq tryPutSq
        rw [if_pos room]
        exact if_neg fails
      have stepped : step capacity ring (.put request r errno allocates) =
          some { ring.putSq capacity request r errno allocates |>.1 with
            results := (ring.putSq capacity request r errno allocates).1.results ++
              [(request, (ring.putSq capacity request r errno allocates).2)] } :=
        if_neg fresh
      rw [result] at stepped
      have refused := (keeps _ stepped).refused_never request (.system errno)
        (List.mem_append_right _ (List.mem_singleton_self _))
      apply refused.1
      change request ∈ (submit _ r).placed
      rw [submit_placed]
      exact List.mem_append_right _ (List.mem_singleton_self _)

/-- For every interleaving and every capacity of the ring, submission is all or
nothing exactly if every submission that follows on a slot being filled succeeds or
returns `-EBUSY`. -/
theorem allOrNothing_iff (capacity : Nat) (events : List Event) :
    Along (step capacity) (KeepsPromise capacity) initial events ↔
      Along (step capacity) (Submits capacity) initial events := by
  constructor
  · exact Along.imp submits_of_keepsPromise
  · exact Along.imp_of_invariant invariant_step
      (fun invariant submits next stepped =>
        (invariant_step invariant submits stepped).allOrNothing)
      invariant_initial

/-- The submission fails, and the request it was refused for reaches the kernel in the
next round. -/
theorem not_keepsPromise_of_failed_submit :
    ¬ ∀ events, Along (step 1) (KeepsPromise 1) initial events := by
  intro keeps
  have promise := keeps [.put 7 (-12) 12 true, .round 1]
  have afterRound := (promise.2 _ rfl).1 _ rfl
  have refused := afterRound.refused_never 7 (.system 12) (List.mem_singleton_self _)
  exact refused.1 (List.mem_singleton_self _)

end SubmissionRing

end SkAsync.Posix

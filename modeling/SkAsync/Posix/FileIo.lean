import Mathlib.Data.Int.Order.Basic
import SkAsync.Check

/-!
# File I/O on Linux

Six file operations, each with two implementations.  `epoll_reactor` makes the
system call on a worker thread and passes its outcome back through one integer.
`io_uring_reactor` submits an entry to the ring and passes the result field of
the completion back.  `linux_reactor` uses the ring when there is one.

A kernel assigns an outcome to every operation; a ring assigns the result field
to every submitted entry.  `int` and `ssize_t` are integers here, except where
the source narrows one.
-/

namespace SkAsync.Posix

open SkAsync.Library

/-- The largest and the smallest `int`. -/
def intMax : Int := 2 ^ 31 - 1

def intMin : Int := -2 ^ 31

/-- An error number: a positive `int`. -/
structure Errno where
  value : Nat
  positive : 0 < value
  le_intMax : (value : Int) ≤ intMax

/-- `std::error_code` in the system category, the only one file I/O uses. -/
structure ErrorCode where
  value : Int
  deriving DecidableEq, Repr

/-- `expected<int, std::error_code>` and `expected<ssize_t, std::error_code>`. -/
abbrev Expected := Except ErrorCode Int

/-- The outcome of a system call: a non-negative result or an error number. -/
inductive Outcome
  | success (result : Nat)
  | failure (error : Errno)

namespace Outcome

/-- What the system call returns. -/
def returned : Outcome → Int
  | success result => result
  | failure _ => -1

/-- `errno` after the call, which is read after a failure only. -/
def errno : Outcome → Int
  | success _ => 0
  | failure error => error.value

/-- The result field of a completion: the result of the call or a negated error number. -/
def res : Outcome → Int
  | success result => result
  | failure error => -error.value

end Outcome

/-- The file operations, with their arguments except for the address of a buffer. -/
inductive FileCall
  | fdOpen (path : String) (flags mode : Int)
  | fdClose (fd : Int)
  | fdRead (fd : Int) (n : Nat)
  | fdPread (fd : Int) (n : Nat) (offs : Int)
  | fdWrite (fd : Int) (n : Nat)
  | fdPwrite (fd : Int) (n : Nat) (offs : Int)
  deriving DecidableEq, Repr

/-- `narrow<int>`, which aborts when the value does not fit. -/
def narrow (v : Int) : Except Fault Int :=
  if v > intMax ∨ v < intMin then .error (.checkFailed "narrow() would truncate") else .ok v

/-! ## Thread dispatch -/

namespace EpollReactor

variable (kernel : FileCall → Outcome)

/-- The function each operation runs on a worker: `r >= 0 ? r : -errno`. -/
def asyncInvoke (call : FileCall) : Int :=
  let outcome := kernel call
  let r := outcome.returned
  if r ≥ 0 then r else -outcome.errno

/-- `epoll_reactor::async_fd_open`. -/
def asyncFdOpen (path : String) (flags mode : Int) : Except Fault Expected :=
  let fd := asyncInvoke kernel (.fdOpen path flags mode)
  if fd < 0 then .ok (.error ⟨-fd⟩) else .ok (.ok fd)

/-- `epoll_reactor::async_fd_close`: the test is for `-1`, and the value is the
descriptor that was closed. -/
def asyncFdClose (fd : Int) : Except Fault Expected :=
  let ret := asyncInvoke kernel (.fdClose fd)
  if ret = -1 then .ok (.error ⟨-ret⟩) else .ok (.ok fd)

/-- The body shared by the operations that transfer data. -/
def transfer (call : FileCall) : Except Fault Expected := do
  let ret := asyncInvoke kernel call
  if ret < 0 then
    let value ← narrow (-ret)
    pure (.error ⟨value⟩)
  else
    pure (.ok ret)

/-- `epoll_reactor::async_fd_read`. -/
def asyncFdRead (fd : Int) (n : Nat) : Except Fault Expected :=
  transfer kernel (.fdRead fd n)

/-- `epoll_reactor::async_fd_pread`. -/
def asyncFdPread (fd : Int) (n : Nat) (offs : Int) : Except Fault Expected :=
  transfer kernel (.fdPread fd n offs)

/-- `epoll_reactor::async_fd_write`. -/
def asyncFdWrite (fd : Int) (n : Nat) : Except Fault Expected :=
  transfer kernel (.fdWrite fd n)

/-- `epoll_reactor::async_fd_pwrite`. -/
def asyncFdPwrite (fd : Int) (n : Nat) (offs : Int) : Except Fault Expected :=
  transfer kernel (.fdPwrite fd n offs)

/-- The operation a call names. -/
def perform : FileCall → Except Fault Expected
  | .fdOpen path flags mode => asyncFdOpen kernel path flags mode
  | .fdClose fd => asyncFdClose kernel fd
  | .fdRead fd n => asyncFdRead kernel fd n
  | .fdPread fd n offs => asyncFdPread kernel fd n offs
  | .fdWrite fd n => asyncFdWrite kernel fd n
  | .fdPwrite fd n offs => asyncFdPwrite kernel fd n offs

end EpollReactor

/-! ## The ring -/

/-- A submission queue entry, as the `io_uring_prep_*` functions fill it. -/
inductive Sqe
  | openat (dirfd : Int) (path : String) (flags mode : Int)
  | close (fd : Int)
  | read (fd : Int) (n : Nat) (offset : Int)
  | write (fd : Int) (n : Nat) (offset : Int)
  deriving DecidableEq, Repr

/-- `AT_FDCWD`. -/
def atFdcwd : Int := -100

namespace IoUringReactor

variable (ring : Sqe → Except Errno Int)

/-- `co_await co_sqe_wait(this, &sqe)`: the result field of the completion, or
the initial `-1` when the entry could not be submitted. -/
def coSqeWait (sqe : Sqe) : Int :=
  match ring sqe with
  | .error _ => -1
  | .ok res => res

/-- `co_return co_await co_sqe_wait(...)`: the integer becomes the value. -/
def complete (sqe : Sqe) : Except Fault Expected :=
  .ok (.ok (coSqeWait ring sqe))

/-- `io_uring_reactor::async_fd_open`. -/
def asyncFdOpen (path : String) (flags mode : Int) : Except Fault Expected :=
  complete ring (.openat atFdcwd path flags mode)

/-- `io_uring_reactor::async_fd_close`. -/
def asyncFdClose (fd : Int) : Except Fault Expected :=
  complete ring (.close fd)

/-- `io_uring_reactor::async_fd_read`, at the current position. -/
def asyncFdRead (fd : Int) (n : Nat) : Except Fault Expected :=
  complete ring (.read fd n (-1))

/-- `io_uring_reactor::async_fd_pread`. -/
def asyncFdPread (fd : Int) (n : Nat) (offs : Int) : Except Fault Expected :=
  complete ring (.read fd n offs)

/-- `io_uring_reactor::async_fd_write`, at the current position. -/
def asyncFdWrite (fd : Int) (n : Nat) : Except Fault Expected :=
  complete ring (.write fd n (-1))

/-- `io_uring_reactor::async_fd_pwrite`. -/
def asyncFdPwrite (fd : Int) (n : Nat) (offs : Int) : Except Fault Expected :=
  complete ring (.write fd n offs)

/-- The operation a call names. -/
def perform : FileCall → Except Fault Expected
  | .fdOpen path flags mode => asyncFdOpen ring path flags mode
  | .fdClose fd => asyncFdClose ring fd
  | .fdRead fd n => asyncFdRead ring fd n
  | .fdPread fd n offs => asyncFdPread ring fd n offs
  | .fdWrite fd n => asyncFdWrite ring fd n
  | .fdPwrite fd n offs => asyncFdPwrite ring fd n offs

end IoUringReactor

/-- The entry that stands for a call. -/
def FileCall.sqe : FileCall → Sqe
  | fdOpen path flags mode => .openat atFdcwd path flags mode
  | fdClose fd => .close fd
  | fdRead fd n => .read fd n (-1)
  | fdPread fd n offs => .read fd n offs
  | fdWrite fd n => .write fd n (-1)
  | fdPwrite fd n offs => .write fd n offs

/-- The file operations of `linux_reactor`: on the ring if there is one. -/
def LinuxReactor.perform (uring : Option (Sqe → Except Errno Int)) (kernel : FileCall → Outcome)
    (call : FileCall) : Except Fault Expected :=
  match uring with
  | some ring => IoUringReactor.perform ring call
  | none => EpollReactor.perform kernel call

/-! ## What each reactor reports -/

/-- The ring completes the entry of a call with the outcome of the call. -/
def Completes (ring : Sqe → Except Errno Int) (kernel : FileCall → Outcome)
    (call : FileCall) : Prop :=
  ring call.sqe = .ok (kernel call).res

/-- An error number survives narrowing. -/
theorem narrow_errno (error : Errno) : narrow error.value = .ok (error.value : Int) := by
  have small := error.le_intMax
  apply if_neg
  rw [not_or]
  constructor
  · exact not_lt.mpr small
  · exact not_lt.mpr (le_trans (by decide : intMin ≤ 0) (Int.natCast_nonneg error.value))

theorem asyncInvoke_of_success {kernel : FileCall → Outcome} {call : FileCall} {result : Nat}
    (succeeded : kernel call = .success result) :
    EpollReactor.asyncInvoke kernel call = result := by
  have nonneg : (result : Int) ≥ 0 := Int.natCast_nonneg result
  rw [EpollReactor.asyncInvoke, succeeded]
  exact if_pos nonneg

theorem asyncInvoke_of_failure {kernel : FileCall → Outcome} {call : FileCall} {error : Errno}
    (failed : kernel call = .failure error) :
    EpollReactor.asyncInvoke kernel call = -error.value := by
  rw [EpollReactor.asyncInvoke, failed]
  rfl

/-- The functions that transfer data report the outcome as it is. -/
theorem transfer_of_success {kernel : FileCall → Outcome} {call : FileCall} {result : Nat}
    (succeeded : kernel call = .success result) :
    EpollReactor.transfer kernel call = .ok (.ok result) := by
  have nonneg : ¬ (result : Int) < 0 := not_lt.mpr (Int.natCast_nonneg result)
  rw [EpollReactor.transfer, asyncInvoke_of_success succeeded]
  exact if_neg nonneg

/-- They report an error as it is, because an error number always fits an `int`. -/
theorem transfer_of_failure {kernel : FileCall → Outcome} {call : FileCall} {error : Errno}
    (failed : kernel call = .failure error) :
    EpollReactor.transfer kernel call = .ok (.error ⟨error.value⟩) := by
  have negative : -(error.value : Int) < 0 := by
    have := error.positive
    omega
  rw [EpollReactor.transfer, asyncInvoke_of_failure failed]
  simp only [if_pos negative, Int.neg_neg, narrow_errno, ok_bind, pure_eq_ok]

/-- What a successful call reports on `epoll_reactor`: `async_fd_close` gives
the descriptor it closed, every other operation the result of the call. -/
def epollValue (call : FileCall) (result : Nat) : Int :=
  match call with
  | .fdClose fd => fd
  | _ => result

theorem epollValue_eq_iff (call : FileCall) (result : Nat) :
    epollValue call result = result ↔ ∀ fd, call = .fdClose fd → (result : Int) = fd := by
  cases call with
  | fdClose fd =>
      constructor
      · intro same fd' sameCall
        cases sameCall
        exact same.symm
      · intro ownNumber
        exact (ownNumber fd rfl).symm
  | _ => exact iff_of_true rfl (fun _ impossible => by cases impossible)

/-- A successful call has a value on `epoll_reactor`. -/
theorem epoll_of_success {kernel : FileCall → Outcome} {call : FileCall} {result : Nat}
    (succeeded : kernel call = .success result) :
    EpollReactor.perform kernel call = .ok (.ok (epollValue call result)) := by
  have nonneg : (0 : Int) ≤ result := Int.natCast_nonneg result
  cases call with
  | fdOpen path flags mode =>
      rw [EpollReactor.perform, EpollReactor.asyncFdOpen, asyncInvoke_of_success succeeded]
      exact if_neg (not_lt.mpr nonneg)
  | fdClose fd =>
      rw [EpollReactor.perform, EpollReactor.asyncFdClose, asyncInvoke_of_success succeeded]
      exact if_neg (by omega)
  | fdRead fd n => exact transfer_of_success succeeded
  | fdPread fd n offs => exact transfer_of_success succeeded
  | fdWrite fd n => exact transfer_of_success succeeded
  | fdPwrite fd n offs => exact transfer_of_success succeeded

/-- The ring's result field is the value, whatever it says. -/
theorem uring_of_completes {ring : Sqe → Except Errno Int} {kernel : FileCall → Outcome}
    {call : FileCall} (completes : Completes ring kernel call) :
    IoUringReactor.perform ring call = .ok (.ok (kernel call).res) := by
  have waited : IoUringReactor.coSqeWait ring call.sqe = (kernel call).res := by
    rw [IoUringReactor.coSqeWait, completes]
  have performed : IoUringReactor.perform ring call = IoUringReactor.complete ring call.sqe := by
    cases call <;> rfl
  rw [performed, IoUringReactor.complete, waited]

/-! ## Agreement -/

/-- Both reactors complete the call with the same `expected`: a value exactly
when the system call succeeded, otherwise its error. -/
def Agree (ring : Sqe → Except Errno Int) (kernel : FileCall → Outcome) (call : FileCall) : Prop :=
  ∃ result : Expected,
    EpollReactor.perform kernel call = .ok result ∧
      IoUringReactor.perform ring call = .ok result ∧
      match kernel call with
      | .success _ => ∃ value, result = .ok value
      | .failure error => result = .error ⟨error.value⟩

/-- The outcomes on which the reactors agree: success, and for `async_fd_close`
a result that happens to be the descriptor. -/
def AgreeingOutcome (kernel : FileCall → Outcome) (call : FileCall) : Prop :=
  match kernel call with
  | .success result => ∀ fd, call = .fdClose fd → (result : Int) = fd
  | .failure _ => False

/-- On an agreeing outcome both reactors report the result of the call. -/
theorem agree_of_agreeingOutcome {ring : Sqe → Except Errno Int} {kernel : FileCall → Outcome}
    {call : FileCall} (completes : Completes ring kernel call)
    (agreeing : AgreeingOutcome kernel call) : Agree ring kernel call := by
  have uring := uring_of_completes completes
  unfold AgreeingOutcome at agreeing
  unfold Agree
  cases outcome : kernel call with
  | failure error =>
      rw [outcome] at agreeing
      exact agreeing.elim
  | success value =>
      rw [outcome] at agreeing uring
      have epoll := epoll_of_success outcome
      rw [(epollValue_eq_iff call value).mpr agreeing] at epoll
      exact ⟨.ok value, epoll, uring, value, rfl⟩

/-- For every kernel and every call, the two reactors agree exactly on the
successful calls, and for `async_fd_close` only when the result is the
descriptor. -/
theorem agree_iff_agreeingOutcome (ring : Sqe → Except Errno Int) (kernel : FileCall → Outcome)
    (call : FileCall) (completes : Completes ring kernel call) :
    Agree ring kernel call ↔ AgreeingOutcome kernel call := by
  have uring := uring_of_completes completes
  constructor
  · rintro ⟨result, fromThread, fromRing, reported⟩
    rw [uring] at fromRing
    unfold AgreeingOutcome
    cases outcome : kernel call with
    | failure error =>
        rw [outcome] at reported
        subst reported
        cases fromRing
    | success value =>
        rw [epoll_of_success outcome, ← fromRing, outcome] at fromThread
        exact (epollValue_eq_iff call value).mp (Except.ok.inj (Except.ok.inj fromThread))
  · exact agree_of_agreeingOutcome completes

/-- `ENOENT`. -/
def enoent : Errno :=
  ⟨2, by decide, by decide⟩

theorem agree_iff_agreeingOutcome_of_read :
    Agree (fun _ => .ok 3) (fun _ => .success 3) (.fdRead 5 10) ↔
      AgreeingOutcome (fun _ => .success 3) (.fdRead 5 10) :=
  agree_iff_agreeingOutcome _ _ _ rfl

/-- Opening a missing file: the thread reports `ENOENT`, the ring reports the
descriptor `-2`. -/
theorem open_missing_file :
    Completes (fun _ => .ok (-2)) (fun _ => .failure enoent) (.fdOpen "missing" 0 0) ∧
      EpollReactor.perform (fun _ => .failure enoent) (.fdOpen "missing" 0 0) =
        .ok (.error ⟨2⟩) ∧
      IoUringReactor.perform (fun _ => .ok (-2)) (.fdOpen "missing" 0 0) = .ok (.ok (-2)) ∧
      ¬ Agree (fun _ => .ok (-2)) (fun _ => .failure enoent) (.fdOpen "missing" 0 0) := by
  refine ⟨rfl, rfl, rfl, ?_⟩
  rintro ⟨result, fromThread, fromRing, _⟩
  cases fromThread
  cases fromRing

/-- Where the two agree, `linux_reactor` may use either. -/
theorem linux_perform_eq_of_agreeingOutcome {ring : Sqe → Except Errno Int}
    {kernel : FileCall → Outcome} {call : FileCall} (completes : Completes ring kernel call)
    (agreeing : AgreeingOutcome kernel call) :
    LinuxReactor.perform (some ring) kernel call = LinuxReactor.perform none kernel call := by
  rcases agree_of_agreeingOutcome completes agreeing with ⟨result, epoll, uring, _⟩
  exact uring.trans epoll.symm

end SkAsync.Posix

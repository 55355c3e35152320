import SkAsync.Library.Execution

/-!
# Checks and faults

The library guards its internal invariants by `SK_CHECK`, which aborts in a
debug build and is empty in a release build (`NDEBUG`).  A modelled function
returns `Except Fault`, so that every way of not completing normally is a
value the theorems can exclude.
-/

namespace SkAsync

open SkAsync.Library

/-- The two build flavours `SK_CHECK` distinguishes. -/
inductive Build
  | debug
  | release
  deriving DecidableEq, Repr

/-- The ways in which a call can fail to complete. -/
inductive Fault
  /-- An `SK_CHECK` (or an assertion) failed and the process aborts. -/
  | checkFailed (message : String)
  /-- A null pointer was dereferenced. -/
  | nullDereference
  /-- A pointer to storage that was already freed was dereferenced. -/
  | danglingDereference
  /-- Storage outside an array was accessed. -/
  | outOfBounds
  /-- A loop did not terminate. -/
  | diverged
  deriving DecidableEq, Repr

/-- `SK_CHECK(condition, message)`. -/
def skCheck (build : Build) (condition : Prop) [Decidable condition] (message : String) :
    Except Fault Unit :=
  if build = .debug ∧ ¬ condition then .error (.checkFailed message) else .ok ()

/-- A check whose condition holds does nothing, in either build. -/
theorem skCheck_of {condition : Prop} [Decidable condition] (holds : condition)
    (build : Build) (message : String) : skCheck build condition message = .ok () := by
  simp [skCheck, holds]

/-- A release build ignores every check. -/
@[simp]
theorem skCheck_release (condition : Prop) [Decidable condition] (message : String) :
    skCheck .release condition message = .ok () := by
  simp [skCheck]

/-- A check that is compiled out or whose condition holds does nothing. -/
theorem skCheck_of_release_or {build : Build} {condition : Prop} [Decidable condition]
    (passes : build = .release ∨ condition) (message : String) :
    skCheck build condition message = .ok () := by
  rcases passes with rfl | holds
  · exact skCheck_release ..
  · exact skCheck_of holds ..

/-- A check of a debug build whose condition fails aborts. -/
theorem skCheck_debug_of_not {condition : Prop} [Decidable condition] (fails : ¬ condition)
    (message : String) : skCheck .debug condition message = .error (.checkFailed message) := by
  simp [skCheck, fails]

end SkAsync

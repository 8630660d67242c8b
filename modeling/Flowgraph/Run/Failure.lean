import Flowgraph.Text.Quoted

/-!
# Failures of runs

Why a run stops before the end of its graph.
-/

set_option autoImplicit false

namespace Flowgraph.Run

/-- What a panic carries: a text, or something that has none. -/
inductive Payload where
  | text (message : String)
  | opaqueValue
  deriving DecidableEq

/-- Why a run stops. -/
inductive Failure where
  /-- The definition cannot be started. -/
  | definition (message : String)
  | missingActivityName (stepId : String)
  /-- A parallel step names a branch that does not exist; no branch of it was started. -/
  | missingBranch (stepId branchId : String)
  /-- An activity reported a failure. -/
  | activity (name message : String)
  /-- A branch did not come to an end of its own. -/
  | branchPanicked (stepId message : String)
  deriving DecidableEq

namespace Failure

/-- The root does not exist. -/
def rootNotFound (root : String) : Failure :=
  .definition ("Root step '" ++ root ++ "' not found")

/-- The wording of a failure. -/
def message : Failure → String
  | .definition message => message
  | .missingActivityName stepId => "Activity step '" ++ stepId ++ "' missing activityName"
  | .missingBranch stepId branchId =>
    "Branch step '" ++ branchId ++ "' not found in parallel step '" ++ stepId ++ "'"
  | .activity name message => "Activity '" ++ name ++ "' failed: " ++ message
  | .branchPanicked stepId message =>
    "Branch of parallel step '" ++ stepId ++ "' did not complete: " ++ message

/-- What is said about a task that panicked. -/
def panicNotice (task : Nat) : Payload → String
  | .text message =>
    "task " ++ toString task ++ " panicked with message " ++ Text.quoted message
  | .opaqueValue => "task " ++ toString task ++ " panicked"

end Failure

end Flowgraph.Run

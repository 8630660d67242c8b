import Flowgraph.Activity.Arguments
import Flowgraph.Issue

/-!
# Findings about definitions

What can be wrong with a definition, apart from its wording. Each defect has a severity and
a message; a finding is a defect together with the step it is at.
-/

set_option autoImplicit false

namespace Flowgraph

/-- What can be wrong with a definition. -/
inductive Defect where
  | unnamed
  | emptyId
  | duplicateId
  /-- The id is one that the start or the end of a canvas would like to have. -/
  | reservedId
  | rootUnset
  | rootUnknown (root : String)
  | targetUnknown (link : Link) (target : String)
  | targetItself (link : Link)
  | activityUnnamed
  | conditionWithoutVariable
  | conditionWithoutOperator
  | operatorUnknown (name : String)
  | conditionWithoutTarget
  | noBranches
  | cycle (ids : List String)
  | unreachable
  | activityUnknown (name : String)
  | argument (issue : Activity.ArgumentIssue)
  deriving DecidableEq

namespace Defect

/-- How serious a defect is. -/
def severity : Defect → Severity
  | .reservedId | .conditionWithoutVariable | .conditionWithoutOperator | .operatorUnknown _
  | .conditionWithoutTarget | .noBranches | .unreachable => .warning
  | _ => .error

/-- The wording of a defect. -/
def message : Defect → String
  | .unnamed => "workflow name is required"
  | .emptyId => "step id cannot be empty"
  | .duplicateId => "duplicate step identifier"
  | .reservedId =>
    "step id is reserved for the canvas start/end nodes; the editor renames that node"
  | .rootUnset => "root step is not set"
  | .rootUnknown root => "root step '" ++ root ++ "' not found"
  | .targetUnknown link target =>
    link.name ++ " references unknown step '" ++ target ++ "'"
  | .targetItself link => link.name ++ " references the step itself"
  | .activityUnnamed => "activity step is missing activityName"
  | .conditionWithoutVariable => "condition has no variable and always evaluates to false"
  | .conditionWithoutOperator => "condition has no operator and always evaluates to false"
  | .operatorUnknown name => "unknown operator '" ++ name ++ "' always evaluates to false"
  | .conditionWithoutTarget => "condition has neither onSuccess nor onFailure"
  | .noBranches => "parallel step has no branches"
  | .cycle ids => "cycle detected in step references involving: " ++ ", ".intercalate ids
  | .unreachable => "step is unreachable from the root"
  | .activityUnknown name => "activity '" ++ name ++ "' is not registered"
  | .argument issue => "argument '" ++ issue.parameter ++ "': " ++ issue.objection.message

end Defect

/-- A defect, at a step or of the definition as a whole. -/
structure Finding where
  stepId : Option String
  defect : Defect
  deriving DecidableEq

namespace Finding

/-- Whether a finding is an error. -/
def isError (f : Finding) : Bool := f.defect.severity = .error

/-- The issue that reports a finding. -/
def toIssue (f : Finding) : Issue := ⟨f.defect.severity, f.stepId, f.defect.message⟩

end Finding

end Flowgraph

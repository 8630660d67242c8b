import Flowgraph.Canvas.Basic
import Flowgraph.Definition.Yaml
import Flowgraph.Host.Basic

/-!
# Documents in files

Workflows are kept as YAML or, in files whose name ends in `.json`, as JSON. Canvases are kept
as JSON whatever the name of the file.
-/

set_option autoImplicit false

namespace Flowgraph.Document

/-- Why a document cannot be loaded from a file. -/
inductive LoadFault where
  | workflowUnreadable (path : String)
  /-- The file holds no workflow in JSON. -/
  | workflowJson (path : String)
  /-- The file holds no workflow in YAML. -/
  | workflowYaml (path : String)
  | canvasUnreadable (path : String)
  | canvasJson (path : String)
  deriving DecidableEq

/-- The wording of a fault. -/
def LoadFault.message : LoadFault → String
  | .workflowUnreadable path => "Failed to read workflow file: " ++ path
  | .workflowJson path => "Failed to parse workflow JSON: " ++ path
  | .workflowYaml path => "Failed to parse workflow file: " ++ path
  | .canvasUnreadable path => "Failed to read canvas file: " ++ path
  | .canvasJson path => "Failed to parse canvas JSON: " ++ path

/-- What is wrong with a text that should be a workflow in YAML. -/
def notAWorkflow : String := "workflow document is not a valid workflow definition"

/-- Whether the name of a file says that it holds JSON. -/
def isJson (path : String) : Bool :=
  (Path.extension? path).any fun e => e.toList.map Char.toLower = "json".toList

/-- The workflow in the text of a file. -/
def workflowOf (path text : String) : Except LoadFault Definition :=
  if isJson path then (Definition.ofJson text).mapError fun _ => .workflowJson path
  else match Definition.ofYaml? text with
    | some d => .ok d
    | none => .error (.workflowYaml path)

/-- The canvas in the text of a file. -/
def canvasOf (path text : String) : Except LoadFault Canvas :=
  (Canvas.ofJson text).mapError fun _ => .canvasJson path

variable {m : Type → Type} [Monad m]

/-- Loads a workflow. -/
def loadWorkflow (host : Host m) (path : String) : m (Except LoadFault Definition) := do
  match ← host.read path with
  | .ok text => return workflowOf path text
  | .error _ => return .error (.workflowUnreadable path)

/-- Loads a canvas. -/
def loadCanvas (host : Host m) (path : String) : m (Except LoadFault Canvas) := do
  match ← host.read path with
  | .ok text => return canvasOf path text
  | .error _ => return .error (.canvasUnreadable path)

end Flowgraph.Document

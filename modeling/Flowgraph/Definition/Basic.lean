import Flowgraph.Json.Value

/-!
# Workflow definitions

A workflow is a list of steps that refer to each other by their ids. The root is the step
where a run starts; the references of a step are links to the steps it has done on its
behalf and to the step that comes after it. Nothing here requires that a reference resolves
or that ids are distinct: `Definition.find?` takes the first step with an id.
-/

set_option autoImplicit false

namespace Flowgraph

/-- What a canvas calls the node for the start of a workflow if it can. -/
def startName : String := "start"

/-- What a canvas calls the node for the end of a workflow if it can. -/
def endName : String := "end"

/-- Arguments as authored: each name once, in the order of their first mention. -/
abbrev Arguments := List (String × Json.Value)

/-- A call of an activity. -/
structure Call where
  activity : String := ""
  arguments : Arguments := []
  /-- The variable that receives the data of a successful result. -/
  resultVariable : Option String := none
  deriving DecidableEq

/-- A choice between two steps by a test on the variables of the run. -/
structure Choice where
  /-- The operands of the test: `variable`, `operator` and `value`. -/
  arguments : Arguments := []
  onSuccess : Option String := none
  onFailure : Option String := none
  deriving DecidableEq

/-- What a step does. -/
inductive Work where
  | activity (call : Call)
  /-- Does the steps one after another. -/
  | sequence (steps : List String)
  /-- Does the steps at the same time and waits for all of them. -/
  | parallel (branches : List String)
  | condition (choice : Choice)
  deriving DecidableEq

/-- The name of the kind of work. -/
def Work.kind : Work → String
  | .activity _ => "activity"
  | .sequence _ => "sequence"
  | .parallel _ => "parallel"
  | .condition _ => "condition"

/-- The ways in which a step refers to another one. -/
inductive Link where
  | steps
  | branches
  | onSuccess
  | onFailure
  | next
  deriving DecidableEq

/-- The name of a link. -/
def Link.name : Link → String
  | .steps => "steps"
  | .branches => "branches"
  | .onSuccess => "onSuccess"
  | .onFailure => "onFailure"
  | .next => "next"

/-- A reference of a step to the step with the id `target`. -/
structure Reference where
  link : Link
  target : String
  deriving DecidableEq

/-- The references that belong to the work of a step. -/
def Work.references : Work → List Reference
  | .activity _ => []
  | .sequence steps => steps.map (⟨.steps, ·⟩)
  | .parallel branches => branches.map (⟨.branches, ·⟩)
  | .condition choice =>
    (choice.onSuccess.map (⟨.onSuccess, ·⟩)).toList ++
      (choice.onFailure.map (⟨.onFailure, ·⟩)).toList

/-- A step of a workflow. -/
structure Step where
  id : String
  name : Option String := none
  work : Work
  /-- The step done after this one. -/
  next : Option String := none
  deriving DecidableEq

/-- Every reference of a step, those of its work first. -/
def Step.references (s : Step) : List Reference :=
  s.work.references ++ (s.next.map (⟨.next, ·⟩)).toList

/-- A workflow. -/
structure Definition where
  name : String
  description : Option String := none
  version : String := "1.0"
  /-- The id of the step where a run starts. -/
  root : String := ""
  steps : List Step := []
  deriving DecidableEq

namespace Definition

/-- The first step with an id. -/
def find? (d : Definition) (id : String) : Option Step :=
  d.steps.find? (·.id = id)

/-- The step where a run starts. -/
def rootStep? (d : Definition) : Option Step := d.find? d.root

end Definition

end Flowgraph

import Flowgraph.Canvas.Basic

/-!
# Reading definitions off canvases

Every node but those for the start and the end is a step, and its edges to other steps are
the references of the step. The edge with the handle `next` names the next step; what the
others stand for depends on the kind of the node. The root is where the first edge of the
start leads, or else the first step.
-/

set_option autoImplicit false

namespace Flowgraph.Canvas

/-- Whether an edge leaves at a handle. -/
def Edge.leavesAt (e : Edge) (handle : String) : Bool := e.handle = some handle

/-- The targets of a condition: when it holds and when it does not. -/
structure Targets where
  onSuccess : Option String := none
  onFailure : Option String := none
  deriving DecidableEq

/-- Takes the target of an edge by its handle. -/
def Targets.byHandle (t : Targets) (e : Edge) : Targets :=
  if e.leavesAt successHandle then { t with onSuccess := some e.target }
  else if e.leavesAt failureHandle then { t with onFailure := some e.target }
  else t

/-- Takes the target of an edge by its label, or by its position among the edges. -/
def Targets.byLabel (t : Targets) (e : Edge) (index : Nat) : Targets :=
  if e.label = some successLabel ∨ index = 0 then { t with onSuccess := some e.target }
  else if e.label = some failureLabel ∨ index = 1 then { t with onFailure := some e.target }
  else t

/-- The targets that the edges of a condition stand for. Labels and positions count only if
no edge has a handle of a condition. -/
def targetsOf (edges : List Edge) : Targets :=
  let handled := edges.foldl Targets.byHandle {}
  if handled.onSuccess.isNone && handled.onFailure.isNone then
    edges.zipIdx.foldl (fun t (e, i) => t.byLabel e i) handled
  else handled

/-- The step of a node with its edges to other steps. -/
def stepOf (node : Node) (outgoing : List Edge) : Step :=
  let arguments := node.data.arguments.getD []
  let others := outgoing.filter (!·.leavesAt nextHandle)
  let next := (outgoing.find? (·.leavesAt nextHandle)).map (·.target)
  let step (work : Work) (next : Option String) : Step :=
    ⟨node.id, some node.data.label, work, next⟩
  match node.data.kind with
  | .condition =>
    let targets := targetsOf others
    step (.condition ⟨arguments, targets.onSuccess, targets.onFailure⟩) next
  | .parallel => step (.parallel (others.map (·.target))) next
  | .sequence =>
    step (.sequence ((others.filter (·.leavesAt stepHandle)).map (·.target))) next
  | .activity | .start | .finish =>
    step (.activity ⟨node.data.activityName.getD "", arguments, node.data.resultVariable⟩)
      (outgoing.head?.map (·.target))

/-- The nodes that stand for steps. -/
def stepNodes (c : Canvas) : List Node := c.nodes.filter (!·.data.kind.isTerminal)

/-- The steps of a canvas. -/
def steps (c : Canvas) : List Step :=
  let ids := c.stepNodes.map (·.id)
  c.stepNodes.map fun node =>
    stepOf node (c.edges.filter fun e => e.source = node.id ∧ e.target ∈ ids)

/-- Where the first edge of the start leads. -/
def startTarget? (c : Canvas) : Option String :=
  (c.nodes.find? (·.data.kind = .start)).bind fun start =>
    (c.edges.find? (·.source = start.id)).map (·.target)

/-- The definition that a canvas stands for. -/
def toDefinition (c : Canvas) : Definition where
  name := c.name
  description := c.description
  version := "1.0"
  root := (c.startTarget? <|> c.steps.head?.map (·.id)).getD ""
  steps := c.steps

end Flowgraph.Canvas

import Flowgraph.Activity.Schema
import Flowgraph.Definition.Wire

/-!
# Canvases

A canvas is a workflow as an editor draws it: a node for each step, two more for its start
and its end, and an edge for each reference. The handle at which an edge leaves its node
tells which reference of the step the edge stands for.
-/

set_option autoImplicit false

namespace Flowgraph

namespace Canvas

/-- What a node stands for: an end of the workflow or a kind of work. -/
inductive NodeKind where
  | start
  | activity
  | condition
  | parallel
  | sequence
  | finish
  deriving DecidableEq

namespace NodeKind

/-- The kinds of nodes by name. -/
def names : List (String × NodeKind) :=
  [("start", .start), ("activity", .activity), ("condition", .condition),
    ("parallel", .parallel), ("sequence", .sequence), ("end", .finish)]

/-- The name of a kind. -/
def name : NodeKind → String
  | .start => "start"
  | .activity => "activity"
  | .condition => "condition"
  | .parallel => "parallel"
  | .sequence => "sequence"
  | .finish => "end"

/-- The way nodes of a kind are drawn. -/
def shape (k : NodeKind) : String := k.name ++ "Node"

/-- Whether nodes of a kind stand for no step. -/
def isTerminal : NodeKind → Bool
  | .start | .finish => true
  | _ => false

end NodeKind

/-- A place on the canvas. -/
structure Position where
  x : Binary64
  y : Binary64
  deriving DecidableEq

/-- What a node holds of its step. -/
structure NodeData where
  label : String
  activityName : Option String := none
  arguments : Option Arguments := none
  resultVariable : Option String := none
  kind : NodeKind
  deriving DecidableEq

/-- A node. -/
structure Node where
  id : String
  shape : String
  position : Position
  data : NodeData
  deriving DecidableEq

/-- An edge between the nodes with two ids. -/
structure Edge where
  id : String
  source : String
  target : String
  /-- Where the edge leaves its source. -/
  handle : Option String := none
  label : Option String := none
  deriving DecidableEq

end Canvas

/-- A canvas with the name and the description of its workflow. -/
structure Canvas where
  name : String := ""
  description : Option String := none
  nodes : List Canvas.Node := []
  edges : List Canvas.Edge := []
  deriving DecidableEq

namespace Canvas

open Decode

/-! ### Written form -/

/-- The written form of a position. -/
def Position.encode (p : Position) : Tree :=
  .object [("x", Activity.float p.x), ("y", Activity.float p.y)]

/-- Reads a position. -/
def Position.decode : Decoder Position :=
  record "struct CanvasPosition" ["x", "y"] fun f =>
    Position.mk <$> f.required "x" float <*> f.required "y" float

/-- The written form of what a node holds. -/
def NodeData.encode (d : NodeData) : Tree :=
  .object (("label", .string d.label) :: Tree.text? "activityName" d.activityName ++
    Tree.member? "arguments" (fun a => .object (Tree.ofMembers a)) d.arguments ++
    Tree.text? "resultVariable" d.resultVariable ++ [("stepType", .string d.kind.name)])

/-- Reads what a node holds. -/
def NodeData.decode : Decoder NodeData :=
  record "struct CanvasNodeData"
    ["label", "activityName", "arguments", "resultVariable", "stepType"] fun f =>
    NodeData.mk <$> f.required "label" text <*> f.optional "activityName" text
      <*> f.optional "arguments" authored <*> f.optional "resultVariable" text
      <*> f.required "stepType" (choice NodeKind.names)

/-- The written form of a node. -/
def Node.encode (n : Node) : Tree :=
  .object [("id", .string n.id), ("type", .string n.shape), ("position", n.position.encode),
    ("data", n.data.encode)]

/-- Reads a node. -/
def Node.decode : Decoder Node :=
  record "struct CanvasNode" ["id", "type", "position", "data"] fun f =>
    Node.mk <$> f.required "id" text <*> f.required "type" text
      <*> f.required "position" Position.decode <*> f.required "data" NodeData.decode

/-- The written form of an edge. -/
def Edge.encode (e : Edge) : Tree :=
  .object ([("id", .string e.id), ("source", .string e.source), ("target", .string e.target)] ++
    Tree.text? "sourceHandle" e.handle ++ Tree.text? "label" e.label)

/-- Reads an edge. -/
def Edge.decode : Decoder Edge :=
  record "struct CanvasEdge" ["id", "source", "target", "sourceHandle", "label"] fun f =>
    Edge.mk <$> f.required "id" text <*> f.required "source" text <*> f.required "target" text
      <*> f.optional "sourceHandle" text <*> f.optional "label" text

/-- The written form of a canvas. -/
def encode (c : Canvas) : Tree :=
  .object (("name", .string c.name) :: Tree.text? "description" c.description ++
    [("nodes", .array (c.nodes.map Node.encode)), ("edges", .array (c.edges.map Edge.encode))])

/-- Reads a canvas. -/
def decode : Decoder Canvas :=
  record "struct CanvasDocument" ["name", "description", "nodes", "edges"] fun f =>
    Canvas.mk <$> f.withDefault "name" text "" <*> f.optional "description" text
      <*> f.withDefault "nodes" (list Node.decode) []
      <*> f.withDefault "edges" (list Edge.decode) []

/-- Reads the text of a canvas. -/
def ofJson (text : String) : Except Fault Canvas := Decode.ofJson decode text

/-! ### Handles and labels

The texts that tell the edges of a node apart. Both directions between definitions and canvases go
by them. -/

/-- The handle of the edge to the next step. -/
def nextHandle : String := "next"

/-- The handle of the edges to the steps of a sequence. -/
def stepHandle : String := "step"

/-- The handle of the edge for a condition that holds. -/
def successHandle : String := "success"

/-- The handle of the edge for a condition that does not hold. -/
def failureHandle : String := "failure"

/-- The label of the edge for a condition that holds. -/
def successLabel : String := "✓ Success"

/-- The label of the edge for a condition that does not hold. -/
def failureLabel : String := "✗ Failure"

end Canvas

end Flowgraph

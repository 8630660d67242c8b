import Flowgraph.Definition.Wire

/-!
# Messages of the run service

What a client of the service sends and gets back: a request to start a run, the answer that
names the run, and the final variables of a run.
-/

set_option autoImplicit false

namespace Flowgraph.Service

open Decode

/-- Asks for a run of a definition. -/
structure Request where
  definition : Definition
  input : Option (List (String × Json.Value)) := none
  deriving DecidableEq

/-- Names the run that was started. -/
structure Response where
  workflowId : String
  runId : String
  status : String
  deriving DecidableEq

/-- The variables at the end of a run. -/
structure Final where
  result : List (String × Json.Value)
  deriving DecidableEq

/-- The tree of some variables. -/
def storeTree (store : List (String × Json.Value)) : Tree := .object (Tree.ofMembers store)

/-- The written form of a request. -/
def Request.encode (r : Request) : Tree :=
  .object [("workflowDefinition", r.definition.encode),
    ("input", (r.input.map storeTree).getD .null)]

/-- Reads a request. -/
def Request.decode : Decoder Request :=
  record "struct ExecuteWorkflowRequest" ["workflowDefinition", "input"] fun f =>
    Request.mk <$> f.required "workflowDefinition" Definition.decode
      <*> f.optional "input" ascending

/-- The written form of a response. -/
def Response.encode (r : Response) : Tree :=
  .object [("workflowId", .string r.workflowId), ("runId", .string r.runId),
    ("status", .string r.status)]

/-- Reads a response. -/
def Response.decode : Decoder Response :=
  record "struct ExecuteWorkflowResponse" ["workflowId", "runId", "status"] fun f =>
    Response.mk <$> f.required "workflowId" text <*> f.required "runId" text
      <*> f.required "status" text

/-- The written form of final variables. -/
def Final.encode (f : Final) : Tree := .object [("result", storeTree f.result)]

/-- Reads final variables. -/
def Final.decode : Decoder Final :=
  record "struct WorkflowResultResponse" ["result"] fun f =>
    Final.mk <$> f.required "result" ascending

end Flowgraph.Service

import Flowgraph.Decode.Variant

/-!
# Issues

What a check finds in a definition. An error makes a run fail or misbehave; a warning is
about a definition that runs, but probably not as intended.
-/

set_option autoImplicit false

namespace Flowgraph

open Decode

/-- How serious an issue is. -/
inductive Severity where
  | error
  | warning
  deriving DecidableEq

/-- The name of a severity. -/
def Severity.name : Severity → String
  | .error => "error"
  | .warning => "warning"

/-- The severities by name. -/
def Severity.names : List (String × Severity) := [("error", .error), ("warning", .warning)]

/-- An issue, at a step or about the definition as a whole. -/
structure Issue where
  severity : Severity
  stepId : Option String
  message : String
  deriving DecidableEq

namespace Issue

/-- Whether an issue is an error. -/
def isError (i : Issue) : Bool := i.severity = .error

/-- The issue on one line. -/
def text (i : Issue) : String :=
  i.severity.name ++ ": " ++ (match i.stepId with
    | some id => "step '" ++ id ++ "': "
    | none => "") ++ i.message

/-- The written form of an issue. -/
def encode (i : Issue) : Tree :=
  .object (("severity", .string i.severity.name) :: Tree.text? "step_id" i.stepId ++
    [("message", .string i.message)])

/-- Reads an issue. -/
def decode : Decoder Issue :=
  record "struct ValidationIssue" ["severity", "step_id", "message"] fun f =>
    Issue.mk <$> f.required "severity" (choice Severity.names) <*> f.optional "step_id" Decode.text
      <*> f.required "message" Decode.text

end Issue

end Flowgraph

import Flowgraph.Definition.Basic
import Flowgraph.Decode.Variant
import Flowgraph.Json.Printer

/-!
# Workflow definitions as documents

The written form of definitions, steps and their work. A step is one object that holds its
own fields and those of its work; the tag `type` tells which work. Optional fields that are
absent and empty arguments are left out.
-/

set_option autoImplicit false

namespace Flowgraph

open Decode

/-- The member for arguments, left out if there are none. -/
def Arguments.member? (arguments : Arguments) : List (String × Tree) :=
  if arguments.isEmpty then [] else [("arguments", .object (Tree.ofMembers arguments))]

/-- A list of texts. -/
def Tree.texts (items : List String) : Tree := .array (items.map .string)

namespace Call

/-- The written fields of a call. -/
def encode (c : Call) : List (String × Tree) :=
  ("activityName", .string c.activity) :: c.arguments.member? ++
    Tree.text? "resultVariable" c.resultVariable

/-- Reads the fields of a call. -/
def decode : Decoder Call :=
  record "struct ActivityStep" ["activityName", "arguments", "resultVariable"] fun f =>
    Call.mk <$> f.withDefault "activityName" text "" <*> f.withDefault "arguments" authored []
      <*> f.optional "resultVariable" text

end Call

namespace Choice

/-- The written fields of a choice. -/
def encode (c : Choice) : List (String × Tree) :=
  c.arguments.member? ++ Tree.text? "onSuccess" c.onSuccess ++
    Tree.text? "onFailure" c.onFailure

/-- Reads the fields of a choice. -/
def decode : Decoder Choice :=
  record "struct ConditionStep" ["arguments", "onSuccess", "onFailure"] fun f =>
    Choice.mk <$> f.withDefault "arguments" authored [] <*> f.optional "onSuccess" text
      <*> f.optional "onFailure" text

end Choice

namespace Work

/-- The written fields of some work, its tag first. -/
def encode (w : Work) : List (String × Tree) :=
  ("type", .string w.kind) :: match w with
    | .activity call => call.encode
    | .sequence steps => [("steps", .texts steps)]
    | .parallel branches => [("branches", .texts branches)]
    | .condition choice => choice.encode

/-- The kinds of work. -/
def tagged : Tagged Work where
  tag := "type"
  title := "internally tagged enum StepKind"
  alternatives :=
    [ ("activity", fun mode tree => (Call.decode mode tree).map .activity),
      ("sequence", record "struct SequenceStep" ["steps"] fun f =>
        Work.sequence <$> f.withDefault "steps" (list text) []),
      ("parallel", record "struct ParallelStep" ["branches"] fun f =>
        Work.parallel <$> f.withDefault "branches" (list text) []),
      ("condition", fun mode tree => (Choice.decode mode tree).map .condition) ]

/-- Reads some work that stands on its own. -/
def decode : Decoder Work := tagged.decode

end Work

namespace Step

/-- The written form of a step. -/
def encode (s : Step) : Tree :=
  .object (("id", .string s.id) :: Tree.text? "name" s.name ++ s.work.encode ++
    Tree.text? "next" s.next)

/-- Reads a step: its own fields first, then its work. -/
def decode : Decoder Step :=
  flattened "struct Step" ["id", "name", "next"]
    (fun f => (fun id name next => (id, name, next)) <$> f.required "id" text
      <*> f.optional "name" text <*> f.optional "next" text)
    (Work.tagged.members .kept)
    (fun (id, name, next) work => ⟨id, name, work, next⟩)

end Step

namespace Definition

/-- The written form of a definition. -/
def encode (d : Definition) : Tree :=
  .object (("name", .string d.name) :: Tree.text? "description" d.description ++
    [("version", .string d.version), ("root", .string d.root),
      ("steps", .array (d.steps.map Step.encode))])

/-- Reads a definition. -/
def decode : Decoder Definition :=
  record "struct WorkflowDefinition" ["name", "description", "version", "root", "steps"] fun f =>
    Definition.mk <$> f.required "name" text <*> f.optional "description" text
      <*> f.withDefault "version" text "1.0" <*> f.withDefault "root" text ""
      <*> f.withDefault "steps" (list Step.decode) []

/-- The text of a definition on one line. -/
def toJson (d : Definition) : String := Json.compact d.encode

/-- Reads the text of a definition. -/
def ofJson (text : String) : Except Fault Definition := Decode.ofJson decode text

end Definition

end Flowgraph

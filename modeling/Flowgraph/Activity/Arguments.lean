import Flowgraph.Activity.Schema
import Flowgraph.Decimal.Reading
import Flowgraph.Text.Basic
import Flowgraph.Variable

/-!
# Checking arguments against a schema

A parameter that is required has to have an argument that is not blank, unless it has a
default. An argument that is there has to be a reference to a variable, whose value is known
only during a run, or a value of the kind of its parameter.
-/

set_option autoImplicit false

namespace Flowgraph.Activity

/-- What is wrong with an argument. -/
inductive Objection where
  | missing (label : String)
  | notText
  | notNumber
  | below (min : Binary64)
  | above (max : Binary64)
  | notTruth
  | notOption (allowed : List String)
  | notObject
  deriving DecidableEq

/-- The wording of an objection. -/
def Objection.message : Objection → String
  | .missing label => label ++ " is required"
  | .notText => "expected text"
  | .notNumber => "expected a number"
  | .below min => "must be at least " ++ String.ofList (Decimal.plain.write min)
  | .above max => "must be at most " ++ String.ofList (Decimal.plain.write max)
  | .notTruth => "expected true or false"
  | .notOption allowed => "must be one of: " ++ ", ".intercalate allowed
  | .notObject => "expected a JSON object"

/-- An objection to the argument for a parameter. -/
structure ArgumentIssue where
  parameter : String
  objection : Objection
  deriving DecidableEq

/-- Whether a value counts as not given. -/
def isBlank : Json.Value → Bool
  | .null => true
  | .string s => Text.blank s
  | _ => false

/-- The number that a value is, or that is typed as its text. -/
def number? : Json.Value → Option Decimal.Reading
  | .number n => some (.finite n.toBinary64)
  | .string s => Decimal.read? (Text.trim s).toList
  | _ => none

/-- The objections to a value of a kind. -/
def Kind.objections (kind : Kind) (value : Json.Value) : List Objection :=
  match kind with
  | .string _ _ => if value.string?.isSome then [] else [.notText]
  | .number min max _ =>
    match number? value with
    | none => [.notNumber]
    | some n =>
      (min.filter n.below).toList.map .below ++ (max.filter n.above).toList.map .above
  | .boolean =>
    match value with
    | .bool _ => []
    | _ => [.notTruth]
  | .enumeration options =>
    if value.string?.any (options.map Entry.value).contains then []
    else [.notOption (options.map Entry.value)]
  | .object =>
    match value with
    | .object _ | .array _ => []
    | _ => [.notObject]

/-- The objections to the argument for a parameter. -/
def Parameter.objections (p : Parameter) (argument : Option Json.Value) : List Objection :=
  match argument.filter (!isBlank ·) with
  | none => if p.required && p.default.isNone then [.missing p.label] else []
  | some value => if (Variable.reference? value).isSome then [] else p.kind.objections value

/-- Checks arguments against a schema, in the order of its parameters. -/
def Schema.check (s : Schema) (arguments : Arguments) : List ArgumentIssue :=
  s.parameters.flatMap fun p =>
    (p.objections (Assoc.get? p.name arguments)).map (⟨p.name, ·⟩)

end Flowgraph.Activity

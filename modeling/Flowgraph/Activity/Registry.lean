import Flowgraph.Activity.Schema
import Flowgraph.Run.Invoker
import Flowgraph.Text.Quoted

/-!
# Registries of activities

A registry knows activities by name: what each does and, if it has one, its schema. A later
registration under a name takes the place of the earlier one. A registry is an invoker for
which every call ends with a result: names that it does not know, errors and panics of
activities become failed results.
-/

set_option autoImplicit false

namespace Flowgraph.Activity

open Run

/-- How an activity comes to its end. -/
inductive Conclusion where
  | result (r : Result)
  | error (message : String)
  | panic (payload : Payload)
  deriving DecidableEq

/-- What an activity does on a call: its conclusion after a delay in milliseconds. -/
structure Attempt where
  delay : Nat := 0
  conclusion : Conclusion
  deriving DecidableEq

/-- What an activity does, given the calls made before. -/
abbrev Handler := List Invocation → Store → Attempt

/-- A registered activity. -/
structure Registry.Entry where
  handler : Handler
  schema : Option Schema := none

/-- Activities by name, in the order of their first registration. -/
abbrev Registry := List (String × Registry.Entry)

/-- The result that reports a conclusion. -/
def Conclusion.toResult : Conclusion → Result
  | .result r => r
  | .error message => .failure message
  | .panic (.text message) => .failure message
  | .panic .opaqueValue => .failure "Unknown error"

namespace Registry

/-- Registers an activity under a name. -/
def register (r : Registry) (name : String) (handler : Handler) (schema : Option Schema) :
    Registry :=
  Assoc.set name ⟨handler, schema⟩ r

/-- What the activity with a name does. -/
def handler? (r : Registry) (name : String) : Option Handler :=
  (Assoc.get? name r).map (·.handler)

/-- The schema of the activity with a name. -/
def schema? (r : Registry) (name : String) : Option Schema :=
  (Assoc.get? name r).bind (·.schema)

/-- Whether an activity is registered under a name. -/
def has (r : Registry) (name : String) : Bool := Assoc.contains name r

/-- The names of the activities. -/
def names (r : Registry) : List String := r.map (·.1)

/-- The schemas of the activities that have one. -/
def schemas (r : Registry) : List Schema := r.filterMap (·.2.schema)

/-- The result for a name that is not registered. -/
def notFound (name : String) : Result :=
  .failure ("Activity '" ++ name ++ "' not found in registry")

/-- Runs the activities of a registry. -/
def invoker (r : Registry) : Invoker := fun earlier call =>
  match r.handler? call.name with
  | none => ⟨0, .result (notFound call.name)⟩
  | some handler =>
    let attempt := handler earlier call.arguments
    ⟨attempt.delay, .result attempt.conclusion.toResult⟩

/-- The registry as it is shown to people who look for mistakes. -/
def debug (r : Registry) : String :=
  "ActivityRegistry \x7b activities: [" ++ ", ".intercalate (r.names.map Text.quoted) ++ "] \x7d"

end Registry

end Flowgraph.Activity

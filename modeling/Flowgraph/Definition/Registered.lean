import Flowgraph.Activity.Registry
import Flowgraph.Definition.Check

/-!
# Checking definitions against a registry

Beyond what is wrong with a definition by itself: activities that are not registered, and
arguments that do not fit the schemas of those that are.
-/

set_option autoImplicit false

namespace Flowgraph

/-- What a registry finds wrong with a call. -/
def Call.defects (c : Call) (registry : Activity.Registry) : List Defect :=
  let name := Text.trim c.activity
  if name = "" then []
  else if !registry.has name then [.activityUnknown name]
  else match registry.schema? name with
    | some schema => (schema.check c.arguments).map .argument
    | none => []

/-- What a registry finds wrong with some work. -/
def Work.registryDefects (w : Work) (registry : Activity.Registry) : List Defect :=
  match w with
  | .activity call => call.defects registry
  | _ => []

/-- Everything that is wrong with a definition and its use of activities. -/
def Definition.checkWith (d : Definition) (registry : Activity.Registry) : List Finding :=
  d.check ++ d.steps.flatMap fun s =>
    (s.work.registryDefects registry).map (⟨some s.id, ·⟩)

end Flowgraph

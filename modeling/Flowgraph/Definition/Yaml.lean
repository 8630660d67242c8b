import Flowgraph.Definition.Wire
import Flowgraph.Yaml.Printer
import Flowgraph.Yaml.Shape

/-!
# Workflow definitions as YAML

What a definition says about itself, and the id, name and successor of a step, are texts as
they are written; the work of a step is read by meaning.
-/

set_option autoImplicit false

namespace Flowgraph

open Yaml (Shape)

/-- What is expected of a step in YAML. -/
def Step.shape : Shape :=
  .record [("id", .text), ("name", .optional), ("next", .optional)] .kept

namespace Definition

/-- What is expected of a definition in YAML. -/
def shape : Shape :=
  .record [("name", .text), ("description", .optional), ("version", .text), ("root", .text),
    ("steps", .list Step.shape)] .ignored

/-- Reads a definition from YAML. -/
def ofYaml? (text : String) : Option Definition := do
  let tree ← shape.read? text
  (decode .direct tree).toOption

/-- The YAML text of a definition. -/
def toYaml (d : Definition) : String := Yaml.write d.encode

end Definition

end Flowgraph

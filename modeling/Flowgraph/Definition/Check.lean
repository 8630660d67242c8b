import Flowgraph.Condition
import Flowgraph.Definition.Finding
import Flowgraph.Graph

/-!
# Checking definitions

A run is lenient: references that do not resolve are passed over. `Definition.check` takes
the strict view, so that authors learn about them before a run: names and ids have to be
there, ids to be distinct, references to resolve, and no step may lead back to itself.
-/

set_option autoImplicit false

namespace Flowgraph

/-- The ids that the start and the end of a canvas would like to have. -/
def reservedIds : List String := [startName, endName]

namespace Work

/-- The defects of some work, its references apart. -/
def defects : Work → List Defect
  | .activity call => if Text.blank call.activity then [.activityUnnamed] else []
  | .sequence _ => []
  | .parallel branches => if branches.isEmpty then [.noBranches] else []
  | .condition choice =>
    (if (Condition.operand? choice.arguments "variable").isNone then
        [.conditionWithoutVariable] else []) ++
      (match (Assoc.get? "operator" choice.arguments).bind Json.Value.string? with
        | none => [.conditionWithoutOperator]
        | some name =>
          if (Condition.Operator.ofName? name).isNone then [.operatorUnknown name] else []) ++
      (if choice.onSuccess.isNone && choice.onFailure.isNone then
        [.conditionWithoutTarget] else [])

end Work

/-- The defect of a reference, where the ids in `known` resolve. -/
def Step.referenceDefects (s : Step) (known : List String) (r : Reference) : List Defect :=
  if r.target ∉ known then [.targetUnknown r.link r.target]
  else if r.target = s.id then [.targetItself r.link]
  else []

/-- The defects of a step, where the ids in `known` resolve. -/
def Step.defects (s : Step) (known : List String) : List Defect :=
  s.references.flatMap (s.referenceDefects known) ++ s.work.defects

namespace Definition

/-- The ids that a reference may name: those that are not blank. -/
def knownIds (d : Definition) : List String :=
  (d.steps.map (·.id)).filter (!Text.blank ·)

/-- The steps and the references between them, for each id those of all steps with it. -/
def graph (d : Definition) : Graph :=
  let known := d.knownIds
  d.steps.foldl (fun g s =>
    g.connect s.id ((s.references.map (·.target)).filter (· ∈ known))) []

/-- The findings about ids, where those in `seen` are taken. -/
def idFindings (seen : List String) : List Step → List Finding
  | [] => []
  | s :: rest =>
    if Text.blank s.id then ⟨none, .emptyId⟩ :: idFindings seen rest
    else
      (if s.id ∈ seen then [⟨some s.id, .duplicateId⟩] else []) ++
      (if s.id ∈ reservedIds then [⟨some s.id, .reservedId⟩] else []) ++
      idFindings (s.id :: seen) rest

/-- The findings about the root. -/
def rootFindings (d : Definition) : List Finding :=
  if Text.blank d.root then [⟨none, .rootUnset⟩]
  else if d.root ∉ d.knownIds then [⟨none, .rootUnknown d.root⟩]
  else []

/-- The finding about cycles. -/
def cycleFindings (d : Definition) : List Finding :=
  if d.graph.stuck.isEmpty then [] else [⟨none, .cycle d.graph.stuck⟩]

/-- The findings about steps to which nothing leads from the root. -/
def reachFindings (d : Definition) : List Finding :=
  if d.root ∈ d.knownIds then
    let reached := d.graph.reachable d.root
    (d.steps.filter fun s => s.id ≠ "" ∧ s.id ∉ reached).map fun s => ⟨some s.id, .unreachable⟩
  else []

/-- Everything that is wrong with a definition. -/
def check (d : Definition) : List Finding :=
  (if Text.blank d.name then [⟨none, .unnamed⟩] else []) ++
  idFindings [] d.steps ++
  d.rootFindings ++
  d.steps.flatMap (fun s => (s.defects d.knownIds).map (⟨some s.id, ·⟩)) ++
  d.cycleFindings ++
  d.reachFindings

end Definition

end Flowgraph

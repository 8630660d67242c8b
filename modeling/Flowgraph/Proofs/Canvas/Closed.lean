import Flowgraph.Proofs.Canvas.Stability
import Flowgraph.Proofs.Definition.Findings
import Flowgraph.Proofs.Definition.Verdict

/-!
# Which canvases stand for closed definitions

Edges may lead anywhere: to the end, to a start, to nodes that are gone. A step only takes those that
lead to steps, so no reference of a definition that is read off a canvas is unknown. The root is
not taken so carefully: it is where the first edge of the start leads, whatever is there. So **the
definition of a canvas is closed exactly if that edge leads to a step, or there is none**
(`toDefinition_closed`), and a start that leads straight to the end leaves the root unknown even
where there are steps (`root_adrift`).
-/

set_option autoImplicit false

namespace Flowgraph

namespace Definition

variable {d : Definition}

/-- If no id is blank, all of them can be named. -/
theorem knownIds_eq_ids (h : ∀ id ∈ d.ids, Text.Visible id) : d.knownIds = d.ids :=
  List.filter_eq_self.2 fun id hid => by simpa using Text.visible_iff.1 (h id hid)

/-- A reference is found to be unknown only if it does not resolve. -/
theorem ne_targetUnknown (h : ∀ s ∈ d.steps, ∀ r ∈ s.references, r.target ∈ d.knownIds)
    {f : Finding} (hf : f ∈ d.check) (link : Link) (target : String) :
    f.defect ≠ .targetUnknown link target := by
  intro hdefect
  have hpart : f ∈ d.findingsOn .references := mem_findingsOn.2 ⟨hf, by rw [hdefect]; rfl⟩
  obtain ⟨s, hs, hpart⟩ := List.mem_flatMap.1 hpart
  obtain ⟨defect, hmem, rfl⟩ := List.mem_map.1 hpart
  obtain ⟨r, hr, hmem⟩ := List.mem_flatMap.1 hmem
  rw [Step.referenceDefects, if_neg (not_not_intro (h s hs r hr))] at hmem
  subst hdefect
  split at hmem
  · exact Defect.noConfusion (List.mem_singleton.1 hmem)
  · cases hmem

end Definition

namespace Canvas

variable {c : Canvas}

/-- Whether the first edge of the start leads to a step, if there is such an edge. -/
def Anchored (c : Canvas) : Prop :=
  ∀ target, c.startTarget? = some target → target ∈ c.stepNodes.map (·.id)

/-- The root is where the first edge of the start leads. -/
theorem root_of_startTarget {target : String} (h : c.startTarget? = some target) :
    c.toDefinition.root = target := by
  show (c.startTarget? <|> c.steps.head?.map (·.id)).getD "" = target
  rw [h]
  rfl

/-- If it leads nowhere, the root is the first step. -/
theorem root_mem_ids_of_none (h : c.startTarget? = none) (hsteps : c.stepNodes ≠ []) :
    c.toDefinition.root ∈ c.toDefinition.ids := by
  obtain ⟨node, rest, hnodes⟩ := List.exists_cons_of_ne_nil hsteps
  have hhead : c.steps.head?.map (·.id) = some node.id := by
    unfold steps
    rw [hnodes]
    exact congrArg some (id_stepOf node _)
  have hroot : c.toDefinition.root = node.id := by
    show (c.startTarget? <|> c.steps.head?.map (·.id)).getD "" = node.id
    rw [h, hhead]
    rfl
  rw [hroot, ids_toDefinition, hnodes]
  exact List.mem_cons_self

theorem root_mem_ids_iff (hsteps : c.stepNodes ≠ []) :
    c.toDefinition.root ∈ c.toDefinition.ids ↔ c.Anchored := by
  unfold Anchored
  cases hstart : c.startTarget? with
  | none => exact iff_of_true (root_mem_ids_of_none hstart hsteps) nofun
  | some target =>
    rw [root_of_startTarget hstart, ids_toDefinition]
    simp only [Option.some.injEq, forall_eq']

/-- **Definitions of canvases are closed, but for the root.** If there is a step and no step has a
blank id, then all references of the steps are ids of steps, and a check finds none of them unknown.
The root is the id of a step exactly if the first edge of the start leads to one, or there is
no such edge. Then a check finds nothing wrong with the root, and otherwise just that it is unset or
unknown. -/
theorem toDefinition_closed (c : Canvas) (hsteps : c.stepNodes ≠ [])
    (hids : ∀ node ∈ c.stepNodes, Text.Visible node.id) :
    (∀ s ∈ c.toDefinition.steps, ∀ r ∈ s.references, r.target ∈ c.toDefinition.ids) ∧
      (∀ f ∈ c.toDefinition.check, ∀ link target, f.defect ≠ .targetUnknown link target) ∧
      (c.toDefinition.root ∈ c.toDefinition.ids ↔ c.Anchored) ∧
      (c.Anchored → c.toDefinition.check.filter (·.defect.concern = .root) = []) ∧
      (¬ c.Anchored → c.toDefinition.check.filter (·.defect.concern = .root) =
        [⟨none, if Text.blank c.toDefinition.root then .rootUnset
          else .rootUnknown c.toDefinition.root⟩]) := by
  have hvisible : ∀ id ∈ c.toDefinition.ids, Text.Visible id := by
    intro id hid
    rw [ids_toDefinition] at hid
    obtain ⟨node, hnode, rfl⟩ := List.mem_map.1 hid
    exact hids node hnode
  have hknown : c.toDefinition.knownIds = c.toDefinition.ids :=
    Definition.knownIds_eq_ids hvisible
  have hroot := root_mem_ids_iff hsteps
  refine ⟨fun s hs r hr => target_mem_ids hs hr, ?unknown, hroot, ?anchored, ?adrift⟩
  case unknown =>
    intro f hf link target
    refine Definition.ne_targetUnknown (fun s hs r hr => ?_) hf link target
    exact hknown ▸ target_mem_ids hs hr
  case anchored =>
    intro h
    have hmem := hroot.2 h
    have hblank := Text.visible_iff.1 (hvisible _ hmem)
    rw [Definition.filter_check, Definition.findingsOn, Definition.rootFindings, hknown,
      if_neg (by simp [hblank]), if_neg (not_not_intro hmem)]
  case adrift =>
    intro h
    have hmem := mt hroot.1 h
    rw [Definition.filter_check, Definition.findingsOn, Definition.rootFindings, hknown,
      if_pos hmem]
    split <;> rfl

/-- The nodes for a fork and one of its branches, and those for the start and the end. -/
def tangle : List Node :=
  [ ⟨"start", "startNode", placeAt 0, { label := "start", kind := .start }⟩,
    ⟨"fork", "parallelNode", placeAt 0, { label := "fork", kind := .parallel }⟩,
    ⟨"work", "activityNode", placeAt 0,
      { label := "work", activityName := some "log", kind := .activity }⟩,
    ⟨"end", "endNode", placeAt 0, { label := "end", kind := .finish }⟩ ]

/-- A canvas with edges to the end, to the start and to nowhere. -/
def tangled : Canvas where
  name := "tangled"
  nodes := tangle
  edges :=
    [ edge "fork" "end", edge "fork" "work", edge "fork" "start" (some "next"),
      edge "start" "fork", edge "start" "end", edge "work" "gone", edge "work" "end" ]

/-- Its definition is closed. -/
theorem toDefinition_closed_tangled :
    tangled.stepNodes ≠ [] ∧ (∀ node ∈ tangled.stepNodes, Text.Visible node.id) ∧
      (∀ s ∈ tangled.toDefinition.steps, ∀ r ∈ s.references,
        r.target ∈ tangled.toDefinition.ids) ∧
      tangled.toDefinition.root ∈ tangled.toDefinition.ids ∧
      tangled.toDefinition.check.filter (·.defect.concern = .root) = [] := by
  have hsteps : tangled.stepNodes ≠ [] := by decide
  have hblank : ∀ node ∈ tangled.stepNodes, Text.blank node.id = false := by decide
  have hids : ∀ node ∈ tangled.stepNodes, Text.Visible node.id := fun node hnode =>
    Text.visible_iff.2 (hblank node hnode)
  obtain ⟨hresolved, -, hroot, hfound, -⟩ := toDefinition_closed tangled hsteps hids
  have hmem : tangled.toDefinition.root ∈ tangled.toDefinition.ids := by decide
  exact ⟨hsteps, hids, hresolved, hmem, hfound (hroot.1 hmem)⟩

/-- A canvas whose start leads straight to the end. -/
def adrift : Canvas where
  name := "adrift"
  nodes := tangle
  edges := [edge "start" "end", edge "fork" "work", edge "work" "end"]

/-- There are steps, and still the root is none of them. -/
theorem root_adrift :
    adrift.stepNodes ≠ [] ∧ (∀ node ∈ adrift.stepNodes, Text.Visible node.id) ∧
      adrift.toDefinition.root ∉ adrift.toDefinition.ids ∧
      ⟨none, .rootUnknown "end"⟩ ∈ adrift.toDefinition.check := by
  have hblank : ∀ node ∈ adrift.stepNodes, Text.blank node.id = false := by decide
  have hfound : ⟨none, .rootUnknown "end"⟩ ∈ adrift.toDefinition.findingsOn .root := by decide
  exact ⟨by decide, fun node hnode => Text.visible_iff.2 (hblank node hnode), by decide,
    (Definition.mem_findingsOn.1 hfound).1⟩

end Canvas

end Flowgraph

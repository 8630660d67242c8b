import Flowgraph.Proofs.Definition.Normal
import Flowgraph.Proofs.Graph.Paths

/-!
# When a check finds no error

`Definition.Faultless` says of a definition what its authors have to see to, without any of the
searches that a check makes: texts are there, ids are distinct, references resolve, and no path of
references leads from an id back to itself. A check finds no error in exactly these definitions
(`no_error_iff_faultless`). Defects do not hide each other: ids that are blank, or that come twice,
are errors of their own, and without them the graph that is searched for cycles has an edge for
each reference and no others (`edge_graph_iff`).
-/

set_option autoImplicit false

namespace Flowgraph

open Relation

/-- A text with a character that is no white space. -/
def Text.Visible (s : String) : Prop := ∃ c ∈ s.toList, isBlank c = false

theorem Text.visible_iff {s : String} : Visible s ↔ blank s = false := by
  simp [Visible, blank]

namespace Definition

variable {d : Definition} {u v : String} {s : Step}

/-- Whether a step with the id `u` refers to the id `v`. -/
def Mentions (d : Definition) (u v : String) : Prop :=
  ∃ s ∈ d.steps, s.id = u ∧ ∃ r ∈ s.references, r.target = v

/-- What the authors of a definition have to see to. -/
structure Faultless (d : Definition) : Prop where
  /-- The workflow has a name. -/
  name : Text.Visible d.name
  /-- Every step has an id. -/
  ids : ∀ s ∈ d.steps, Text.Visible s.id
  /-- The ids are distinct. -/
  distinct : d.ids.Nodup
  /-- The root is set. -/
  root : Text.Visible d.root
  /-- The root is the id of a step. -/
  rooted : d.root ∈ d.ids
  /-- Every reference names the id of a step. -/
  resolved : ∀ s ∈ d.steps, ∀ r ∈ s.references, r.target ∈ d.ids
  /-- Every activity has a name. -/
  activities : ∀ s ∈ d.steps, ∀ call, s.work = .activity call → Text.Visible call.activity
  /-- References do not lead back to where they come from. -/
  acyclic : ∀ id, ¬ TransGen d.Mentions id id

/-! ### One part of the check after the other -/

theorem rootFindings_iff : (∀ f ∈ d.rootFindings, f.isError = false) ↔
    Text.blank d.root = false ∧ d.root ∈ d.knownIds := by
  unfold rootFindings
  split
  · simp [*, Finding.isError, Defect.severity]
  · split <;> simp_all [Finding.isError, Defect.severity]

theorem Work.defects_iff {w : Work} : (∀ defect ∈ w.defects, defect.severity ≠ .error) ↔
    ∀ call, w = .activity call → Text.blank call.activity = false := by
  cases w with
  | activity call =>
    simp only [Work.defects, Work.activity.injEq, forall_eq']
    split <;> simp [*, Defect.severity]
  | sequence steps => simp [Work.defects]
  | parallel branches =>
    simp only [Work.defects, reduceCtorEq, false_implies, implies_true, iff_true]
    split <;> simp [Defect.severity]
  | condition choice =>
    -- whatever is wrong with a condition is a warning
    simp only [Work.defects, reduceCtorEq, false_implies, implies_true, iff_true]
    intro defect hdefect
    rcases List.mem_append.1 hdefect with hdefect | hdefect
    · rcases List.mem_append.1 hdefect with hdefect | hdefect
      · split at hdefect <;> simp_all [Defect.severity]
      · split at hdefect
        · simp_all [Defect.severity]
        · split at hdefect <;> simp_all [Defect.severity]
    · split at hdefect <;> simp_all [Defect.severity]

theorem Step.referenceDefects_iff {known : List String} {r : Reference} :
    (∀ defect ∈ s.referenceDefects known r, defect.severity ≠ .error) ↔
      r.target ∈ known ∧ r.target ≠ s.id := by
  unfold Step.referenceDefects
  split
  · simp [*, Defect.severity]
  · split <;> simp_all [Defect.severity]

theorem Step.defects_iff {known : List String} :
    (∀ defect ∈ s.defects known, defect.severity ≠ .error) ↔
      (∀ r ∈ s.references, r.target ∈ known ∧ r.target ≠ s.id) ∧
        ∀ call, s.work = .activity call → Text.blank call.activity = false := by
  rw [Step.defects, List.forall_mem_append, Work.defects_iff]
  simp only [List.mem_flatMap, forall_exists_index, and_imp]
  refine and_congr_left' ⟨fun h r hr => ?_, fun h defect r hr hdefect => ?_⟩
  · exact Step.referenceDefects_iff.1 fun defect hdefect => h defect r hr hdefect
  · exact Step.referenceDefects_iff.2 (h r hr) defect hdefect

/-- What it takes to be sound, with the cycles of the graph. -/
theorem sound_iff_acyclic : d.Sound ↔ (∀ f ∈ d.directFindings, f.isError = false) ∧
    d.graph.Acyclic := by
  rw [sound_iff, ← Graph.stuck_eq_nil_iff, Graph.stuck_eq_nil_iff_acyclic graph_wellFormed]

theorem directFindings_iff : (∀ f ∈ d.directFindings, f.isError = false) ↔
    Text.blank d.name = false ∧
    ((∀ s ∈ d.steps, Text.blank s.id = false) ∧ d.ids.Nodup) ∧
    (Text.blank d.root = false ∧ d.root ∈ d.knownIds) ∧
    ∀ s ∈ d.steps, (∀ r ∈ s.references, r.target ∈ d.knownIds ∧ r.target ≠ s.id) ∧
      ∀ call, s.work = .activity call → Text.blank call.activity = false := by
  have hname : (∀ f ∈ (if Text.blank d.name then [(⟨none, .unnamed⟩ : Finding)] else []),
      f.isError = false) ↔ Text.blank d.name = false := by
    split <;> simp [*, Finding.isError, Defect.severity]
  have hids : (∀ f ∈ idFindings [] d.steps, f.isError = false) ↔
      (∀ s ∈ d.steps, Text.blank s.id = false) ∧ d.ids.Nodup := by
    rw [idFindings_iff]
    simp [ids]
  have hsteps : (∀ f ∈ d.steps.flatMap fun s =>
      (s.defects d.knownIds).map fun defect => (⟨some s.id, defect⟩ : Finding), f.isError = false) ↔
      ∀ s ∈ d.steps, ∀ defect ∈ s.defects d.knownIds, defect.severity ≠ .error := by
    simp only [List.mem_flatMap, List.mem_map, Finding.isError]
    constructor
    · intro h s hs defect hdefect
      simpa using h _ ⟨s, hs, defect, hdefect, rfl⟩
    · rintro h f ⟨s, hs, defect, hdefect, rfl⟩
      simpa using h s hs defect hdefect
  rw [directFindings, List.forall_mem_append, List.forall_mem_append, List.forall_mem_append,
    hname, hids, rootFindings_iff, hsteps, and_assoc, and_assoc]
  simp only [Step.defects_iff]

/-! ### The graph of the references -/

/-- An id can be named if it is not blank. -/
theorem mem_knownIds : v ∈ d.knownIds ↔ v ∈ d.ids ∧ Text.blank v = false := by
  simp [knownIds, ids]

/-- The graph has an edge for every reference to a known id. -/
theorem edge_graph : d.graph.Edge u v ↔ d.Mentions u v ∧ v ∈ d.knownIds := by
  unfold Graph.Edge Mentions
  rw [mem_successors_graph]
  constructor
  · rintro ⟨s, hs, hid, hknown, hr⟩
    exact ⟨⟨s, hs, hid, hr⟩, hknown⟩
  · rintro ⟨⟨s, hs, hid, hr⟩, hknown⟩
    exact ⟨s, hs, hid, hknown, hr⟩

/-- If all references resolve, the graph has an edge for each of them and no others. -/
theorem edge_graph_iff (h : ∀ s ∈ d.steps, ∀ r ∈ s.references, r.target ∈ d.knownIds) :
    d.graph.Edge u v ↔ d.Mentions u v := by
  rw [edge_graph, and_iff_left_iff_imp]
  rintro ⟨s, hs, -, r, hr, rfl⟩
  exact h s hs r hr

/-! ### The verdict -/

/-- A check finds no error exactly in a faultless definition. -/
theorem sound_iff_faultless : d.Sound ↔ d.Faultless := by
  rw [sound_iff_acyclic, directFindings_iff]
  constructor
  · rintro ⟨⟨hname, ⟨hids, hnodup⟩, ⟨hroot, hrooted⟩, hsteps⟩, hacyclic⟩
    have hknown : ∀ s ∈ d.steps, ∀ r ∈ s.references, r.target ∈ d.knownIds :=
      fun s hs r hr => ((hsteps s hs).1 r hr).1
    have hedge : d.graph.Edge = d.Mentions := by
      funext u v
      exact propext (edge_graph_iff hknown)
    exact {
      name := Text.visible_iff.2 hname
      ids := fun s hs => Text.visible_iff.2 (hids s hs)
      distinct := hnodup
      root := Text.visible_iff.2 hroot
      rooted := (mem_knownIds.1 hrooted).1
      resolved := fun s hs r hr => (mem_knownIds.1 (hknown s hs r hr)).1
      activities := fun s hs call hwork => Text.visible_iff.2 ((hsteps s hs).2 call hwork)
      acyclic := fun id => hedge ▸ hacyclic id }
  · intro h
    have hids : ∀ s ∈ d.steps, Text.blank s.id = false :=
      fun s hs => Text.visible_iff.1 (h.ids s hs)
    have hknown : ∀ id ∈ d.ids, id ∈ d.knownIds := by
      intro id hid
      obtain ⟨s, hs, rfl⟩ := List.mem_map.1 hid
      exact mem_knownIds.2 ⟨hid, hids s hs⟩
    have hresolved : ∀ s ∈ d.steps, ∀ r ∈ s.references, r.target ∈ d.knownIds :=
      fun s hs r hr => hknown _ (h.resolved s hs r hr)
    have hedge : d.graph.Edge = d.Mentions := by
      funext u v
      exact propext (edge_graph_iff hresolved)
    refine ⟨⟨Text.visible_iff.1 h.name, ⟨hids, h.distinct⟩,
      ⟨Text.visible_iff.1 h.root, hknown _ h.rooted⟩, fun s hs => ⟨fun r hr => ?_, ?_⟩⟩, ?_⟩
    · -- a step that refers to itself is a cycle already
      refine ⟨hresolved s hs r hr, fun hself => ?_⟩
      exact h.acyclic s.id (.single ⟨s, hs, rfl, r, hr, hself⟩)
    · exact fun call hwork => Text.visible_iff.1 (h.activities s hs call hwork)
    · exact fun id => hedge ▸ h.acyclic id

/-- **The verdict of a check is exact**: it reports no error for a definition exactly if the name,
the ids, the root and the activities have visible names, the ids are distinct, the root and all
references are ids of steps, and no path of references is a cycle. -/
theorem no_error_iff_faultless (d : Definition) :
    (∀ issue ∈ d.check.map Finding.toIssue, issue.isError = false) ↔ d.Faultless := by
  rw [← sound_iff_faultless, List.forall_mem_map]
  rfl

end Definition

end Flowgraph

import Flowgraph.Proofs.Definition.Verdict
import Mathlib.Data.List.Perm.Basic

/-!
# The order of the steps

A definition lists its steps in some order. What is asked about it are its name, its root and the
steps with given ids; definitions that agree on these are **alike** (`Definition.Alike`). Steps
that stand behind another one with their id are never found (`alike_unshadowed`), and if ids are
distinct, then the order of the steps does not matter for a look-up (`alike_of_perm`).

Nor does it matter for a check, which then finds the same things up to their order
(`perm_check`): its parts go through the steps one by one, or depend on the set of the ids and on
the edges between them.
-/

set_option autoImplicit false

namespace Flowgraph

/-- The steps that are the first with their id. -/
def firstSteps : List Step → List Step
  | [] => []
  | s :: rest => s :: (firstSteps rest).filter (·.id ≠ s.id)

/-- A definition without the steps that stand behind another one with their id. -/
def Definition.unshadowed (d : Definition) : Definition := { d with steps := firstSteps d.steps }

/-- Two definitions with the same answers to what a run asks of them. -/
structure Definition.Alike (d d' : Definition) : Prop where
  name : d'.name = d.name
  root : d'.root = d.root
  find? : ∀ id, d'.find? id = d.find? id

variable {s : Step} {steps : List Step}

/-! ### Look-ups -/

/-- The first step with an id is found among the first steps as well. -/
theorem find?_firstSteps (id : String) :
    (firstSteps steps).find? (·.id = id) = steps.find? (·.id = id) := by
  induction steps with
  | nil => rfl
  | cons s rest ih =>
    by_cases h : s.id = id
    · simp [firstSteps, h]
    · have hother : ∀ t : Step, (t.id ≠ s.id ∧ t.id = id) ↔ t.id = id := by
        intro t
        refine ⟨And.right, fun ht => ⟨?_, ht⟩⟩
        rw [ht]
        exact Ne.symm h
      simp [firstSteps, h, List.find?_filter, hother, ih]

namespace Definition

variable {d d' : Definition} {u v : String}

/-- **Steps behind another one with their id are never found.** -/
theorem alike_unshadowed (d : Definition) : d.Alike d.unshadowed :=
  ⟨rfl, rfl, fun id => find?_firstSteps id⟩

/-- A step is found by its id if ids are distinct. -/
theorem find?_eq_some_iff (h : d.ids.Nodup) {id : String} :
    d.find? id = some s ↔ s ∈ d.steps ∧ s.id = id := by
  constructor
  · exact fun hs => ⟨find?_mem hs, find?_id hs⟩
  · rintro ⟨hs, rfl⟩
    obtain ⟨t, ht⟩ := exists_find? (List.mem_map_of_mem (f := (·.id)) hs)
    rw [ht, List.inj_on_of_nodup_map h (find?_mem ht) hs (find?_id ht)]

/-- **The order of steps with distinct ids does not matter for a look-up.** -/
theorem alike_of_perm (h : d.ids.Nodup) (hsteps : steps.Perm d.steps) :
    d.Alike { d with steps } := by
  have h' : ({ d with steps } : Definition).ids.Nodup := (hsteps.map _).nodup_iff.2 h
  refine ⟨rfl, rfl, fun id => Option.ext fun s => ?_⟩
  rw [find?_eq_some_iff h, find?_eq_some_iff h', hsteps.mem_iff]

/-! ### The parts of a check -/

/-- What is found about the id of a step if no other step has it. -/
def ownIdFindings (s : Step) : List Finding :=
  if Text.blank s.id then [⟨none, .emptyId⟩]
  else if s.id ∈ reservedIds then [⟨some s.id, .reservedId⟩] else []

/-- Distinct ids are looked at one by one. -/
theorem idFindings_eq {seen : List String} (h : (steps.map (·.id)).Nodup)
    (hseen : ∀ s ∈ steps, s.id ∉ seen) : idFindings seen steps = steps.flatMap ownIdFindings := by
  induction steps generalizing seen with
  | nil => rfl
  | cons s steps ih =>
    obtain ⟨hnew, hnodup⟩ := List.nodup_cons.1 h
    obtain ⟨hs, hsteps⟩ := List.forall_mem_cons.1 hseen
    unfold idFindings
    rw [List.flatMap_cons, ownIdFindings]
    split
    · rw [ih hnodup hsteps, List.singleton_append]
    · have hothers : ∀ t ∈ steps, t.id ∉ s.id :: seen := by
        intro t ht hmem
        rcases List.mem_cons.1 hmem with hid | hmem
        · exact hnew (List.mem_map.2 ⟨t, ht, hid⟩)
        · exact hsteps t ht hmem
      rw [List.nil_append, ih hnodup hothers]


section

variable (hsteps : d'.steps.Perm d.steps)

include hsteps

theorem perm_ids : d'.ids.Perm d.ids := hsteps.map _

theorem mem_knownIds_perm : v ∈ d'.knownIds ↔ v ∈ d.knownIds := by
  rw [mem_knownIds, mem_knownIds, (perm_ids hsteps).mem_iff]

/-- References lead to the same ids, whatever the order of the steps. -/
theorem mentions_perm : d'.Mentions u v ↔ d.Mentions u v := by
  simp only [Mentions, hsteps.mem_iff]

theorem edge_perm : d'.graph.Edge u v ↔ d.graph.Edge u v := by
  rw [edge_graph, edge_graph, mentions_perm hsteps, mem_knownIds_perm hsteps]

theorem stuck_perm : d'.graph.stuck = d.graph.stuck := by
  refine Graph.stuck_congr graph_wellFormed graph_wellFormed (fun v => ?_)
    fun u v => edge_perm hsteps
  simp only [mem_nodes_graph, hsteps.mem_iff]

theorem mem_reachable_perm : v ∈ d'.graph.reachable u ↔ v ∈ d.graph.reachable u := by
  have hedge : d'.graph.Edge = d.graph.Edge := by
    funext u v
    exact propext (edge_perm hsteps)
  rw [Graph.mem_reachable, Graph.mem_reachable, hedge]

theorem defects_perm (s : Step) : s.defects d'.knownIds = s.defects d.knownIds := by
  have hreference : s.referenceDefects d'.knownIds = s.referenceDefects d.knownIds := by
    funext r
    simp only [Step.referenceDefects, mem_knownIds_perm hsteps]
  rw [Step.defects, Step.defects, hreference]

end

/-- **A check finds the same things in whatever order steps with distinct ids are listed**, up to
the order of the findings. -/
theorem perm_check (h : d.ids.Nodup) (hsteps : steps.Perm d.steps) :
    ({ d with steps } : Definition).check.Perm d.check := by
  obtain ⟨d', hd'⟩ : ∃ d' : Definition, d' = { d with steps } := ⟨_, rfl⟩
  have hname : d'.name = d.name := by rw [hd']
  have hroot : d'.root = d.root := by rw [hd']
  have hperm : d'.steps.Perm d.steps := by rwa [hd']
  rw [← hd']
  have hids : (idFindings [] d'.steps).Perm (idFindings [] d.steps) := by
    have h' : d'.ids.Nodup := (perm_ids hperm).nodup_iff.2 h
    rw [idFindings_eq h' (by simp), idFindings_eq h (by simp)]
    exact hperm.flatMap_right _
  have hrootFindings : d'.rootFindings = d.rootFindings := by
    simp only [rootFindings, hroot, mem_knownIds_perm hperm]
  have hdefects : (d'.steps.flatMap fun s => (s.defects d'.knownIds).map fun defect =>
      (⟨some s.id, defect⟩ : Finding)).Perm
        (d.steps.flatMap fun s => (s.defects d.knownIds).map (⟨some s.id, ·⟩)) := by
    simp only [defects_perm hperm]
    exact hperm.flatMap_right _
  have hcycle : d'.cycleFindings = d.cycleFindings := by
    rw [cycleFindings, stuck_perm hperm]
    rfl
  have hreach : d'.reachFindings.Perm d.reachFindings := by
    simp only [reachFindings, hroot, mem_knownIds_perm hperm, mem_reachable_perm hperm]
    split
    · exact (hperm.filter _).map _
    · exact .refl _
  rw [check, check, hname, hrootFindings, hcycle]
  exact ((((hids.append_left _).append_right _).append hdefects).append_right _).append hreach

end Definition

end Flowgraph

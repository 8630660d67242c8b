import Flowgraph.Definition.Check

/-!
# The parts of a check

A check goes through a definition several times, each time with one concern: the name, the ids, the
root, the references of the steps and their work, cycles, and what can be reached. Every defect
belongs to one of these concerns, so **the findings with a concern are what one part of the check
says** (`filter_check`), in the order in which that part says it. What a check as a whole finds is
read off its parts by this.
-/

set_option autoImplicit false

namespace Flowgraph

/-- What a defect is about. -/
inductive Concern where
  | name
  | ids
  | root
  | references
  | work
  | cycles
  | reach
  /-- Activities and their arguments, which only a registry knows about. -/
  | registry
  deriving DecidableEq

/-- What a defect is about. -/
def Defect.concern : Defect → Concern
  | .unnamed => .name
  | .emptyId | .duplicateId | .reservedId => .ids
  | .rootUnset | .rootUnknown _ => .root
  | .targetUnknown _ _ | .targetItself _ => .references
  | .activityUnnamed | .conditionWithoutVariable | .conditionWithoutOperator | .operatorUnknown _
  | .conditionWithoutTarget | .noBranches => .work
  | .cycle _ => .cycles
  | .unreachable => .reach
  | .activityUnknown _ | .argument _ => .registry

/-! ### The concern of each part -/

theorem Work.concern_defects {w : Work} : ∀ defect ∈ w.defects, defect.concern = .work := by
  cases w with
  | activity call =>
    simp only [defects]
    split <;> simp [Defect.concern]
  | sequence steps => simp [defects]
  | parallel branches =>
    simp only [defects]
    split <;> simp [Defect.concern]
  | condition choice =>
    simp only [defects, List.forall_mem_append]
    refine ⟨⟨by split <;> simp [Defect.concern], ?_⟩, by split <;> simp [Defect.concern]⟩
    split
    · simp [Defect.concern]
    · split <;> simp [Defect.concern]

theorem Step.concern_referenceDefects {s : Step} {known : List String} {r : Reference} :
    ∀ defect ∈ s.referenceDefects known r, defect.concern = .references := by
  unfold referenceDefects
  split
  · simp [Defect.concern]
  · split <;> simp [Defect.concern]

namespace Definition

variable {d : Definition} {findings : List Finding} {concern other : Concern}

/-- The findings about references, step by step. -/
def referenceFindings (d : Definition) : List Finding :=
  d.steps.flatMap fun s =>
    (s.references.flatMap (s.referenceDefects d.knownIds)).map (⟨some s.id, ·⟩)

/-- The findings about the work of the steps, step by step. -/
def workFindings (d : Definition) : List Finding :=
  d.steps.flatMap fun s => s.work.defects.map (⟨some s.id, ·⟩)

/-- What a check says about one concern. -/
def findingsOn (d : Definition) : Concern → List Finding
  | .name => if Text.blank d.name then [⟨none, .unnamed⟩] else []
  | .ids => idFindings [] d.steps
  | .root => d.rootFindings
  | .references => d.referenceFindings
  | .work => d.workFindings
  | .cycles => d.cycleFindings
  | .reach => d.reachFindings
  | .registry => []

theorem concern_idFindings {seen : List String} {steps : List Step} :
    ∀ f ∈ idFindings seen steps, f.defect.concern = .ids := by
  fun_induction idFindings with
  | case1 => exact List.forall_mem_nil _
  | case2 seen s rest _ ih => exact List.forall_mem_cons.2 ⟨rfl, ih⟩
  | case3 seen s rest _ ih =>
    refine List.forall_mem_append.2 ⟨List.forall_mem_append.2 ⟨?_, ?_⟩, ih⟩
    · split <;> simp [Defect.concern]
    · split <;> simp [Defect.concern]

theorem concern_findingsOn : ∀ f ∈ d.findingsOn concern, f.defect.concern = concern := by
  cases concern with
  | name =>
    simp only [findingsOn]
    split <;> simp [Defect.concern]
  | ids => exact concern_idFindings
  | root =>
    simp only [findingsOn, rootFindings]
    split
    · simp [Defect.concern]
    · split <;> simp [Defect.concern]
  | references =>
    intro f hf
    obtain ⟨s, -, hf⟩ := List.mem_flatMap.1 hf
    obtain ⟨defect, hdefect, rfl⟩ := List.mem_map.1 hf
    obtain ⟨r, -, hdefect⟩ := List.mem_flatMap.1 hdefect
    exact Step.concern_referenceDefects defect hdefect
  | work =>
    intro f hf
    obtain ⟨s, -, hf⟩ := List.mem_flatMap.1 hf
    obtain ⟨defect, hdefect, rfl⟩ := List.mem_map.1 hf
    exact Work.concern_defects defect hdefect
  | cycles =>
    simp only [findingsOn, cycleFindings]
    split <;> simp [Defect.concern]
  | reach =>
    intro f hf
    simp only [findingsOn, reachFindings] at hf
    split at hf
    · obtain ⟨s, -, rfl⟩ := List.mem_map.1 hf
      rfl
    · cases hf
  | registry => exact List.forall_mem_nil _

/-! ### One concern at a time -/

/-- What has one concern is kept for it and dropped for any other. -/
theorem filter_concern (h : ∀ f ∈ findings, f.defect.concern = other) :
    findings.filter (·.defect.concern = concern) = if other = concern then findings else [] := by
  split
  · subst concern
    exact List.filter_eq_self.2 fun f hf => by simpa using h f hf
  · rename_i hne
    exact List.filter_eq_nil_iff.2 fun f hf => by simpa [h f hf] using hne

/-- What is said of a step about its references or its work is one of the two. -/
theorem filter_steps : (d.steps.flatMap fun s =>
      (s.defects d.knownIds).map fun defect => (⟨some s.id, defect⟩ : Finding)).filter
        (·.defect.concern = concern) =
      if .references = concern then d.referenceFindings
      else if .work = concern then d.workFindings else [] := by
  have hstep : ∀ s : Step, ((s.defects d.knownIds).map fun defect =>
      (⟨some s.id, defect⟩ : Finding)).filter (·.defect.concern = concern) =
      (if .references = concern then
        (s.references.flatMap (s.referenceDefects d.knownIds)).map (⟨some s.id, ·⟩) else []) ++
      (if .work = concern then s.work.defects.map (⟨some s.id, ·⟩) else []) := by
    intro s
    have hreferences : ∀ f ∈ (s.references.flatMap (s.referenceDefects d.knownIds)).map
        fun defect => (⟨some s.id, defect⟩ : Finding), f.defect.concern = .references := by
      refine List.forall_mem_map.2 fun defect hdefect => ?_
      obtain ⟨r, -, hdefect⟩ := List.mem_flatMap.1 hdefect
      exact Step.concern_referenceDefects defect hdefect
    have hwork : ∀ f ∈ s.work.defects.map fun defect => (⟨some s.id, defect⟩ : Finding),
        f.defect.concern = .work := List.forall_mem_map.2 Work.concern_defects
    rw [Step.defects, List.map_append, List.filter_append, filter_concern hreferences,
      filter_concern hwork]
  rw [List.filter_flatMap]
  simp only [hstep]
  by_cases href : Concern.references = concern
  · subst href
    simp [referenceFindings]
  · by_cases hwork : Concern.work = concern
    · subst hwork
      simp [workFindings]
    · simp [href, hwork]

/-- **The findings with a concern** are those of one part of the check. -/
theorem filter_check (d : Definition) (concern : Concern) :
    d.check.filter (·.defect.concern = concern) = d.findingsOn concern := by
  have hpart : ∀ other, (d.findingsOn other).filter (·.defect.concern = concern) =
      if other = concern then d.findingsOn other else [] := fun other =>
    filter_concern concern_findingsOn
  have hname := hpart .name
  have hids := hpart .ids
  have hroot := hpart .root
  have hcycles := hpart .cycles
  have hreach := hpart .reach
  simp only [findingsOn] at hname hids hroot hcycles hreach
  simp only [check, List.filter_append, hname, hids, hroot, hcycles, hreach, filter_steps]
  cases concern <;> simp [findingsOn]

theorem mem_findingsOn {f : Finding} : f ∈ d.findingsOn concern ↔
    f ∈ d.check ∧ f.defect.concern = concern := by
  rw [← filter_check, List.mem_filter, decide_eq_true_iff]

end Definition

end Flowgraph

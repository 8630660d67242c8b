import Flowgraph.Definition.Check
import Flowgraph.Proofs.Graph.Peeling
import Mathlib.Logic.Function.Iterate

/-!
# References between steps

`Definition.graph` has the ids of the steps as its nodes, and an edge for every reference to an
id that is known (`mem_nodes_graph`, `mem_successors_graph`). Steps that share an id share a
node, so the graph has at least the edges that a run can follow.

A definition is **sound** if its check finds no error. In a sound definition the root and all
references resolve, activities are named, and the ids can be put in a row in which every
reference leads forward (`Sound.exists_row`). So a chain of references never comes to an id a
second time: its length stays below the number of steps (`Sound.length_lt`).
-/

set_option autoImplicit false

namespace Flowgraph

/-! ### Connecting nodes -/

namespace Graph

variable {g : Graph} {u v : String} {targets : List String}

theorem nodes_connect (g : Graph) (u : String) (targets : List String) :
    (g.connect u targets).nodes = if u ∈ g.nodes then g.nodes else g.nodes ++ [u] :=
  Assoc.keys_set u _ g

theorem mem_nodes_connect : v ∈ (g.connect u targets).nodes ↔ v ∈ g.nodes ∨ v = u := by
  rw [nodes_connect]
  split
  · constructor
    · exact Or.inl
    · rintro (h | rfl)
      · exact h
      · assumption
  · simp

/-- The targets of a node with some more, each at most once. -/
def withTargets (targets more : List String) : List String :=
  more.foldl (fun ts t => if t ∈ ts then ts else ts ++ [t]) targets

theorem mem_withTargets {more : List String} :
    v ∈ withTargets targets more ↔ v ∈ targets ∨ v ∈ more := by
  induction more generalizing targets with
  | nil => simp [withTargets]
  | cons t more ih =>
    rw [withTargets, List.foldl_cons, ← withTargets, ih]
    by_cases ht : t ∈ targets
    · rw [if_pos ht, List.mem_cons]
      constructor
      · rintro (h | h)
        · exact Or.inl h
        · exact Or.inr (Or.inr h)
      · rintro (h | rfl | h)
        · exact Or.inl h
        · exact Or.inl ht
        · exact Or.inr h
    · simp [if_neg ht, or_assoc]

theorem nodup_withTargets {more : List String} (h : targets.Nodup) :
    (withTargets targets more).Nodup := by
  induction more generalizing targets with
  | nil => exact h
  | cons t more ih =>
    rw [withTargets, List.foldl_cons, ← withTargets]
    apply ih
    split
    · exact h
    · rename_i ht
      refine List.nodup_append.2 ⟨h, List.nodup_singleton t, fun a ha b hb heq => ht ?_⟩
      rw [← List.mem_singleton.1 hb, ← heq]
      exact ha

theorem successors_connect : (g.connect u targets).successors v =
    if u = v then withTargets (g.successors u) targets else g.successors v := by
  show (Assoc.get? v (Assoc.set u _ g)).getD [] = _
  rw [Assoc.get?_set]
  split <;> rfl

theorem WellFormed.nil : WellFormed [] := ⟨List.nodup_nil, fun _ => List.nodup_nil⟩

theorem WellFormed.connect (h : g.WellFormed) : (g.connect u targets).WellFormed where
  nodes := by
    rw [nodes_connect]
    split
    · exact h.nodes
    · rename_i hu
      refine List.nodup_append.2 ⟨h.nodes, List.nodup_singleton u, fun a ha b hb heq => hu ?_⟩
      rw [← List.mem_singleton.1 hb, ← heq]
      exact ha
  successors v := by
    rw [successors_connect]
    split
    · exact nodup_withTargets (h.successors u)
    · exact h.successors v

/-- Connecting the nodes of some steps, one step after another. -/
def connectAll (known : List String) (steps : List Step) (g : Graph) : Graph :=
  steps.foldl (fun g s => g.connect s.id ((s.references.map (·.target)).filter (· ∈ known))) g

section

variable {known : List String} {steps : List Step}

theorem WellFormed.connectAll (h : g.WellFormed) : (connectAll known steps g).WellFormed := by
  induction steps generalizing g with
  | nil => exact h
  | cons s steps ih => exact ih h.connect

theorem mem_nodes_connectAll :
    v ∈ (connectAll known steps g).nodes ↔ v ∈ g.nodes ∨ ∃ s ∈ steps, s.id = v := by
  induction steps generalizing g with
  | nil => simp [connectAll]
  | cons s steps ih =>
    rw [connectAll, List.foldl_cons, ← connectAll, ih, mem_nodes_connect]
    simp [or_assoc, eq_comm]

theorem mem_successors_connectAll :
    v ∈ (connectAll known steps g).successors u ↔ v ∈ g.successors u ∨
      ∃ s ∈ steps, s.id = u ∧ v ∈ known ∧ ∃ r ∈ s.references, r.target = v := by
  induction steps generalizing g with
  | nil => simp [connectAll]
  | cons s steps ih =>
    rw [connectAll, List.foldl_cons, ← connectAll, ih, successors_connect]
    by_cases hs : s.id = u
    · simp [hs, mem_withTargets, or_assoc, and_comm]
    · simp [hs]

end

end Graph

/-! ### The graph of a definition -/

namespace Definition

variable {d : Definition} {id u v : String} {s t : Step}

theorem find?_mem (h : d.find? id = some s) : s ∈ d.steps := List.mem_of_find?_eq_some h

theorem find?_id (h : d.find? id = some s) : s.id = id := by
  simpa using List.find?_some h

theorem exists_find? (h : id ∈ d.steps.map (·.id)) : ∃ s, d.find? id = some s := by
  obtain ⟨s, hs, rfl⟩ := List.mem_map.1 h
  exact Option.isSome_iff_exists.1 (List.find?_isSome.2 ⟨s, hs, by simp⟩)

theorem graph_eq : d.graph = Graph.connectAll d.knownIds d.steps [] := rfl

theorem graph_wellFormed : d.graph.WellFormed := Graph.WellFormed.nil.connectAll

theorem mem_nodes_graph : v ∈ d.graph.nodes ↔ ∃ s ∈ d.steps, s.id = v := by
  rw [graph_eq, Graph.mem_nodes_connectAll]
  simp [Graph.nodes]

theorem mem_successors_graph : v ∈ d.graph.successors u ↔
    ∃ s ∈ d.steps, s.id = u ∧ v ∈ d.knownIds ∧ ∃ r ∈ s.references, r.target = v := by
  rw [graph_eq, Graph.mem_successors_connectAll]
  simp [Graph.successors]

/-! ### Sound definitions -/

/-- The check of the definition finds no error. -/
def Sound (d : Definition) : Prop := ∀ f ∈ d.check, f.isError = false

/-- Nothing is wrong with ids exactly if none is blank, none comes twice and none is taken. -/
theorem idFindings_iff {steps : List Step} {seen : List String} :
    (∀ f ∈ idFindings seen steps, f.isError = false) ↔
      (∀ s ∈ steps, Text.blank s.id = false) ∧ (steps.map (·.id)).Nodup ∧
        ∀ s ∈ steps, s.id ∉ seen := by
  induction steps generalizing seen with
  | nil => simp [idFindings]
  | cons s steps ih =>
    unfold idFindings
    split
    · rename_i hblank
      simp [Finding.isError, Defect.severity, hblank]
    · rename_i hblank
      rw [Bool.not_eq_true] at hblank
      have hreserved : ∀ f ∈ (if s.id ∈ reservedIds then [(⟨some s.id, .reservedId⟩ : Finding)]
          else []), f.isError = false := by
        intro f hf
        split at hf
        · rw [List.mem_singleton.1 hf]
          rfl
        · cases hf
      have htaken : (∀ f ∈ (if s.id ∈ seen then [(⟨some s.id, .duplicateId⟩ : Finding)] else []),
          f.isError = false) ↔ s.id ∉ seen := by
        split <;> simp [*, Finding.isError, Defect.severity]
      rw [List.forall_mem_append, List.forall_mem_append, htaken, ih, List.forall_mem_cons,
        List.forall_mem_cons, List.map_cons, List.nodup_cons]
      constructor
      · rintro ⟨⟨hnew, -⟩, hblanks, hnodup, hseen⟩
        refine ⟨⟨hblank, hblanks⟩, ⟨fun hmem => ?_, hnodup⟩, hnew, fun t ht hmem => ?_⟩
        · obtain ⟨t, ht, hid⟩ := List.mem_map.1 hmem
          exact hseen t ht (hid ▸ List.mem_cons_self ..)
        · exact hseen t ht (List.mem_cons_of_mem _ hmem)
      · rintro ⟨⟨-, hblanks⟩, ⟨hfirst, hnodup⟩, hnew, hseen⟩
        refine ⟨⟨hnew, hreserved⟩, hblanks, hnodup, fun t ht hmem => ?_⟩
        rcases List.mem_cons.1 hmem with hid | hmem
        · exact hfirst (hid ▸ List.mem_map_of_mem ht)
        · exact hseen t ht hmem

namespace Sound

theorem root_known (h : d.Sound) : d.root ∈ d.knownIds := by
  have hroot : ∀ f ∈ d.rootFindings, f.isError = false := fun f hf => h f (by simp [check, hf])
  unfold rootFindings at hroot
  split at hroot
  · exact absurd (hroot _ (List.mem_singleton_self _)) (by simp [Finding.isError, Defect.severity])
  · split at hroot
    · exact absurd (hroot _ (List.mem_singleton_self _))
        (by simp [Finding.isError, Defect.severity])
    · rename_i hknown
      exact not_not.1 hknown

theorem rootStep (h : d.Sound) : ∃ s, d.rootStep? = some s :=
  exists_find? (List.mem_of_mem_filter h.root_known)

theorem defects (h : d.Sound) (hs : s ∈ d.steps) (defect : Defect)
    (hdefect : defect ∈ s.defects d.knownIds) : defect.severity ≠ .error := by
  have hmem : (⟨some s.id, defect⟩ : Finding) ∈ d.check := by
    have : (⟨some s.id, defect⟩ : Finding) ∈
        d.steps.flatMap fun s => (s.defects d.knownIds).map (⟨some s.id, ·⟩) :=
      List.mem_flatMap.2 ⟨s, hs, List.mem_map_of_mem hdefect⟩
    simp only [check, List.mem_append]
    exact Or.inl (Or.inl (Or.inr this))
  simpa [Finding.isError] using h _ hmem

theorem target_known (h : d.Sound) (hs : s ∈ d.steps) {r : Reference} (hr : r ∈ s.references) :
    r.target ∈ d.knownIds := by
  by_contra hnot
  refine h.defects hs (.targetUnknown r.link r.target) ?_ rfl
  refine List.mem_append_left _ (List.mem_flatMap.2 ⟨r, hr, ?_⟩)
  simp [Step.referenceDefects, hnot]

/-- Every reference leads to a step. -/
theorem target (h : d.Sound) (hs : s ∈ d.steps) {r : Reference} (hr : r ∈ s.references) :
    ∃ t, d.find? r.target = some t :=
  exists_find? (List.mem_of_mem_filter (h.target_known hs hr))

/-- Every activity has a name. -/
theorem named (h : d.Sound) (hs : s ∈ d.steps) {c : Call} (hwork : s.work = .activity c) :
    Text.blank c.activity = false := by
  by_contra hblank
  rw [Bool.not_eq_false] at hblank
  refine h.defects hs .activityUnnamed (List.mem_append_right _ ?_) rfl
  simp [hwork, Work.defects, hblank]

/-- The ids are distinct. -/
theorem nodup (h : d.Sound) : (d.steps.map (·.id)).Nodup := by
  have hids : ∀ f ∈ idFindings [] d.steps, f.isError = false := fun f hf => h f (by simp [check, hf])
  exact (idFindings_iff.1 hids).2.1

/-- A step is known by its id. -/
theorem eq_of_id (h : d.Sound) (hs : s ∈ d.steps) (ht : t ∈ d.steps) (hid : s.id = t.id) :
    s = t := List.inj_on_of_nodup_map h.nodup hs ht hid

theorem stuck (h : d.Sound) : d.graph.stuck = [] := by
  by_contra hne
  have hcycle : (⟨none, .cycle d.graph.stuck⟩ : Finding) ∈ d.check := by
    have : (⟨none, .cycle d.graph.stuck⟩ : Finding) ∈ d.cycleFindings := by
      simp [cycleFindings, hne]
    simp only [check, List.mem_append]
    exact Or.inl (Or.inr this)
  simpa [Finding.isError, Defect.severity] using h _ hcycle

/-- **The ids can be put in a row** in which every reference leads forward. -/
theorem exists_row (h : d.Sound) : ∃ row : List String,
    ∀ s ∈ d.steps, ∀ r ∈ s.references, row.idxOf s.id < row.idxOf r.target := by
  obtain ⟨row, hrow, hnodes, hclosed⟩ := Graph.exists_row graph_wellFormed h.stuck
  refine ⟨row, fun s hs r hr => ?_⟩
  have hknown := h.target_known hs hr
  have hnode : r.target ∈ row := by
    obtain ⟨t, ht, hid⟩ := List.mem_map.1 (List.mem_of_mem_filter hknown)
    exact (hnodes _).2 (mem_nodes_graph.2 ⟨t, ht, hid⟩)
  exact hclosed.idxOf_lt hrow hnode (mem_nodes_graph.2 ⟨s, hs, rfl⟩)
    (mem_successors_graph.2 ⟨s, hs, rfl, hknown, r, hr, rfl⟩)

end Sound

/-- The findings for which the graph is not searched. -/
def directFindings (d : Definition) : List Finding :=
  (if Text.blank d.name then [⟨none, .unnamed⟩] else []) ++
  idFindings [] d.steps ++
  d.rootFindings ++
  d.steps.flatMap (fun s => (s.defects d.knownIds).map (⟨some s.id, ·⟩))

/-- What has to be computed to see that a definition is sound: unreachable steps are no errors,
and cycles show in the counters of the peeling. -/
theorem sound_iff : d.Sound ↔ (∀ f ∈ d.directFindings, f.isError = false) ∧
    ∀ entry ∈ (Graph.Peel.run d.graph d.graph.length (Graph.Peel.start d.graph)).degrees,
      entry.2 = 0 := by
  rw [← Graph.stuck_eq_nil_iff]
  constructor
  · intro h
    refine ⟨fun f hf => h f ?_, h.stuck⟩
    exact List.mem_append_left _ (List.mem_append_left _ hf)
  · rintro ⟨hdirect, hstuck⟩ f hf
    rcases List.mem_append.1 hf with hf | hf
    · rcases List.mem_append.1 hf with hf | hf
      · exact hdirect f hf
      · simp [cycleFindings, hstuck] at hf
    · unfold reachFindings at hf
      split at hf
      · obtain ⟨s, -, rfl⟩ := List.mem_map.1 hf
        rfl
      · cases hf

/-! ### Chains of references -/

/-- The step that a chain of references leads to, from the root. The chain lists the numbers of
the references, the last one first. -/
def at? (d : Definition) : List Nat → Option Step
  | [] => d.rootStep?
  | n :: chain =>
    ((d.at? chain).bind fun s => s.references[n]?).bind fun r => d.find? r.target

variable {chain : List Nat} {n : Nat}

theorem at?_cons {r : Reference} (h : d.at? chain = some s) (hr : s.references[n]? = some r) :
    d.at? (n :: chain) = d.find? r.target := by
  simp [at?, h, hr]

theorem exists_of_at?_cons (h : d.at? (n :: chain) = some t) :
    ∃ s r, d.at? chain = some s ∧ s.references[n]? = some r ∧ d.find? r.target = some t := by
  simp only [at?, Option.bind_eq_some_iff] at h
  obtain ⟨r, ⟨s, hs, hr⟩, ht⟩ := h
  exact ⟨s, r, hs, hr, ht⟩

theorem at?_mem (h : d.at? chain = some s) : s ∈ d.steps := by
  cases chain with
  | nil => exact find?_mem h
  | cons n chain =>
    obtain ⟨_, _, _, _, ht⟩ := exists_of_at?_cons h
    exact find?_mem ht

/-- The ids along a chain, the last one first, when every reference leads forward in a row. -/
theorem exists_ids {row : List String}
    (hrow : ∀ s ∈ d.steps, ∀ r ∈ s.references, row.idxOf s.id < row.idxOf r.target)
    (h : d.at? chain = some s) :
    ∃ ids : List String, ids.length = chain.length ∧
      (s.id :: ids).Pairwise (fun v u => row.idxOf u < row.idxOf v) ∧
      ∀ id ∈ ids, id ∈ d.steps.map (·.id) := by
  induction chain generalizing s with
  | nil => exact ⟨[], rfl, List.pairwise_singleton .., nofun⟩
  | cons n chain ih =>
    obtain ⟨s', r, hs', hr, ht⟩ := exists_of_at?_cons h
    obtain ⟨ids, hlen, hids, hmem⟩ := ih hs'
    have hlt : row.idxOf s'.id < row.idxOf s.id := by
      rw [find?_id ht]
      exact hrow s' (at?_mem hs') r (List.mem_of_getElem? hr)
    refine ⟨s'.id :: ids, by simp [hlen], List.pairwise_cons.2 ⟨?_, hids⟩, ?_⟩
    · intro u hu
      rcases List.mem_cons.1 hu with rfl | hu
      · exact hlt
      · exact Nat.lt_trans ((List.pairwise_cons.1 hids).1 u hu) hlt
    · intro id hid
      rcases List.mem_cons.1 hid with rfl | hid
      · exact List.mem_map_of_mem (at?_mem hs')
      · exact hmem id hid

/-- **No chain of references is as long as there are steps.** -/
theorem Sound.length_lt (h : d.Sound) (hs : d.at? chain = some s) :
    chain.length < d.steps.length := by
  obtain ⟨row, hrow⟩ := h.exists_row
  obtain ⟨ids, hlen, hids, hmem⟩ := exists_ids hrow hs
  -- the ids along the chain stand in the order of the row, so none comes twice
  have hnodup : (s.id :: ids).Nodup := hids.imp fun {v u} hlt heq => by
    rw [heq] at hlt
    exact Nat.lt_irrefl _ hlt
  have hsub : s.id :: ids ⊆ d.steps.map (·.id) := by
    intro id hid
    rcases List.mem_cons.1 hid with rfl | hid
    · exact List.mem_map_of_mem (at?_mem hs)
    · exact hmem id hid
  have hle := (hnodup.subperm hsub).length_le
  simp only [List.length_cons, List.length_map, hlen] at hle
  omega

end Definition

/-! ### What the parts of a step refer to -/

namespace Step

variable {s : Step} {target : String}

theorem exists_reference_of_work (h : ∃ r ∈ s.work.references, r.target = target) :
    ∃ r ∈ s.references, r.target = target := by
  obtain ⟨r, hr, htarget⟩ := h
  exact ⟨r, List.mem_append_left _ hr, htarget⟩

theorem exists_reference_steps {steps : List String} (hwork : s.work = .sequence steps)
    (h : target ∈ steps) : ∃ r ∈ s.references, r.target = target :=
  exists_reference_of_work ⟨⟨.steps, target⟩, by rw [hwork]; exact List.mem_map_of_mem h, rfl⟩

theorem exists_reference_branches {branches : List String} (hwork : s.work = .parallel branches)
    (h : target ∈ branches) : ∃ r ∈ s.references, r.target = target :=
  exists_reference_of_work ⟨⟨.branches, target⟩, by rw [hwork]; exact List.mem_map_of_mem h, rfl⟩

/-- Wherever a condition leads, its work refers to. -/
theorem exists_reference_choice_work {choice : Choice} (hwork : s.work = .condition choice)
    {holds : Bool} (h : (if holds then choice.onSuccess else choice.onFailure) = some target) :
    ∃ r ∈ s.work.references, r.target = target := by
  rw [hwork]
  cases holds with
  | true =>
    have h : choice.onSuccess = some target := h
    exact ⟨⟨.onSuccess, target⟩, List.mem_append_left _ (by simp [h]), rfl⟩
  | false =>
    have h : choice.onFailure = some target := h
    exact ⟨⟨.onFailure, target⟩, List.mem_append_right _ (by simp [h]), rfl⟩

theorem exists_reference_choice {choice : Choice} (hwork : s.work = .condition choice)
    {holds : Bool} (h : (if holds then choice.onSuccess else choice.onFailure) = some target) :
    ∃ r ∈ s.references, r.target = target :=
  exists_reference_of_work (exists_reference_choice_work hwork h)

theorem exists_reference_next (h : s.next = some target) :
    ∃ r ∈ s.references, r.target = target :=
  ⟨⟨.next, target⟩, List.mem_append_right _ (by simp [h]), rfl⟩

end Step

namespace Definition

variable {d : Definition} {s t : Step} {n : Nat}

/-! ### Along the references -/

/-- Whether a step has a reference that leads to another one. -/
def Refers (d : Definition) (s t : Step) : Prop := ∃ r ∈ s.references, d.find? r.target = some t

theorem refers_of_find? {target : String} (h : ∃ r ∈ s.references, r.target = target)
    (ht : d.find? target = some t) : d.Refers s t := by
  obtain ⟨r, hr, rfl⟩ := h
  exact ⟨r, hr, ht⟩

theorem Refers.mem (h : d.Refers s t) : t ∈ d.steps := by
  obtain ⟨r, -, ht⟩ := h
  exact find?_mem ht

/-- A reference leads forward in a row in which all do. -/
theorem Refers.idxOf_lt (h : d.Refers s t) (hs : s ∈ d.steps) {row : List String}
    (hrow : ∀ s ∈ d.steps, ∀ r ∈ s.references, row.idxOf s.id < row.idxOf r.target) :
    row.idxOf s.id < row.idxOf t.id := by
  obtain ⟨r, hr, ht⟩ := h
  rw [find?_id ht]
  exact hrow s hs r hr

/-- **Induction along the references** of a sound definition, from their targets to the step that
has them. -/
theorem Sound.step_induction (h : d.Sound) {P : Step → Prop}
    (hP : ∀ s ∈ d.steps, (∀ t, d.Refers s t → P t) → P s) : ∀ s ∈ d.steps, P s := by
  obtain ⟨row, hrow⟩ := h.exists_row
  intro s hs
  -- by induction on how far the step is from the end of the row
  induction hn : row.length - row.idxOf s.id using Nat.strongRecOn generalizing s with
  | _ n ih =>
    refine hP s hs fun t ht => ih _ ?_ t ht.mem rfl
    have hlt := ht.idxOf_lt hs hrow
    have hle : row.idxOf t.id ≤ row.length := List.idxOf_le_length
    omega

section

variable {α : Type}

/-- Whether a rule that gives a value to a step looks at other steps only by its references. -/
def Downward (d : Definition) (rule : (Step → α) → Step → α) : Prop :=
  ∀ s ∈ d.steps, ∀ v v' : Step → α, (∀ t, d.Refers s t → v t = v' t) → rule v s = rule v' s

/-- Applying a rule more often than the row of the ids is long changes nothing. -/
theorem Downward.iterate_succ {rule : (Step → α) → Step → α} (h : d.Downward rule)
    {row : List String}
    (hrow : ∀ s ∈ d.steps, ∀ r ∈ s.references, row.idxOf s.id < row.idxOf r.target)
    {v : Step → α} (hs : s ∈ d.steps) (hn : row.length < n + row.idxOf s.id) :
    rule^[n + 1] v s = rule^[n] v s := by
  induction n generalizing s with
  | zero =>
    have hle : row.idxOf s.id ≤ row.length := List.idxOf_le_length
    omega
  | succ n ih =>
    rw [Function.iterate_succ_apply' rule (n + 1), Function.iterate_succ_apply' rule n]
    refine h s hs _ _ fun t ht => ?_
    have hlt := ht.idxOf_lt hs hrow
    rw [← Function.iterate_succ_apply' rule n]
    exact ih ht.mem (by omega)

/-- **In a sound definition every rule along the references can be satisfied** by all steps. -/
theorem Sound.exists_values [Inhabited α] (h : d.Sound) {rule : (Step → α) → Step → α}
    (hrule : d.Downward rule) : ∃ v : Step → α, ∀ s ∈ d.steps, v s = rule v s := by
  obtain ⟨row, hrow⟩ := h.exists_row
  refine ⟨rule^[row.length + 1] default, fun s hs => ?_⟩
  rw [← Function.iterate_succ_apply' rule]
  exact (hrule.iterate_succ hrow hs (by omega)).symm

end

end Definition

end Flowgraph

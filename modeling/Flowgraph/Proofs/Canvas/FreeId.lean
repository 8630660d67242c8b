import Flowgraph.Canvas.OfDefinition
import Flowgraph.Proofs.Definition.Normal

/-!
# Ids for the nodes of a canvas

The start and the end of a canvas are no steps, so their nodes need ids that no step has. `Search`
says how such an id is looked for, without a bound on the number of suffixes. A suffix makes an id
longer, and each id that is refused is that of a step: so the steps whose ids are at least as long
as the one that is tried become fewer with every suffix, and **as many suffixes as there are steps
are enough** (`exists_search`). The ids of the start and the end begin differently, so all nodes
are told apart by their ids if the steps are (`nodeIds_fresh`).
-/

set_option autoImplicit false

namespace Flowgraph.Canvas

/-- The search for an id that no step has: it begins with a text and puts a suffix to it for as
long as some step has it for an id, and ends after so many suffixes with an id. -/
inductive Search (steps : List Step) : String → Nat → String → Prop where
  | free {base : String} (h : ∀ s ∈ steps, s.id ≠ base) : Search steps base 0 base
  | taken {base id : String} {count : Nat} {s : Step} (hs : s ∈ steps) (hid : s.id = base)
      (h : Search steps (base ++ "-node") count id) : Search steps base (count + 1) id

variable {steps : List Step} {base id : String} {count fuel : Nat}

/-- The id that is found is free. -/
theorem Search.notMem (h : Search steps base count id) : ∀ s ∈ steps, s.id ≠ id := by
  induction h with
  | free h => exact h
  | taken _ _ _ ih => exact ih

/-- The id that is found begins with the text that the search began with. -/
theorem Search.opening (h : Search steps base count id) : ∃ rest, id = base ++ rest := by
  induction h with
  | free _ => exact ⟨"", by simp⟩
  | taken _ _ _ ih =>
    obtain ⟨rest, hrest⟩ := ih
    exact ⟨"-node" ++ rest, by rw [hrest, String.append_assoc]⟩

/-! ### The search ends -/

/-- The steps whose ids are at least as long as a text. -/
def atLeastAsLong (steps : List Step) (base : String) : List Step :=
  steps.filter (base.length ≤ ·.id.length)

/-- An id that is taken leaves fewer candidates for the next one. -/
theorem length_atLeastAsLong_lt {s : Step} (suffix : String) (hs : s ∈ steps) (hid : s.id = base)
    (hsuffix : 0 < suffix.length) :
    (atLeastAsLong steps (base ++ suffix)).length < (atLeastAsLong steps base).length := by
  have hlonger : atLeastAsLong steps (base ++ suffix) =
      (atLeastAsLong steps base).filter ((base ++ suffix).length ≤ ·.id.length) := by
    unfold atLeastAsLong
    rw [List.filter_filter]
    apply List.filter_congr
    intro t _
    simp only [String.length_append]
    by_cases h : base.length + suffix.length ≤ t.id.length
    · have hle : base.length ≤ t.id.length := by omega
      simp [h, hle]
    · simp [h]
  rw [hlonger]
  apply List.length_filter_lt_length_iff_exists.2
  refine ⟨s, List.mem_filter.2 ⟨hs, by simp [hid]⟩, fun hle => ?_⟩
  have hle := of_decide_eq_true hle
  rw [hid, String.length_append] at hle
  omega

/-- **The search ends** with the id that is computed, unless the bound on the number of suffixes is
too low. -/
theorem exists_search (h : (atLeastAsLong steps base).length ≤ fuel) :
    ∃ count ≤ (atLeastAsLong steps base).length,
      Search steps base count (freeId steps fuel base) := by
  induction fuel generalizing base with
  | zero =>
    -- no step is left that could have the id
    have hnone : atLeastAsLong steps base = [] := List.length_eq_zero_iff.1 (Nat.le_zero.1 h)
    refine ⟨0, Nat.zero_le _, .free fun s hs hid => ?_⟩
    have hmem : s ∈ atLeastAsLong steps base := List.mem_filter.2 ⟨hs, by simp [hid]⟩
    rw [hnone] at hmem
    cases hmem
  | succ fuel ih =>
    unfold freeId
    split
    · rename_i htaken
      obtain ⟨s, hs, hid⟩ := List.any_eq_true.1 htaken
      have hid : s.id = base := by simpa using hid
      have hlt := length_atLeastAsLong_lt "-node" hs hid (by decide)
      have hle : (atLeastAsLong steps (base ++ "-node")).length ≤ fuel := by omega
      obtain ⟨count, hcount, hsearch⟩ := ih hle
      exact ⟨count + 1, by omega, .taken hs hid hsearch⟩
    · rename_i hfree
      refine ⟨0, Nat.zero_le _, .free fun s hs hid => ?_⟩
      exact hfree (List.any_eq_true.2 ⟨s, hs, by simpa using hid⟩)

/-- As many suffixes as there are steps are enough. -/
theorem extraId_search (d : Definition) (base : String) :
    ∃ count ≤ d.steps.length, Search d.steps base count (extraId d base) := by
  have hle : (atLeastAsLong d.steps base).length ≤ d.steps.length := List.length_filter_le _ _
  obtain ⟨count, hcount, hsearch⟩ := exists_search hle
  exact ⟨count, Nat.le_trans hcount hle, hsearch⟩

/-- **No step has the id of an extra node.** -/
theorem extraId_notMem (d : Definition) (base : String) :
    ∀ s ∈ d.steps, s.id ≠ extraId d base := by
  obtain ⟨count, -, hsearch⟩ := extraId_search d base
  exact hsearch.notMem

/-! ### The nodes -/

theorem startId_ne_endId (d : Definition) : extraId d startName ≠ extraId d endName := by
  obtain ⟨_, -, hstart⟩ := extraId_search d startName
  obtain ⟨_, -, hend⟩ := extraId_search d endName
  obtain ⟨rest, hstart⟩ := hstart.opening
  obtain ⟨rest', hend⟩ := hend.opening
  intro heq
  rw [hstart, hend] at heq
  have hfirst := congrArg (·.toList.head?) heq
  simp [startName, endName] at hfirst

/-- The nodes of the steps have the ids of the steps. -/
theorem ids_mapIdx_nodeOf (d : Definition) :
    (d.steps.mapIdx fun i s => nodeOf s (heightOf i)).map (·.id) = d.ids := by
  apply List.ext_getElem?
  intro i
  rw [List.getElem?_map, List.getElem?_mapIdx, Option.map_map, Definition.ids, List.getElem?_map]
  rfl

theorem ids_nodes (d : Definition) : (ofDefinition d).nodes.map (·.id) =
    extraId d startName :: (d.ids ++ [extraId d endName]) := by
  rw [← ids_mapIdx_nodeOf]
  simp [ofDefinition, terminal]

theorem nodup_ids_nodes {d : Definition} (h : d.ids.Nodup) :
    ((ofDefinition d).nodes.map (·.id)).Nodup := by
  have hfresh (base : String) : extraId d base ∉ d.ids := by
    intro hmem
    obtain ⟨s, hs, hid⟩ := List.mem_map.1 hmem
    exact extraId_notMem d base s hs hid
  rw [ids_nodes, List.nodup_cons, List.nodup_append']
  refine ⟨fun hmem => ?_, h, List.nodup_singleton _, List.disjoint_singleton.2 (hfresh endName)⟩
  rcases List.mem_append.1 hmem with hmem | hmem
  · exact hfresh startName hmem
  · exact startId_ne_endId d (List.mem_singleton.1 hmem)

/-- **The ids of the extra nodes are fresh**, whatever the steps are called: the search for one
ends after at most as many suffixes as there are steps, with an id that no step has, and the start
and the end get different ones. So no two nodes share an id if no two steps do. -/
theorem nodeIds_fresh (d : Definition) :
    (∀ base, ∃ count ≤ d.steps.length, Search d.steps base count (extraId d base)) ∧
    (∀ base, ∀ s ∈ d.steps, s.id ≠ extraId d base) ∧
    extraId d startName ≠ extraId d endName ∧
    (ofDefinition d).nodes.map (·.id) = extraId d startName :: (d.ids ++ [extraId d endName]) ∧
    (d.ids.Nodup → ((ofDefinition d).nodes.map (·.id)).Nodup) :=
  ⟨extraId_search d, extraId_notMem d, startId_ne_endId d, ids_nodes d, nodup_ids_nodes⟩

/-- A definition whose steps have all the ids that the start is likely to get. -/
def crowded : Definition where
  name := "crowded"
  steps :=
    [ { id := "start-node-node", work := .sequence [] },
      { id := "start", work := .parallel ["start-node"] },
      { id := "start-node", work := .activity { activity := "log" } } ]

/-- It takes one suffix for each of them. -/
theorem nodeIds_fresh_crowded :
    crowded.ids.Nodup ∧ ((ofDefinition crowded).nodes.map (·.id)).Nodup ∧
      (ofDefinition crowded).nodes.map (·.id) =
        ["start-node-node-node", "start-node-node", "start", "start-node", "end"] := by
  have hids : crowded.ids.Nodup := by decide
  obtain ⟨-, -, -, hnodes, hnodup⟩ := nodeIds_fresh crowded
  exact ⟨hids, hnodup hids, hnodes.trans (by decide +kernel)⟩

end Flowgraph.Canvas

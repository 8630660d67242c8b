import Flowgraph.Proofs.Canvas.RoundTrip

/-!
# Canvases read, drawn and read again

A canvas may be drawn by hand, with edges that lead nowhere or come twice, with any handles and
labels, and with several starts. Whatever it looks like, the references of the definition that is
read off it come from edges between its steps (`exists_edge`), so they resolve, and its steps have
names. Such a definition leaves nothing open but perhaps the root, and so it is drawn faithfully:
**reading a canvas is stable** (`toDefinition_stable`).
-/

set_option autoImplicit false

namespace Flowgraph.Canvas

variable {c : Canvas} {node : Node} {e : Edge} {edges outgoing : List Edge} {t : Targets}
  {s : Step} {r : Reference}

/-! ### Where the targets of a condition come from -/

/-- Whether the targets of a condition are targets of some edges. -/
structure Targets.From (edges : List Edge) (t : Targets) : Prop where
  onSuccess : ∀ target, t.onSuccess = some target → ∃ e ∈ edges, e.target = target
  onFailure : ∀ target, t.onFailure = some target → ∃ e ∈ edges, e.target = target

namespace Targets.From

theorem empty : From edges {} := ⟨nofun, nofun⟩

theorem succeed (h : t.From edges) (he : e ∈ edges) :
    From edges { t with onSuccess := some e.target } where
  onSuccess _ htarget := ⟨e, he, Option.some.inj htarget⟩
  onFailure := h.onFailure

theorem fail (h : t.From edges) (he : e ∈ edges) :
    From edges { t with onFailure := some e.target } where
  onSuccess := h.onSuccess
  onFailure _ htarget := ⟨e, he, Option.some.inj htarget⟩

theorem byHandle (h : t.From edges) (he : e ∈ edges) : (t.byHandle e).From edges := by
  unfold Targets.byHandle
  split
  · exact h.succeed he
  · split
    · exact h.fail he
    · exact h

theorem byLabel (h : t.From edges) (he : e ∈ edges) (index : Nat) :
    (t.byLabel e index).From edges := by
  unfold Targets.byLabel
  split
  · exact h.succeed he
  · split
    · exact h.fail he
    · exact h

end Targets.From

/-- Whether by handles, labels or positions, a condition takes its targets from its edges. -/
theorem from_targetsOf (edges : List Edge) : (targetsOf edges).From edges := by
  have hhandled : (edges.foldl Targets.byHandle {}).From edges :=
    List.foldlRecOn edges _ .empty fun t ht e he => ht.byHandle he
  unfold targetsOf
  dsimp only
  split
  · refine List.foldlRecOn edges.zipIdx _ hhandled fun t ht entry hentry => ?_
    exact ht.byLabel (List.fst_mem_of_mem_zipIdx hentry) entry.2
  · exact hhandled

/-! ### Where the references of a step come from -/

/-- Targets of edges that are kept are targets of edges. -/
theorem exists_of_mem_targets {kept : List Edge} {target : String}
    (hmem : target ∈ kept.map (·.target)) (hkept : kept ⊆ outgoing) :
    ∃ e ∈ outgoing, e.target = target := by
  obtain ⟨e, he, rfl⟩ := List.mem_map.1 hmem
  exact ⟨e, hkept he, rfl⟩

/-- **Every reference of a step** that is read off a node is the target of one of its edges. -/
theorem exists_edge (h : r ∈ (stepOf node outgoing).references) :
    ∃ e ∈ outgoing, e.target = r.target := by
  have hothers : outgoing.filter (!·.leavesAt nextHandle) ⊆ outgoing := List.filter_subset_self _
  have hhandled : ∀ target, (outgoing.find? (·.leavesAt nextHandle)).map (·.target) = some target →
      ∃ e ∈ outgoing, e.target = target := by
    intro target htarget
    obtain ⟨e, he, rfl⟩ := Option.map_eq_some_iff.1 htarget
    exact ⟨e, List.mem_of_find?_eq_some he, rfl⟩
  have hfirst : ∀ target, outgoing.head?.map (·.target) = some target →
      ∃ e ∈ outgoing, e.target = target := by
    intro target htarget
    obtain ⟨e, he, rfl⟩ := Option.map_eq_some_iff.1 htarget
    exact ⟨e, List.mem_of_head? he, rfl⟩
  rcases List.mem_append.1 h with hwork | hnext
  · unfold stepOf at hwork
    cases hkind : node.data.kind with
    | condition =>
      rw [hkind] at hwork
      have hfrom := from_targetsOf (outgoing.filter (!·.leavesAt nextHandle))
      rcases List.mem_append.1 hwork with hwork | hwork
      · obtain ⟨target, htarget, rfl⟩ := Option.map_eq_some_iff.1 (Option.mem_toList.1 hwork)
        obtain ⟨e, he, htarget⟩ := hfrom.onSuccess target htarget
        exact ⟨e, hothers he, htarget⟩
      · obtain ⟨target, htarget, rfl⟩ := Option.map_eq_some_iff.1 (Option.mem_toList.1 hwork)
        obtain ⟨e, he, htarget⟩ := hfrom.onFailure target htarget
        exact ⟨e, hothers he, htarget⟩
    | parallel =>
      rw [hkind] at hwork
      obtain ⟨target, htarget, rfl⟩ := List.mem_map.1 hwork
      exact exists_of_mem_targets htarget hothers
    | sequence =>
      rw [hkind] at hwork
      obtain ⟨target, htarget, rfl⟩ := List.mem_map.1 hwork
      exact exists_of_mem_targets htarget (List.Subset.trans (List.filter_subset_self _) hothers)
    | activity | start | finish =>
      rw [hkind] at hwork
      cases hwork
  · obtain ⟨target, htarget, rfl⟩ := Option.map_eq_some_iff.1 (Option.mem_toList.1 hnext)
    unfold stepOf at htarget
    cases hkind : node.data.kind with
    | condition | parallel | sequence =>
      rw [hkind] at htarget
      exact hhandled target htarget
    | activity | start | finish =>
      rw [hkind] at htarget
      exact hfirst target htarget

/-! ### The definition of a canvas -/

theorem id_stepOf (node : Node) (outgoing : List Edge) : (stepOf node outgoing).id = node.id := by
  unfold stepOf
  cases node.data.kind <;> rfl

theorem name_stepOf (node : Node) (outgoing : List Edge) :
    (stepOf node outgoing).name = some node.data.label := by
  unfold stepOf
  cases node.data.kind <;> rfl

/-- The ids of the steps are those of the nodes that stand for steps. -/
theorem ids_toDefinition (c : Canvas) : c.toDefinition.ids = c.stepNodes.map (·.id) := by
  show c.steps.map (·.id) = _
  unfold steps
  rw [List.map_map]
  exact List.map_congr_left fun node _ => id_stepOf node _

theorem isSome_name (h : s ∈ c.toDefinition.steps) : s.name.isSome := by
  obtain ⟨node, -, rfl⟩ := List.mem_map.1 h
  rw [name_stepOf]
  rfl

/-- All references of the steps resolve. -/
theorem target_mem_ids (h : s ∈ c.toDefinition.steps) (hr : r ∈ s.references) :
    r.target ∈ c.toDefinition.ids := by
  obtain ⟨node, -, rfl⟩ := List.mem_map.1 h
  obtain ⟨e, he, htarget⟩ := exists_edge hr
  have hedge := (List.mem_filter.1 he).2
  rw [ids_toDefinition, ← htarget]
  exact (of_decide_eq_true hedge).2

/-- The root is the first step if the start leads to no named place. -/
theorem root_of_eq_empty (hstart : c.startTarget? ≠ some "") (h : c.toDefinition.root = "") :
    (c.toDefinition.steps.head?.map (·.id)).getD "" = "" := by
  have hroot : (c.startTarget? <|> c.steps.head?.map (·.id)).getD "" = "" := h
  cases htarget : c.startTarget? with
  | none =>
    rw [htarget] at hroot
    exact hroot
  | some target =>
    rw [htarget] at hroot
    exact absurd (htarget.trans (congrArg some hroot)) hstart

/-- **Reading a canvas is stable**: if the nodes of its steps have different ids and the first edge
of its start, if there is one, has a target, then drawing the definition that is read off it and
reading the drawing gives the same definition again. -/
theorem toDefinition_stable (hids : (c.stepNodes.map (·.id)).Nodup)
    (hstart : c.startTarget? ≠ some "") :
    (ofDefinition c.toDefinition).toDefinition = c.toDefinition := by
  rw [toDefinition_eq_normal (ids_toDefinition c ▸ hids)]
  exact Definition.normal_eq_self_of_root rfl (fun s hs => isSome_name hs)
    (root_of_eq_empty hstart) fun s hs r hr => target_mem_ids hs hr

/-- A canvas drawn by hand: it has two starts, of which the first shares its id with a step and leads
to nowhere, a condition whose edges have no handles, edges that come twice, and handles that mean
nothing. -/
def scribble : Canvas where
  name := "scribble"
  nodes :=
    [ ⟨"ask", "startNode", placeAt 0, { label := "go", kind := .start }⟩,
      ⟨"ask", "conditionNode", placeAt 0, { label := "ready?", kind := .condition }⟩,
      ⟨"say", "activityNode", placeAt 0,
        { label := "", activityName := some "log", kind := .activity }⟩,
      ⟨"say", "endNode", placeAt 0, { label := "stop", kind := .finish }⟩,
      ⟨"", "parallelNode", placeAt 0, { label := "both", kind := .parallel }⟩,
      ⟨"begin", "startNode", placeAt 0, { label := "or here", kind := .start }⟩ ]
  edges :=
    [ edge "ask" "gone" none (some "✗ Failure"), edge "ask" "say",
      edge "ask" "" none (some "✓ Success"), edge "ask" "ask" (some "next"),
      edge "say" "" (some "left"), edge "say" "ask", edge "" "say", edge "" "say" (some "step"),
      edge "" "gone", edge "" "ask" (some "next"), edge "" "" (some "next"),
      edge "begin" "say" ]

/-- What is read off it. -/
def scribbleRead : Definition where
  name := "scribble"
  root := "gone"
  steps :=
    [ { id := "ask", name := some "ready?", work := .condition { onSuccess := some "" },
        next := some "ask" },
      { id := "say", name := some "", work := .activity { activity := "log" }, next := some "" },
      { id := "", name := some "both", work := .parallel ["say", "say"], next := some "ask" } ]

/-- Drawn and read again, it is the same. -/
theorem toDefinition_scribble :
    (scribble.stepNodes.map (·.id)).Nodup ∧ scribble.startTarget? ≠ some "" ∧
      scribble.toDefinition = scribbleRead ∧
      (ofDefinition scribble.toDefinition).toDefinition = scribble.toDefinition := by
  have hids : (scribble.stepNodes.map (·.id)).Nodup := by decide
  have hstart : scribble.startTarget? ≠ some "" := by decide
  exact ⟨hids, hstart, by decide, toDefinition_stable hids hstart⟩

end Flowgraph.Canvas

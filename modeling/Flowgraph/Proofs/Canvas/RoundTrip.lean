import Flowgraph.Canvas.ToDefinition
import Flowgraph.Proofs.Canvas.FreeId
import Flowgraph.Proofs.Definition.Normal

/-!
# Definitions drawn and read back

Drawing a definition and reading it off the canvas again is **exactly normalisation**
(`toDefinition_ofDefinition`), as long as no two steps share an id. The edges of a step are told
apart by their source: those of the other steps have other ids, and so have the two extra nodes.
What is left of the edges of a step are those whose targets are steps (`outgoing_eq`), and from
them the step is put together again, kind by kind (`stepOf_nodeOf`).
-/

set_option autoImplicit false

namespace Flowgraph.Canvas

variable {d : Definition} {s : Step} {e : Edge} {known : List String}

/-! ### The edges of one step -/

/-- An edge for the work of a step leaves the step. -/
theorem source_of_mem_edgesOfWork {id : String} {w : Work} (h : e ∈ edgesOfWork id w) :
    e.source = id := by
  cases w with
  | activity call => cases h
  | condition choice =>
    rcases List.mem_append.1 h with h | h
    all_goals
      obtain ⟨target, -, rfl⟩ := Option.map_eq_some_iff.1 (Option.mem_toList.1 h)
      rfl
  | parallel branches =>
    obtain ⟨i, hi, rfl⟩ := List.mem_mapIdx.1 h
    rfl
  | sequence steps =>
    obtain ⟨i, hi, rfl⟩ := List.mem_mapIdx.1 h
    rfl

/-- An edge of a step leaves the step. -/
theorem source_of_mem_edgesOf (h : e ∈ edgesOf s) : e.source = s.id := by
  rcases List.mem_append.1 h with h | h
  · exact source_of_mem_edgesOfWork h
  · obtain ⟨target, -, rfl⟩ := Option.map_eq_some_iff.1 (Option.mem_toList.1 h)
    rfl

/-- Of the edges of some steps with different ids, those that leave one of them are its own. -/
theorem filter_edges {steps : List Step} (h : (steps.map (·.id)).Nodup) (hs : s ∈ steps) :
    ((steps.flatMap edgesOf).filter fun e => e.source = s.id ∧ e.target ∈ known) =
      (edgesOf s).filter (·.target ∈ known) := by
  have hother : ∀ t ∈ steps, t.id ≠ s.id →
      (edgesOf t).filter (fun e => e.source = s.id ∧ e.target ∈ known) = [] := by
    intro t ht hne
    apply List.filter_eq_nil_iff.2
    intro e he
    rw [source_of_mem_edgesOf he]
    simp [hne]
  induction steps with
  | nil => cases hs
  | cons t steps ih =>
    rw [List.map_cons, List.nodup_cons] at h
    rw [List.flatMap_cons, List.filter_append]
    rcases List.mem_cons.1 hs with rfl | hmem
    · -- no step after this one has its id
      have hrest : (steps.flatMap edgesOf).filter
          (fun e => e.source = s.id ∧ e.target ∈ known) = [] := by
        apply List.filter_eq_nil_iff.2
        intro e he
        obtain ⟨t, ht, he⟩ := List.mem_flatMap.1 he
        have hne : t.id ≠ s.id := fun heq => h.1 (heq ▸ List.mem_map_of_mem ht)
        rw [source_of_mem_edgesOf he]
        simp [hne]
      rw [hrest, List.append_nil]
      apply List.filter_congr
      intro e he
      simp [source_of_mem_edgesOf he]
    · have hne : t.id ≠ s.id := fun heq => h.1 (heq ▸ List.mem_map_of_mem hmem)
      rw [hother t (List.mem_cons_self ..) hne, List.nil_append]
      exact ih h.2 hmem fun t ht => hother t (List.mem_cons_of_mem _ ht)

/-- **The edges of a canvas that make up a step** are those that were drawn for it, without the
ones that lead to no step. -/
theorem outgoing_eq (h : d.ids.Nodup) (hs : s ∈ d.steps) :
    ((ofDefinition d).edges.filter fun e => e.source = s.id ∧ e.target ∈ d.ids) =
      (edgesOf s).filter (·.target ∈ d.ids) := by
  have hstart : (if d.root = "" then [] else [edge (extraId d startName) d.root]).filter
      (fun e => e.source = s.id ∧ e.target ∈ d.ids) = [] := by
    apply List.filter_eq_nil_iff.2
    intro e he
    split at he
    · cases he
    · have hne := extraId_notMem d startName s hs
      rw [List.mem_singleton.1 he]
      simp [edge, Ne.symm hne]
  have hend : ((d.steps.getLast?.filter isLast).map fun s =>
      edge s.id (extraId d endName)).toList.filter
        (fun e => e.source = s.id ∧ e.target ∈ d.ids) = [] := by
    apply List.filter_eq_nil_iff.2
    intro e he
    obtain ⟨t, -, rfl⟩ := Option.map_eq_some_iff.1 (Option.mem_toList.1 he)
    have hnot : extraId d endName ∉ d.ids := by
      intro hmem
      obtain ⟨u, hu, hid⟩ := List.mem_map.1 hmem
      exact extraId_notMem d endName u hu hid
    simp [edge, hnot]
  show ((_ ++ d.steps.flatMap edgesOf) ++ _).filter _ = _
  rw [List.filter_append, List.filter_append, hstart, hend, List.nil_append, List.append_nil,
    filter_edges h hs]

/-! ### Putting a step together again -/

/-- The targets of edges that are kept are the targets that are kept. -/
theorem targets_filter_mapIdx {targets : List String} {f : Nat → String → Edge}
    (hf : ∀ i t, (f i t).target = t) :
    ((targets.mapIdx f).filter (·.target ∈ known)).map (·.target) =
      targets.filter (· ∈ known) := by
  induction targets generalizing f with
  | nil => rfl
  | cons t targets ih =>
    have hrest := ih fun i t => hf (i + 1) t
    rw [List.mapIdx_cons, List.filter_cons, List.filter_cons, hf 0 t]
    split
    · rw [List.map_cons, hrest, hf 0 t]
    · exact hrest

/-- An edge that is there is kept if its target is. -/
theorem filter_toList_map {target : Option String} {f : String → Edge}
    (hf : ∀ t, (f t).target = t) :
    (target.map f).toList.filter (·.target ∈ known) =
      ((target.filter (· ∈ known)).map f).toList := by
  cases target with
  | none => rfl
  | some t =>
    rw [Option.filter_some, Option.map_some, Option.toList_some, List.filter_cons, hf t]
    split <;> rfl

/-- No edge for the work of a step has the handle of the next step. -/
theorem leavesAt_of_mem_edgesOfWork {id : String} {w : Work} (h : e ∈ edgesOfWork id w) :
    e.leavesAt nextHandle = false := by
  cases w with
  | activity call => cases h
  | condition choice =>
    rcases List.mem_append.1 h with h | h
    all_goals
      obtain ⟨target, -, rfl⟩ := Option.map_eq_some_iff.1 (Option.mem_toList.1 h)
      rfl
  | parallel branches =>
    obtain ⟨i, hi, rfl⟩ := List.mem_mapIdx.1 h
    rfl
  | sequence steps =>
    obtain ⟨i, hi, rfl⟩ := List.mem_mapIdx.1 h
    rfl

/-- The edges that are kept of a step: those of its work, and the one to its next step. -/
theorem filter_edgesOf : (edgesOf s).filter (·.target ∈ known) =
    (edgesOfWork s.id s.work).filter (·.target ∈ known) ++
      ((s.next.filter (· ∈ known)).map fun t => edge s.id t (match s.work with
        | .activity _ => none
        | _ => some nextHandle)).toList := by
  rw [edgesOf, List.filter_append, nextEdge]
  exact congrArg (_ ++ ·) (filter_toList_map fun t => rfl)

/-- Edges without the handle of the next step, and the edge with it. -/
theorem split_next (edges : List Edge) (h : ∀ e ∈ edges, e.leavesAt nextHandle = false)
    (id : String) (next : Option String) :
    let outgoing := edges ++ (next.map fun t => edge id t (some nextHandle)).toList
    outgoing.filter (!·.leavesAt nextHandle) = edges ∧
      (outgoing.find? (·.leavesAt nextHandle)).map (·.target) = next := by
  have hnone : edges.find? (·.leavesAt nextHandle) = none :=
    List.find?_eq_none.2 fun e he => by simp [h e he]
  have hall : edges.filter (!·.leavesAt nextHandle) = edges :=
    List.filter_eq_self.2 fun e he => by simp [h e he]
  dsimp only
  rw [List.filter_append, List.find?_append, hnone, hall]
  cases next with
  | none => exact ⟨List.append_nil _, rfl⟩
  | some t => exact ⟨List.append_nil _, rfl⟩

/-- The targets that the edges of a condition stand for, whichever of them are left. -/
theorem targetsOf_edges (id : String) (onSuccess onFailure : Option String) :
    targetsOf ((onSuccess.map fun t => edge id t (some successHandle) (some successLabel)).toList ++
        (onFailure.map fun t => edge id t (some failureHandle) (some failureLabel)).toList) =
      ⟨onSuccess, onFailure⟩ := by
  cases onSuccess <;> cases onFailure <;> rfl

theorem getD_given (arguments : Arguments) : (given arguments).getD [] = arguments := by
  cases arguments <;> rfl

/-- **A step is put together again** from the edges that are left of it. -/
theorem stepOf_nodeOf (s : Step) (y : Nat) :
    stepOf (nodeOf s y) ((edgesOf s).filter (·.target ∈ known)) = s.normal known := by
  obtain ⟨id, name, work, next⟩ := s
  have hnext := split_next ((edgesOfWork id work).filter (·.target ∈ known))
    (fun e he => leavesAt_of_mem_edgesOfWork (List.mem_of_mem_filter he)) id
    (next.filter (· ∈ known))
  rw [filter_edgesOf]
  cases work with
  | activity call =>
    -- an activity takes its first edge for the next step, and has no other one
    have hfirst : (((next.filter (· ∈ known)).map fun t => edge id t none).toList.head?).map
        (·.target) = next.filter (· ∈ known) := by
      cases next.filter (· ∈ known) <;> rfl
    simp only [stepOf, nodeOf, dataOf, edgesOfWork, List.filter_nil, List.nil_append, hfirst,
      getD_given, Option.getD_some, Step.normal, Work.keep]
  | condition choice =>
    obtain ⟨hothers, hnext⟩ := hnext
    have htargets := targetsOf_edges id (choice.onSuccess.filter (· ∈ known))
      (choice.onFailure.filter (· ∈ known))
    simp only [stepOf, nodeOf, dataOf, hothers, hnext, getD_given, Step.normal, Work.keep]
    rw [edgesOfWork, List.filter_append, filter_toList_map fun t => rfl,
      filter_toList_map fun t => rfl, htargets]
  | parallel branches =>
    obtain ⟨hothers, hnext⟩ := hnext
    simp only [stepOf, nodeOf, dataOf, hothers, hnext, Step.normal, Work.keep]
    rw [edgesOfWork, targets_filter_mapIdx fun i t => rfl]
  | sequence steps =>
    obtain ⟨hothers, hnext⟩ := hnext
    have hsteps : ((edgesOfWork id (.sequence steps)).filter (·.target ∈ known)).filter
        (·.leavesAt stepHandle) =
          (edgesOfWork id (.sequence steps)).filter (·.target ∈ known) := by
      apply List.filter_eq_self.2
      intro e he
      obtain ⟨i, hi, rfl⟩ := List.mem_mapIdx.1 (List.mem_of_mem_filter he)
      rfl
    simp only [stepOf, nodeOf, dataOf, hothers, hnext, hsteps, Step.normal, Work.keep]
    rw [edgesOfWork, targets_filter_mapIdx fun i t => rfl]

/-! ### The whole definition -/

theorem isTerminal_dataOf (s : Step) : (dataOf s).kind.isTerminal = false := by
  unfold dataOf
  cases s.work <;> rfl

/-- The nodes that stand for steps are those that were drawn for them. -/
theorem stepNodes_ofDefinition (d : Definition) :
    (ofDefinition d).stepNodes = d.steps.mapIdx fun i s => nodeOf s (heightOf i) := by
  have hall : (d.steps.mapIdx fun i s => nodeOf s (heightOf i)).filter
      (!·.data.kind.isTerminal) = d.steps.mapIdx fun i s => nodeOf s (heightOf i) := by
    apply List.filter_eq_self.2
    intro node hnode
    obtain ⟨i, hi, rfl⟩ := List.mem_mapIdx.1 hnode
    have hkind := isTerminal_dataOf d.steps[i]
    simpa [nodeOf] using hkind
  unfold stepNodes ofDefinition
  dsimp only
  rw [List.filter_append, List.filter_cons_of_neg (by simp [terminal, NodeKind.isTerminal]),
    hall]
  simp [terminal, NodeKind.isTerminal]

theorem ids_stepNodes (d : Definition) : (ofDefinition d).stepNodes.map (·.id) = d.ids := by
  rw [stepNodes_ofDefinition, ids_mapIdx_nodeOf]

/-- The steps of the canvas are the normal forms of the steps that were drawn. -/
theorem steps_ofDefinition (h : d.ids.Nodup) :
    (ofDefinition d).steps = d.steps.map (Step.normal d.ids) := by
  unfold steps
  dsimp only
  rw [ids_stepNodes, stepNodes_ofDefinition]
  apply List.ext_getElem?
  intro i
  simp only [List.getElem?_map, List.getElem?_mapIdx, Option.map_map]
  cases hs : d.steps[i]? with
  | none => rfl
  | some s =>
    have hedges := outgoing_eq h (List.mem_of_getElem? hs)
    simp only [Option.map_some, Function.comp_apply, Option.some.injEq]
    rw [← stepOf_nodeOf s (heightOf i), ← hedges]
    rfl

/-- The start of a canvas leads to the root, if there is one. -/
theorem startTarget?_ofDefinition (d : Definition) :
    (ofDefinition d).startTarget? = if d.root = "" then none else some d.root := by
  have hfind : (ofDefinition d).startTarget? =
      ((ofDefinition d).edges.find? (·.source = extraId d startName)).map (·.target) := rfl
  rw [hfind]
  split
  · rename_i hroot
    -- all other edges leave steps, and the start is none
    have hnone : (ofDefinition d).edges.find? (·.source = extraId d startName) = none := by
      apply List.find?_eq_none.2
      intro e he
      have hsource : ∃ s ∈ d.steps, e.source = s.id := by
        simp only [ofDefinition, if_pos hroot, List.nil_append, List.mem_append,
          List.mem_flatMap] at he
        rcases he with ⟨s, hs, he⟩ | he
        · exact ⟨s, hs, source_of_mem_edgesOf he⟩
        · obtain ⟨s, hs, rfl⟩ := Option.map_eq_some_iff.1 (Option.mem_toList.1 he)
          obtain ⟨hs, -⟩ := Option.filter_eq_some_iff.1 hs
          exact ⟨s, List.mem_of_getLast? hs, rfl⟩
      obtain ⟨s, hs, hid⟩ := hsource
      rw [hid]
      simpa using extraId_notMem d startName s hs
    rw [hnone]
    rfl
  · rename_i hroot
    simp [ofDefinition, hroot, edge]

/-- A definition that is drawn and read back is in normal form. -/
theorem toDefinition_eq_normal (h : d.ids.Nodup) : (ofDefinition d).toDefinition = d.normal := by
  have hfirst : (ofDefinition d).steps.head?.map (·.id) = d.steps.head?.map (·.id) := by
    rw [steps_ofDefinition h, List.head?_map, Option.map_map]
    rfl
  have hroot : ((ofDefinition d).startTarget? <|>
      (ofDefinition d).steps.head?.map (·.id)).getD "" = d.normal.root := by
    rw [startTarget?_ofDefinition, hfirst]
    unfold Definition.normal
    split <;> rfl
  unfold toDefinition
  rw [hroot, steps_ofDefinition h]
  rfl

/-- **Drawing a definition and reading it back is normalisation**, and so nothing at all for a
definition that leaves nothing open. -/
theorem toDefinition_ofDefinition (h : d.ids.Nodup) :
    (ofDefinition d).toDefinition = d.normal ∧
      (d.version = "1.0" → (∀ s ∈ d.steps, s.name.isSome) → d.root ≠ "" →
        (∀ s ∈ d.steps, ∀ r ∈ s.references, r.target ∈ d.ids) →
          (ofDefinition d).toDefinition = d) := by
  refine ⟨toDefinition_eq_normal h, fun hversion hnames hroot htargets => ?_⟩
  rw [toDefinition_eq_normal h, Definition.normal_eq_self hversion hnames hroot htargets]

/-- A definition that leaves much open and takes the ids that a canvas likes to give away: a
sequence of steps with a repeated and a missing child, branches that lead back, a choice with one
good and one bad outcome. -/
def crossed : Definition where
  name := "crossed"
  description := some "all kinds of steps"
  version := "0.3"
  steps :=
    [ { id := "start", work := .sequence ["end", "gone", "end"], next := some "start-node" },
      { id := "end", name := some "last",
        work := .activity ⟨"log", [("b", .string "x"), ("a", .null)], some "seen"⟩,
        next := some "gone" },
      { id := "start-node", work := .parallel ["gone", "start", "end-node", "start"] },
      { id := "end-node", name := some "choice",
        work := .condition ⟨[("variable", .string "seen")], some "lost", some "end-node"⟩,
        next := some "end" } ]

/-- What is left of it once it has been drawn. -/
def crossedOnce : Definition where
  name := "crossed"
  description := some "all kinds of steps"
  version := "1.0"
  root := "start"
  steps :=
    [ { id := "start", name := some "start", work := .sequence ["end", "end"],
        next := some "start-node" },
      { id := "end", name := some "last",
        work := .activity ⟨"log", [("b", .string "x"), ("a", .null)], some "seen"⟩ },
      { id := "start-node", name := some "start-node",
        work := .parallel ["start", "end-node", "start"] },
      { id := "end-node", name := some "choice",
        work := .condition ⟨[("variable", .string "seen")], none, some "end-node"⟩,
        next := some "end" } ]

/-- Drawing it once settles what it leaves open, and drawing it again changes nothing. -/
theorem toDefinition_crossed :
    crossed.ids.Nodup ∧ (ofDefinition crossed).toDefinition = crossedOnce ∧
      (ofDefinition crossedOnce).toDefinition = crossedOnce := by
  have hids : crossed.ids.Nodup := by decide
  have hidsOnce : crossedOnce.ids.Nodup := by decide
  refine ⟨hids, ?_, (toDefinition_ofDefinition hidsOnce).2 rfl (by decide) (by decide) (by decide)⟩
  have hnormal : crossed.normal = crossedOnce := by decide
  rw [(toDefinition_ofDefinition hids).1, hnormal]

end Flowgraph.Canvas

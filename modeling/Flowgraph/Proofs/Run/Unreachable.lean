import Flowgraph.Proofs.Definition.Cycles
import Flowgraph.Proofs.Definition.Findings
import Flowgraph.Proofs.Run.Replay
import Flowgraph.Proofs.Run.Verdict

/-!
# Steps that nothing leads to

A check warns of the steps that no path of references leads to from the root. It does so exactly
(`warnings_eq`): no other finding has this wording (`Defect.message_eq_iff`), and the search finds
what paths lead to. A run only enters steps at addresses, which are such paths (`path_of_at?`), so
a step with this warning is never begun, whatever the invoker does and whichever task works first
(`unreachable_exact`).
-/

set_option autoImplicit false

namespace Flowgraph

open Relation

/-! ### The wording of the warning -/

theorem Text.prefix_append {p s : String} (h : p.toList <+: s.toList) (t : String) :
    p.toList <+: (s ++ t).toList := by
  rw [String.toList_append]
  exact h.trans (List.prefix_append ..)

theorem Text.ne_of_opening {p s t : String} (hs : p.toList <+: s.toList)
    (ht : ¬ p.toList <+: t.toList) : s ≠ t := by
  rintro rfl
  exact ht hs

open Text in
/-- No other defect is worded like a step that is unreachable. -/
theorem Defect.message_eq_iff {defect : Defect} :
    defect.message = "step is unreachable from the root" ↔ defect = .unreachable := by
  refine ⟨fun h => ?_, fun h => h ▸ rfl⟩
  -- the wordings differ at the latest in what comes before the first name in them
  have hone (p s : String) : p.toList <+: (p ++ s).toList := prefix_append List.prefix_rfl _
  have htwo (p s t : String) : p.toList <+: (p ++ s ++ t).toList := prefix_append (hone p s) _
  cases defect with
  | unreachable => rfl
  | rootUnknown root => exact absurd h (ne_of_opening (htwo ..) (by decide))
  | targetUnknown link target =>
    exact absurd h (ne_of_opening (htwo ..) (by cases link <;> decide))
  | targetItself link => exact absurd h (by cases link <;> decide)
  | operatorUnknown name => exact absurd h (ne_of_opening (htwo ..) (by decide))
  | cycle ids => exact absurd h (ne_of_opening (hone ..) (by decide))
  | activityUnknown name => exact absurd h (ne_of_opening (htwo ..) (by decide))
  | argument issue =>
    exact absurd h (ne_of_opening (prefix_append (htwo ..) _) (by decide))
  | _ => exact absurd h (by decide)

/-- It is all that the search from the root finds. -/
theorem Defect.eq_unreachable_iff {defect : Defect} :
    defect = .unreachable ↔ defect.concern = .reach := by
  cases defect <;> simp [concern]

/-! ### The steps with the warning -/

namespace Definition

variable {d : Definition} {s t : Step}

open scoped Classical in
/-- **The warnings are exact.** -/
theorem warnings_eq (hroot : d.root ∈ d.knownIds) :
    (d.check.map Finding.toIssue).filter (·.message = "step is unreachable from the root") =
      (d.steps.filter fun s => s.id ≠ "" ∧ ¬ ReflTransGen d.Links d.root s.id).map
        fun s => ⟨.warning, some s.id, "step is unreachable from the root"⟩ := by
  have hreach : d.check.filter (fun f => f.toIssue.message = "step is unreachable from the root") =
      d.reachFindings := by
    rw [show d.reachFindings = d.findingsOn .reach from rfl, ← filter_check]
    refine List.filter_congr fun f _ => ?_
    rw [decide_eq_decide]
    exact Defect.message_eq_iff.trans Defect.eq_unreachable_iff
  have hsteps : d.steps.filter (fun s => s.id ≠ "" ∧ s.id ∉ d.graph.reachable d.root) =
      d.steps.filter fun s => s.id ≠ "" ∧ ¬ ReflTransGen d.Links d.root s.id := by
    refine List.filter_congr fun s _ => ?_
    rw [decide_eq_decide, Graph.mem_reachable, edge_graph_eq]
  rw [List.filter_map]
  simp only [Function.comp_def]
  rw [hreach, reachFindings, if_pos hroot, ← hsteps, List.map_map]
  rfl

/-- No path leads from the root to a step with the warning. -/
theorem no_path_of_warning (hroot : d.root ∈ d.knownIds) {id : String}
    (h : ⟨.warning, some id, "step is unreachable from the root"⟩ ∈ d.check.map Finding.toIssue) :
    ¬ ReflTransGen d.Links d.root id := by
  classical
  have hwarning : ⟨.warning, some id, "step is unreachable from the root"⟩ ∈
      (d.check.map Finding.toIssue).filter (·.message = "step is unreachable from the root") :=
    List.mem_filter.2 ⟨h, decide_eq_true rfl⟩
  rw [warnings_eq hroot] at hwarning
  obtain ⟨s, hs, hissue⟩ := List.mem_map.1 hwarning
  obtain rfl : s.id = id := Option.some.inj (Issue.mk.inj hissue).2.1
  simpa using (of_decide_eq_true (List.mem_filter.1 hs).2).2

/-! ### The steps that a run begins -/

/-- The address of a step is a path of references that leads to it. -/
theorem Sound.path_of_at? (h : d.Sound) {chain : List Nat} (hs : d.at? chain = some s) :
    ReflTransGen d.Links d.root s.id := by
  induction chain generalizing s with
  | nil => rw [find?_id hs]
  | cons n chain ih =>
    obtain ⟨t, r, ht, hr, hfind⟩ := exists_of_at?_cons hs
    have hmem : t ∈ d.steps := at?_mem ht
    have href : r ∈ t.references := List.mem_of_getElem? hr
    have hknown := mem_knownIds.1 (h.target_known hmem href)
    refine (ih ht).tail ?_
    rw [find?_id hfind]
    exact ⟨⟨t, hmem, rfl, r, href, rfl⟩, hknown.1, Text.visible_iff.2 hknown.2⟩

end Definition

namespace Run

variable {d : Definition} {invoker : Invoker} {input : Store} {x : Scene} {s : Step}

/-- Only steps that a path leads to are entered. -/
theorem Scene.Reaches.path_of_entered (h : Scene.Reaches invoker (.opening d input) x)
    (hsound : d.Sound) {e : Entry} (he : e ∈ x.ledger.history) (hdeed : e.deed = .entered s) :
    ReflTransGen d.Links d.root s.id := by
  obtain ⟨-, hlocated⟩ := h.placed.entries e he
  rw [hdeed] at hlocated
  exact hsound.path_of_at? hlocated

/-- Only steps that a path leads to are reported to start. -/
theorem Scene.Reaches.path_of_started (h : Scene.Reaches invoker (.opening d input) x)
    (hsound : d.Sound) {run : Progress} (hrun : run ∈ x.machine.runs) {id kind : String}
    (hstarted : Event.stepStarted id kind ∈ run.events) :
    ReflTransGen d.Links d.root id := by
  obtain ⟨run', hruns, hevents, -⟩ := h.recorded
  rw [hruns, List.mem_singleton] at hrun
  subst hrun
  rw [hevents, reported, List.mem_filterMap] at hstarted
  obtain ⟨e, he, hevent⟩ := hstarted
  obtain ⟨s, hdeed, rfl, -⟩ := Deed.event?_eq_started.1 hevent
  exact h.path_of_entered hsound he hdeed

open scoped Classical in
/-- **The warnings about steps that nothing leads to are exact and sound.** If the root is a known
id, the search from there ends, and there is one warning for each step with an id, in the order of
the steps, to which no path of references leads. In a run of a definition without errors, whatever
the input and the invoker and in whatever order tasks work, no step with the warning is entered or
reported to start. -/
theorem unreachable_exact (d : Definition) :
    (d.root ∈ d.knownIds →
      (∀ fuel, 1 + d.graph.edges < fuel →
        d.graph.search fuel [] [d.root] = some (d.graph.reachable d.root)) ∧
      (d.check.map Finding.toIssue).filter (·.message = "step is unreachable from the root") =
        (d.steps.filter fun s => s.id ≠ "" ∧ ¬ ReflTransGen d.Links d.root s.id).map
          fun s => ⟨.warning, some s.id, "step is unreachable from the root"⟩) ∧
    (d.Sound → ∀ (invoker : Invoker) (input : Store) (x : Scene),
      Scene.Reaches invoker (.opening d input) x → ∀ s ∈ d.steps,
        ⟨.warning, some s.id, "step is unreachable from the root"⟩ ∈ d.check.map Finding.toIssue →
        (∀ e ∈ x.ledger.history, e.deed ≠ .entered s) ∧
        ∀ run ∈ x.machine.runs, ∀ kind, Event.stepStarted s.id kind ∉ run.events) := by
  refine ⟨fun hroot => ⟨fun fuel hfuel => Graph.search_eq Definition.graph_wellFormed hfuel,
    Definition.warnings_eq hroot⟩, ?_⟩
  intro hsound invoker input x hreach s hs hwarning
  have hpath := Definition.no_path_of_warning hsound.root_known hwarning
  exact ⟨fun e he hdeed => hpath (hreach.path_of_entered hsound he hdeed),
    fun run hrun kind hstarted => hpath (hreach.path_of_started hsound hrun hstarted)⟩

/-- A workflow with a step that nothing leads to, though it leads to another one. -/
def spare : Definition where
  name := "spare"
  root := "both"
  steps := [
    { id := "both", work := .parallel ["tea"] },
    { id := "tea", work := .activity { activity := "brew" } },
    { id := "lost", work := .sequence ["tea"], next := some "both" }]

/-- The run succeeds without the step. -/
theorem unreachable_exact_spare :
    spare.root ∈ spare.knownIds ∧ spare.Sound ∧
      spare.graph.search 7 [] ["both"] = some (spare.graph.reachable "both") ∧
      ⟨.warning, some "lost", "step is unreachable from the root"⟩ ∈
        spare.check.map Finding.toIssue ∧
      ((Scene.next slowly)^[20] (Scene.opening spare [])).machine.runs.map (·.outcome) =
        [some .done] ∧
      ∀ run ∈ ((Scene.next slowly)^[20] (Scene.opening spare [])).machine.runs, ∀ kind,
        Event.stepStarted "lost" kind ∉ run.events := by
  have hsound : spare.Sound := Definition.sound_iff.2 (by decide +kernel)
  have hsearch := ((unreachable_exact spare).1 hsound.root_known).1 7 (by decide +kernel)
  have hreached : spare.graph.reachable "both" = ["tea", "both"] :=
    Option.some.inj (hsearch.symm.trans (by decide +kernel))
  have hwarning : ⟨.warning, some "lost", "step is unreachable from the root"⟩ ∈
      spare.check.map Finding.toIssue := by
    refine List.mem_map.2 ⟨⟨some "lost", .unreachable⟩, List.mem_append_right _ ?_, rfl⟩
    have hlost : "lost" ∉ spare.graph.reachable spare.root := by
      rw [show spare.root = "both" from rfl, hreached]
      decide
    rw [Definition.reachFindings, if_pos hsound.root_known]
    exact List.mem_map.2 ⟨{ id := "lost", work := .sequence ["tea"], next := some "both" },
      List.mem_filter.2 ⟨by decide, decide_eq_true ⟨by decide, hlost⟩⟩, rfl⟩
  have hnever := (unreachable_exact spare).2 hsound slowly [] _ (Scene.reaches_iterate 20)
    { id := "lost", work := .sequence ["tea"], next := some "both" } (by decide) hwarning
  exact ⟨hsound.root_known, hsound, hsearch, hwarning, by decide +kernel, hnever.2⟩

end Run

end Flowgraph

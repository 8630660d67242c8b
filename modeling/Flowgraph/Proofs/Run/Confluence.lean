import Flowgraph.Proofs.Run.Ascending
import Flowgraph.Proofs.Run.Settling
import Flowgraph.Proofs.Run.Termination

/-!
# The schedule does not matter

If the branches of every step keep to variables of their own (`Definition.Separate`), then a sound
definition comes to the same in every run on the same input, however long the activities take, as
long as they give the same results (`Sound.confluent`): either all runs fail, or all succeed and
end with the same variables. Which failure a failed run reports may well depend on the delays.
-/

set_option autoImplicit false

namespace Flowgraph

namespace Run

open Assoc (Ascending)
open Change

variable {d : Definition} {invoker : Invoker} {f : Invocation → Activity.Result}
  {input : Store} {x : Scene}

/-- What it means for a run that it has ended with what a change makes of the input: with these
variables if there are any, and with a failure otherwise. -/
structure Progress.ComesTo (run : Progress) (input : Store) (c : Change) : Prop where
  returned : run.outcome.isSome
  values : c (Store.values input) =
    if run.outcome = some .done then some (Store.values run.store) else none
  ascending : Ascending input → Ascending run.store

/-- **Runs that come to the same** succeed together, with the same variables. -/
theorem Progress.ComesTo.agree {run run' : Progress} {c : Change} (h : run.ComesTo input c)
    (h' : run'.ComesTo input c) : (run.outcome = some .done ↔ run'.outcome = some .done) ∧
      (run.outcome = some .done → Store.values run'.store = Store.values run.store ∧
        (Ascending input → run'.store = run.store)) := by
  have hsame := h.values.symm.trans h'.values
  by_cases hdone : run.outcome = some .done
  · rw [if_pos hdone] at hsame
    by_cases hdone' : run'.outcome = some .done
    · rw [if_pos hdone'] at hsame
      have hvalues := (Option.some.inj hsame).symm
      exact ⟨iff_of_true hdone hdone', fun _ => ⟨hvalues, fun hinput =>
        (h'.ascending hinput).ext (h.ascending hinput) (congrFun hvalues)⟩⟩
    · rw [if_neg hdone'] at hsame
      cases hsame
  · rw [if_neg hdone] at hsame
    by_cases hdone' : run'.outcome = some .done
    · rw [if_pos hdone'] at hsame
      cases hsame
    · exact ⟨iff_of_false hdone hdone', fun hfalse => absurd hfalse hdone⟩

/-- **A run that has returned comes to what the root means.** -/
theorem Scene.Reaches.comesTo (hsound : d.Sound) (hseparate : d.Separate) {e : Step → Change}
    (hmeans : Means d e f) (hanswers : invoker.Answers f)
    (h : Scene.Reaches invoker (Scene.opening d input) x)
    (hreturned : ∃ outcome, x.machine.runs.map (·.outcome) = [some outcome]) :
    ∃ run, x.machine.runs = [run] ∧ run.ComesTo input (toward d e d.root) := by
  obtain ⟨run, hrun, -, hended⟩ := h.recorded
  obtain ⟨⟨run', hrun', hstore⟩, -⟩ := h.replay
  obtain rfl := List.singleton_inj.1 (hrun.symm.trans hrun')
  have hreturned : run.outcome.isSome := by
    obtain ⟨outcome, houtcome⟩ := hreturned
    rw [hrun] at houtcome
    exact Option.isSome_iff_exists.2 ⟨outcome, List.singleton_inj.1 houtcome⟩
  refine ⟨run, hrun, hreturned, ?_, fun hinput => hstore ▸ ascending_replay hinput⟩
  rw [hended] at hreturned
  rw [h.settled hsound hseparate hmeans hanswers hreturned, hstore, hended]

/-- With enough fuel, a machine returns and comes to what the root means. -/
theorem Scene.run_comesTo (hsound : d.Sound) (hseparate : d.Separate) {e : Step → Change}
    (hmeans : Means d e f) (hanswers : invoker.Answers f) {w : Step → Nat} (hweight : d.Weighed w)
    (stop : Bool) {fuel : Nat} (hfuel : (opening d input).machine.weight d w < fuel) :
    ∃ run, (Machine.run invoker (fun m => stop && m.isOver 0) none fuel
      (({} : Machine).launch d input)).map (·.runs) = some [run] ∧
        run.ComesTo input (toward d e d.root) := by
  have hopening : Reaches invoker (opening d input) (opening d input) := .refl
  have hwanted : ∀ m : Machine, (stop && m.isOver 0) = true → m.isOver 0 = true :=
    fun m hstop => (Bool.and_eq_true_iff.1 hstop).2
  obtain ⟨x, hx, hrun, hreturned⟩ := hopening.run_returns hweight hwanted hfuel
  obtain ⟨run, hruns, hcomes⟩ := hx.comesTo hsound hseparate hmeans hanswers hreturned
  refine ⟨run, ?_, hcomes⟩
  rw [← hruns]
  exact congrArg (Option.map (·.runs)) hrun

end Run

open Run

/-- **The schedule does not matter** for a sound definition whose branches keep to variables of
their own. Whatever the delays of the activities are, if their results are the same for the same
calls, then all runs return; and they all fail, or all succeed with the same variables. So it is
whether the machine is stopped when its run has returned or works on. -/
theorem Definition.Sound.confluent {d : Definition} (hsound : d.Sound) (hseparate : d.Separate) :
    ∃ enough, ∀ (f : Invocation → Activity.Result) (invoker invoker' : Invoker) (input : Store)
      (stop : Bool) (fuel : Nat), invoker.Answers f → invoker'.Answers f → enough ≤ fuel →
      ∃ run run' : Progress,
        (Machine.run invoker (fun m => stop && m.isOver 0) none fuel
          (({} : Machine).launch d input)).map (·.runs) = some [run] ∧
        (Machine.run invoker' (fun m => stop && m.isOver 0) none fuel
          (({} : Machine).launch d input)).map (·.runs) = some [run'] ∧
        run.outcome.isSome ∧ run'.outcome.isSome ∧
        (run.outcome = some .done ↔ run'.outcome = some .done) ∧
        (run.outcome = some .done → Store.values run'.store = Store.values run.store ∧
          (Assoc.Ascending input → run'.store = run.store)) := by
  obtain ⟨w, hweight⟩ := hsound.exists_weight
  refine ⟨(Scene.opening d []).machine.weight d w + 1, ?_⟩
  intro f invoker invoker' input stop fuel hanswers hanswers' hfuel
  obtain ⟨e, hmeans⟩ := exists_meaning hsound f
  have hcomes : ∀ invoker : Invoker, invoker.Answers f →
      ∃ run, (Machine.run invoker (fun m => stop && m.isOver 0) none fuel
        (({} : Machine).launch d input)).map (·.runs) = some [run] ∧
          run.ComesTo input (toward d e d.root) := fun invoker hanswers =>
    Scene.run_comesTo hsound hseparate hmeans hanswers hweight stop hfuel
  obtain ⟨run, hrun, hcomes₁⟩ := hcomes invoker hanswers
  obtain ⟨run', hrun', hcomes₂⟩ := hcomes invoker' hanswers'
  exact ⟨run, run', hrun, hrun', hcomes₁.returned, hcomes₂.returned, hcomes₁.agree hcomes₂⟩

namespace Run

/-- A step that puts what an activity brings under a name. -/
def bring (id activity name : String) : Step where
  id := id
  work := .activity { activity := activity, resultVariable := some name }

theorem writes_bring (d : Definition) (id activity name : String) :
    d.writes (bring id activity name) = {id, name} := by
  rw [Definition.writes_of_nil rfl]
  ext key
  rw [Step.mem_keys rfl, Set.mem_insert_iff, Set.mem_singleton_iff]
  exact or_congr_right (Option.some_inj.trans eq_comm)

theorem reads_bring (d : Definition) (id activity name : String) :
    d.reads (bring id activity name) = ∅ := by
  rw [Definition.reads_of_nil rfl]
  ext key
  rw [Step.mem_looks_activity rfl]
  exact iff_of_false (fun ⟨_, hmem, _⟩ => List.not_mem_nil hmem) (Set.notMem_empty key)

/-- A workflow with two branches, and a step that takes what one of them has left. -/
def breakfast : Definition where
  name := "breakfast"
  root := "both"
  steps := [
    { id := "both", work := .parallel ["tea", "toast"], next := some "serve" },
    bring "tea" "brew" "cup",
    bring "toast" "heat" "plate",
    { id := "serve", work := .activity {
        activity := "serve", arguments := [("what", .string "$\x7bcup\x7d")] } }]

/-- The results of its activities. -/
def served (call : Invocation) : Activity.Result := .ok (.string call.name)

/-- An invoker for which one of the activities is faster than the others. -/
def kitchen (fast : String) : Invoker := fun _ call =>
  ⟨if call.name = fast then 2 else 5, .result (served call)⟩

theorem sound_breakfast : breakfast.Sound := Definition.sound_iff.2 (by decide +kernel)

theorem separate_breakfast : breakfast.Separate := by
  intro s hs branches hwork i j a b hne ha hb
  -- only the first step has branches
  obtain rfl : branches = ["tea", "toast"] := by
    simp only [breakfast, bring, List.mem_cons, List.not_mem_nil, or_false] at hs
    rcases hs with rfl | rfl | rfl | rfl <;> cases hwork
    rfl
  have hbranch : ∀ (n : Nat) (t : Step), ["tea", "toast"][n]?.bind breakfast.find? = some t →
      (n = 0 ∧ t = bring "tea" "brew" "cup") ∨ (n = 1 ∧ t = bring "toast" "heat" "plate") := by
    rintro (_ | _ | n) t ht
    · exact Or.inl ⟨rfl, (Option.some.inj ht).symm⟩
    · exact Or.inr ⟨rfl, (Option.some.inj ht).symm⟩
    · cases ht
  rcases hbranch i a ha with ⟨rfl, rfl⟩ | ⟨rfl, rfl⟩ <;>
    rcases hbranch j b hb with ⟨rfl, rfl⟩ | ⟨rfl, rfl⟩
  case inl.inl => exact absurd rfl hne
  case inr.inr => exact absurd rfl hne
  all_goals
    rw [writes_bring, writes_bring, reads_bring]
    rintro key (rfl | rfl) <;> exact ⟨by decide, Set.notMem_empty _⟩

/-- Whichever of the branches is faster, the run ends with the same variables, though not with the
same reports. -/
theorem confluent_breakfast :
    breakfast.Sound ∧ breakfast.Separate ∧
    (kitchen "brew").Answers served ∧ (kitchen "heat").Answers served ∧
    (∃ enough, ∀ fuel, enough ≤ fuel → ∃ run run' : Progress,
      (Machine.run (kitchen "brew") (fun m => true && m.isOver 0) none fuel
        (({} : Machine).launch breakfast [])).map (·.runs) = some [run] ∧
      (Machine.run (kitchen "heat") (fun m => true && m.isOver 0) none fuel
        (({} : Machine).launch breakfast [])).map (·.runs) = some [run'] ∧
      (run.outcome = some .done → run'.outcome = some .done ∧ run'.store = run.store)) ∧
    (Machine.run (kitchen "brew") (·.isOver 0) none 100
      (({} : Machine).launch breakfast [])).map (·.runs.map (·.outcome)) = some [some .done] ∧
    (Machine.run (kitchen "brew") (·.isOver 0) none 100
      (({} : Machine).launch breakfast [])).map (·.runs.map (·.events)) ≠
    (Machine.run (kitchen "heat") (·.isOver 0) none 100
      (({} : Machine).launch breakfast [])).map (·.runs.map (·.events)) := by
  have hanswers : ∀ fast, (kitchen fast).Answers served := fun _ _ _ => rfl
  refine ⟨sound_breakfast, separate_breakfast, hanswers _, hanswers _, ?_, by decide +kernel,
    by decide +kernel⟩
  obtain ⟨enough, henough⟩ := sound_breakfast.confluent separate_breakfast
  refine ⟨enough, fun fuel hfuel => ?_⟩
  obtain ⟨run, run', hrun, hrun', -, -, hiff, hsame⟩ := henough served (kitchen "brew")
    (kitchen "heat") [] true fuel (hanswers _) (hanswers _) hfuel
  exact ⟨run, run', hrun, hrun', fun hdone => ⟨hiff.1 hdone, (hsame hdone).2 .nil⟩⟩

end Run

end Flowgraph

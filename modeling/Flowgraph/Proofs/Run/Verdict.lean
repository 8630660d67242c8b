import Flowgraph.Proofs.Run.FirstFailure
import Flowgraph.Proofs.Run.Within

/-!
# How a run ends

A run returns when its first task is over. By then other tasks may still be on their way: those
that a step with branches has left behind when one of its branches failed. So there are two
things to show about the end of a run with a calm invoker.

* **No failure is swallowed.** The run succeeds exactly if its root exists and no step of it has
  failed; else it fails with the failure of one of the steps that have failed, or for want of a
  root. A step with branches fails with the failure of the first branch to fail.
* **No work outlives a success.** Once a run has succeeded, every task has stopped, and nothing
  that happens afterwards changes anything.

`Scene.Verdict` says all of this about a scene; `Reaches.verdict` shows it for every scene that
is reached, for whatever schedule.
-/

set_option autoImplicit false

namespace Flowgraph.Run

variable {invoker : Invoker} {d : Definition} {input : Store} {x : Scene} {m m' : Machine}
  {l : Ledger} {id : Nat} {deeds : List Deed} {trail : Trail} {history new : List Entry}
  {outcome : Outcome}

/-! ### Reports and the end of the run -/

/-- What a history amounts to in reports. -/
def reported (history : List Entry) : List (Event Unit) := history.filterMap (·.deed.event?)

theorem reported_append : reported (history ++ new) = reported history ++ reported new :=
  List.filterMap_append

theorem reported_entries : reported (trail.entries id deeds) = deeds.filterMap Deed.event? := by
  conv_rhs => rw [← trail.map_deed_entries id deeds, List.filterMap_map]
  rfl

/-- A run returns only where a task ends. -/
theorem verdict_of_no_ending (h : deeds.findSome? Deed.ending? = none) :
    deeds.findSome? Deed.verdict? = none := by
  apply List.findSome?_eq_none_iff.2
  intro deed hdeed
  have hnone := List.findSome?_eq_none_iff.1 h deed hdeed
  cases deed with
  | returned outcome => exact hnone
  | _ => rfl

namespace Scene

/-- **A run returns when its first task ends, and as that does.** -/
theorem Orderly.verdict_turn (horderly : Orderly ⟨m, l⟩) (hplaced : Placed d ⟨m, l⟩)
    (hturn : Turn invoker m id deeds m') (trail : Trail) :
    (deeds.findSome? Deed.verdict?).or (outcomeOf l.history 0) =
      outcomeOf (l.history ++ trail.entries id deeds) 0 := by
  -- as long as no task ends, nothing changes on either side
  have hgoes : deeds.findSome? Deed.ending? = none →
      (deeds.findSome? Deed.verdict?).or (outcomeOf l.history 0) =
        outcomeOf (l.history ++ trail.entries id deeds) 0 := by
    intro hnone
    have hnew : outcomeOf (trail.entries id deeds) 0 = none := by
      by_cases hid : 0 = id
      · rw [← hid, outcomeOf_entries, hnone]
      · exact outcomeOf_entries_ne hid
    rw [verdict_of_no_ending hnone, Option.none_or, outcomeOf_append, hnew, Option.or_none]
  rcases hturn.ending_cases with hnone | ⟨task, outcome, htask, -, hc, rfl⟩
  · exact hgoes hnone
  · -- the first task is the only one without a parent, and so the only one that returns
    obtain ⟨hfirst, -⟩ := hplaced.parents id task htask
    rw [outcomeOf_append]
    cases hparent : task.parent with
    | none =>
      obtain rfl := hfirst.1 hparent
      have hnone : outcomeOf l.history 0 = none :=
        horderly.outcomeOf_eq_none htask (by rw [hc]; rfl)
      rw [hnone, outcomeOf_entries]
      rfl
    | some p =>
      have hid : 0 ≠ id := fun hzero => by
        rw [hfirst.2 hzero.symm] at hparent
        cases hparent
      rw [outcomeOf_entries_ne hid, Option.or_none]
      rfl

/-- The reports of a run and its end are those that its history tells of. -/
theorem Reaches.recorded (h : Reaches invoker (opening d input) x) :
    ∃ run, x.machine.runs = [run] ∧ run.events = reported x.ledger.history ∧
      run.outcome = outcomeOf x.ledger.history 0 := by
  refine h.induct ⟨_, rfl, rfl, rfl⟩ ?turn ?same
  case turn =>
    rintro m m' l id deeds hreach ⟨run, hrun, hevents, houtcome⟩ hturn
    have hplaced := hreach.placed
    obtain ⟨trail, htrail, hhistory⟩ := hplaced.history_record hturn
    have hverdict := hreach.orderly.verdict_turn hplaced hturn trail
    dsimp only at hrun hevents houtcome ⊢
    rw [hhistory, reported_append, reported_entries, ← hverdict, ← hevents, ← houtcome]
    rcases hturn.runs_eq with ⟨rfl, hruns⟩ | ⟨task, run', htask, hrun', hruns⟩
    · exact ⟨run, by rw [hruns, hrun], by simp, by simp⟩
    · obtain ⟨hzero, -, -⟩ := hplaced.tasks id task trail htask (htrail task htask)
      rw [hzero, hrun] at hrun' hruns
      obtain rfl : run = run' := by simpa using hrun'
      exact ⟨run.record deeds, hruns, rfl, rfl⟩
  case same =>
    rintro m m' l - hruns - ⟨run, hrun, hrecorded⟩
    exact ⟨run, by rw [hruns, hrun], hrecorded⟩

/-- What it means for a run of a definition that it has returned with an outcome. -/
structure Verdict (invoker : Invoker) (d : Definition) (x : Scene) (outcome : Outcome) :
    Prop where
  /-- What has been reported is what the history tells of. -/
  events : x.machine.runs.map (·.events) = [reported x.ledger.history]
  /-- The history tells of steps of the definition, each at its address; where branches were
  started, there is a task for each of them. -/
  located : ∀ e ∈ x.ledger.history, e.deed.Located d e.address
  /-- The run succeeds exactly if the root exists and no step has failed. -/
  done_iff : outcome = .done ↔ (∃ root, d.rootStep? = some root) ∧
    ∀ e ∈ x.ledger.history, ∀ step failure, e.deed ≠ .finished step (.failed failure)
  /-- If the run has succeeded, every task has stopped and has succeeded. -/
  ended : outcome = .done → ∀ (id : Nat) (task : Task), x.machine.tasks[id]? = some task →
    task.control = .stopped ∧ outcomeOf x.ledger.history id = some .done
  /-- If the run has succeeded, nothing is called, reported or changed any more. -/
  last : outcome = .done → ∀ y, Reaches invoker x y →
    y.machine.calls = x.machine.calls ∧ y.machine.runs = x.machine.runs ∧ y.ledger = x.ledger
  /-- If the run has failed, it is for want of a root, or with the failure of a step that has
  failed. -/
  blamed : ∀ failure, outcome = .failed failure → Blamed d x.ledger.history failure
  /-- The run has not panicked. -/
  calm : ∀ payload, outcome ≠ .panicked payload
  /-- Every step with branches that has failed has done so with the failure of the first branch
  to fail. -/
  first : Throughout (FirstFailing d) x.ledger.history

/-- In a run that has succeeded, the root exists and no step has failed. -/
theorem Reaches.of_done (h : Reaches invoker (opening d input) x)
    (hdone : outcomeOf x.ledger.history 0 = some .done) :
    (∃ root, d.rootStep? = some root) ∧
      ∀ e ∈ x.ledger.history, ∀ step failure, e.deed ≠ .finished step (.failed failure) := by
  have hstill := h.orderly.still h.placed hdone
  have hfailing : ∀ id task, x.machine.tasks[id]? = some task →
      ¬ Failing x.ledger.history id task.control := by
    rintro id task htask (⟨failure, hleave⟩ | ⟨failure, hfailed⟩)
    · rw [hstill task (List.mem_of_getElem? htask)] at hleave
      cases hleave
    · rw [h.orderly.all_done h.placed hdone htask] at hfailed
      cases hfailed
  constructor
  · obtain ⟨first, hfirst⟩ := getElem?_of_lt h.placed.first
    cases hroot : d.rootStep? with
    | some root => exact ⟨root, rfl⟩
    | none =>
      rcases h.honest.1.root hroot first hfirst with hstart | hnow
      · rw [hstill first (List.mem_of_getElem? hfirst)] at hstart
        cases hstart
      · exact absurd hnow (hfailing 0 first hfirst)
  · intro e he step failure hdeed
    obtain ⟨task, htask⟩ := getElem?_of_lt (h.placed.entry_lt he)
    exact hfailing e.task task htask (h.honest.1.failures e he step failure hdeed task htask)

/-- The failure of a run is for want of a root, or that of a step. -/
theorem Reaches.blamed (h : Reaches invoker (opening d input) x) {failure : Failure}
    (hfailed : outcomeOf x.ledger.history 0 = some (.failed failure)) :
    Blamed d x.ledger.history failure := by
  obtain ⟨e, he, hending⟩ := List.exists_of_findSome?_eq_some hfailed
  split at hending
  · exact h.honest.2.endings e he failure hending
  · cases hending

/-- **No failure is swallowed, and no work outlives a success**, for every run that has
returned. -/
theorem Reaches.verdict (hcalm : invoker.Calm) (h : Reaches invoker (opening d input) x)
    (hreturned : x.machine.runs.map (·.outcome) = [some outcome]) :
    x.Verdict invoker d outcome := by
  obtain ⟨run, hrun, hevents, hrecorded⟩ := h.recorded
  have houtcome : run.outcome = some outcome := by
    rw [hrun] at hreturned
    exact List.singleton_inj.1 hreturned
  have hresult : outcomeOf x.ledger.history 0 = some outcome := by rw [← hrecorded, houtcome]
  have hwithin : outcome.Within fun _ => True :=
    (h.within hcalm d.allows_all).runs run (by simp [hrun]) outcome houtcome
  refine ⟨by rw [hrun, ← hevents]; rfl, fun e he => (h.placed.entries e he).2, ⟨?done, ?fine⟩,
    ?ended, ?last, ?blamed, ?calm, h.first_failure⟩
  case done =>
    rintro rfl
    exact h.of_done hresult
  case fine =>
    rintro ⟨⟨root, hroot⟩, hnone⟩
    cases outcome with
    | done => rfl
    | failed failure =>
      rcases h.blamed hresult with ⟨hlost, -⟩ | ⟨e, he, step, hdeed⟩
      · rw [hroot] at hlost
        cases hlost
      · exact absurd hdeed (hnone e he step failure)
    | panicked payload => exact hwithin.elim
  case ended =>
    rintro rfl id task htask
    exact ⟨h.orderly.still h.placed hresult task (List.mem_of_getElem? htask),
      h.orderly.all_done h.placed hresult htask⟩
  case last =>
    rintro rfl y hy
    obtain ⟨-, hruns, hcalls, hledger⟩ := hy.still (h.orderly.still h.placed hresult)
    exact ⟨hcalls, hruns, hledger⟩
  case blamed =>
    rintro failure rfl
    exact h.blamed hresult
  case calm =>
    rintro payload rfl
    exact hwithin

end Scene

/-- A workflow with two branches. -/
def race : Definition where
  name := "race"
  root := "both"
  steps := [
    { id := "both", work := .parallel ["slow", "quick"] },
    { id := "slow", work := .activity { activity := "slow" } },
    { id := "quick", work := .activity { activity := "quick" } }]

/-- An invoker whose activities all fail, one of them before the others. -/
def racing : Invoker := fun _ call =>
  ⟨if call.name = "quick" then 2 else 5, .result (.failure call.name)⟩

theorem calm_racing : racing.Calm := fun _ _ => ⟨_, rfl⟩

/-- The run fails with the failure of the second branch, which ends first; the other branch goes
on and fails as well. -/
theorem verdict_race :
    ((Scene.next racing)^[18] (Scene.opening race [])).Verdict racing race
        (.failed (.activity "quick" "quick")) ∧
      (((Scene.next racing)^[18] (Scene.opening race [])).ledger.history.filterMap
        fun e => e.deed.ending?.map (e.task, ·)) =
        [(2, .failed (.activity "quick" "quick")), (0, .failed (.activity "quick" "quick")),
          (1, .failed (.activity "slow" "slow"))] :=
  ⟨(Scene.reaches_iterate 18).verdict calm_racing (by rfl), by rfl⟩

end Flowgraph.Run

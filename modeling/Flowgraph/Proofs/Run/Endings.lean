import Flowgraph.Proofs.Run.Branches
import Flowgraph.Proofs.Run.Flow
import Flowgraph.Proofs.Run.Within

/-!
# How the runs of a machine end

A machine may have any number of runs, which are launched at any time. Each has a first task, and
it is over just when this task has stopped (`Machine.Rooted`). So **a run ends once and for all**
(`Machine.Rooted.outcome_kept`): nothing that the other tasks do, of this run or of another,
changes how it has ended.

With a calm invoker no run panics (`Machine.Unshaken`).
-/

set_option autoImplicit false

namespace Flowgraph.Run

open Machine (follow)

variable {invoker : Invoker} {m m' : Machine} {id j r : Nat} {deeds : List Deed} {task : Task}
  {outcome : Outcome}

/-- How a run has ended, if it has. -/
def Machine.outcome? (m : Machine) (run : Nat) : Option Outcome :=
  m.runs[run]?.bind (·.outcome)

theorem Machine.isOver_eq (m : Machine) (run : Nat) : m.isOver run = (m.outcome? run).isSome := rfl

/-! ### What a turn does to the end of a run -/

/-- A task after a turn is one from before, of the same run and with the same parent, or a branch
that has just been started. -/
theorem Turn.origin (h : Turn invoker m id deeds m') (hj : m'.tasks[j]? = some task) :
    (∃ old, m.tasks[j]? = some old ∧ task.run = old.run ∧ task.parent = old.parent) ∨
      (m.tasks.length ≤ j ∧ task.parent = some id ∧
        ∃ old, m.tasks[id]? = some old ∧ task.run = old.run) := by
  by_cases hne : j = id
  · subst hne
    refine Or.inl ?_
    cases h.own hj with
    | idle hold => exact ⟨_, hold, rfl, rfl⟩
    | goes hold => exact ⟨_, hold, rfl, rfl⟩
    | forks hold => exact ⟨_, hold, rfl, rfl⟩
    | stops hold => exact ⟨_, hold, rfl, rfl⟩
  · cases h.fate hne hj with
    | kept hold => exact Or.inl ⟨_, hold, rfl, rfl⟩
    | told hold => exact Or.inl ⟨_, hold, rfl, rfl⟩
    | born hold hc hdeeds hb hjb => exact Or.inr ⟨by omega, rfl, _, hold, rfl⟩

/-- A turn reports the end of a run only when the first task of the run comes to its own end. -/
theorem Turn.verdict_cases (h : Turn invoker m id deeds m') :
    deeds.findSome? Deed.verdict? = none ∨
      ∃ task outcome, m.tasks[id]? = some task ∧ task.parent = none ∧
        task.control = .leave outcome ∧ deeds = [.returned outcome] := by
  cases h with
  | idle => exact Or.inl rfl
  | goes htask hrun hadv =>
    refine Or.inl (List.findSome?_eq_none_iff.2 fun deed hdeed => ?_)
    have hending := List.findSome?_eq_none_iff.1 hadv.no_ending deed hdeed
    cases deed <;> first | rfl | cases hending
  | forks => exact Or.inl rfl
  | ends => exact Or.inl rfl
  | returns htask hrun hparent hframes hc => exact Or.inr ⟨_, _, htask, hparent, hc, rfl⟩

/-- The end of a run after some deeds in a run. -/
theorem outcome?_set {run : Progress} {k : Nat} (hrun : m.runs[k]? = some run)
    (hruns : m'.runs = m.runs.set k (run.record deeds)) :
    m'.outcome? r =
      if r = k then (deeds.findSome? Deed.verdict?).or (m.outcome? r) else m.outcome? r := by
  have hlt := lt_of_getElem? hrun
  unfold Machine.outcome?
  rw [hruns]
  by_cases hk : r = k
  · subst hk
    rw [List.getElem?_set_self hlt, hrun, if_pos rfl]
    rfl
  · rw [List.getElem?_set_ne (Ne.symm hk), if_neg hk]

theorem Turn.outcome_of_no_verdict (h : Turn invoker m id deeds m')
    (hverdict : deeds.findSome? Deed.verdict? = none) (r : Nat) :
    m'.outcome? r = m.outcome? r := by
  rcases h.runs_eq with ⟨-, hruns⟩ | ⟨task, run, -, hrun, hruns⟩
  · rw [Machine.outcome?, hruns, Machine.outcome?]
  · rw [outcome?_set hrun hruns, hverdict, Option.none_or, ite_self]

/-- Only the run of the task whose turn it is comes to its end with an outcome. -/
theorem Turn.outcome_of_returned (h : Turn invoker m id [.returned outcome] m')
    (htask : m.tasks[id]? = some task) (r : Nat) :
    m'.outcome? r = if r = task.run then some outcome else m.outcome? r := by
  rcases h.runs_eq with ⟨hfalse, -⟩ | ⟨other, run, hother, hrun, hruns⟩
  · cases hfalse
  · rw [htask] at hother
    cases hother
    exact outcome?_set hrun hruns

/-! ### The first task of a run -/

/-- Each run has one first task, and is over just when this task has stopped. -/
structure Machine.Rooted (m : Machine) : Prop where
  /-- Tasks work on runs that exist. -/
  run_lt : ∀ (id : Nat) (task : Task), m.tasks[id]? = some task → task.run < m.runs.length
  single : ∀ (id id' : Nat) (task task' : Task), m.tasks[id]? = some task →
    m.tasks[id']? = some task' → task.parent = none → task'.parent = none →
    task.run = task'.run → id = id'
  over_iff : ∀ (id : Nat) (task : Task), m.tasks[id]? = some task → task.parent = none →
    (task.control.isStopped = true ↔ m.isOver task.run = true)

theorem Turn.length_runs (h : Turn invoker m id deeds m') : m'.runs.length = m.runs.length := by
  rcases h.runs_eq with ⟨-, hruns⟩ | ⟨_, _, -, -, hruns⟩ <;> simp [hruns]

namespace Machine.Rooted

/-- The first task of a run is one from before the turn. -/
theorem origin (hturn : Turn invoker m id deeds m') (hj : m'.tasks[j]? = some task)
    (hparent : task.parent = none) :
    ∃ old, m.tasks[j]? = some old ∧ task.run = old.run ∧ old.parent = none := by
  rcases hturn.origin hj with ⟨old, hold, hrun, hsame⟩ | ⟨-, hsome, -⟩
  · exact ⟨old, hold, hrun, hsame ▸ hparent⟩
  · rw [hparent] at hsome
    cases hsome

/-- **A run ends once.** -/
theorem outcome_turn (h : m.Rooted) (hturn : Turn invoker m id deeds m')
    (houtcome : m.outcome? r = some outcome) : m'.outcome? r = some outcome := by
  rcases hturn.verdict_cases with hnone | ⟨task, other, htask, hparent, hc, rfl⟩
  · rw [hturn.outcome_of_no_verdict hnone, houtcome]
  · rw [hturn.outcome_of_returned htask]
    split
    case isTrue hr =>
      -- the first task of a run that is over has stopped
      have hover : m.isOver task.run = true := by rw [isOver_eq, ← hr, houtcome]; rfl
      have hstopped := (h.over_iff id task htask hparent).2 hover
      rw [hc] at hstopped
      cases hstopped
    case isFalse => exact houtcome

/-- The task whose turn it is stops just when its run is over, if it is the first task of it. -/
theorem over_iff_own (h : m.Rooted) (hturn : Turn invoker m id deeds m')
    (hown : Own invoker m id deeds task) (hparent : task.parent = none) :
    task.control.isStopped = true ↔ m'.isOver task.run = true := by
  have hsame : deeds.findSome? Deed.verdict? = none → m'.isOver task.run = m.isOver task.run := by
    intro hnone
    rw [isOver_eq, hturn.outcome_of_no_verdict hnone, isOver_eq]
  have hnone : deeds.findSome? Deed.ending? = none → deeds.findSome? Deed.verdict? = none := by
    intro hending
    rcases hturn.verdict_cases with hnone | ⟨_, _, -, -, -, rfl⟩
    · exact hnone
    · cases hending
  cases hown with
  | idle hold =>
    rw [hsame rfl]
    exact h.over_iff id task hold hparent
  | @goes old _ _ _ _ hold hrun hadv =>
    rw [hsame (hnone hadv.no_ending), ← h.over_iff id old hold hparent]
    simp [hadv.running.1, hadv.running.2]
  | @forks old _ _ _ _ hold hrun hc =>
    rw [hsame rfl, ← h.over_iff id old hold hparent, hc]
    simp [Control.isStopped]
  | @stops old outcome _ hold hframes hc hdeed =>
    have hparent : old.parent = none := hparent
    rw [hparent] at hdeed
    obtain rfl : _ = Deed.returned outcome := hdeed
    rw [isOver_eq, hturn.outcome_of_returned hold, if_pos rfl]
    simp [Control.isStopped]

theorem over_iff_fate (h : m.Rooted) (hturn : Turn invoker m id deeds m') (hne : j ≠ id)
    (hfate : Fate m id deeds j task) (hparent : task.parent = none) :
    task.control.isStopped = true ↔ m'.isOver task.run = true := by
  -- the task is as it was, and the turn is not that of another first task of its run
  obtain ⟨old, hold, hrun, hparent, hstopped⟩ : ∃ old, m.tasks[j]? = some old ∧
      task.run = old.run ∧ old.parent = none ∧ task.control.isStopped = old.control.isStopped := by
    cases hfate with
    | kept hold => exact ⟨_, hold, rfl, hparent, rfl⟩
    | told hold => exact ⟨_, hold, rfl, hparent, Control.isStopped_told⟩
    | born => cases hparent
  have hover : m'.isOver old.run = m.isOver old.run := by
    rw [isOver_eq, isOver_eq]
    rcases hturn.verdict_cases with hnone | ⟨first, outcome, hfirst, hroot, -, rfl⟩
    · rw [hturn.outcome_of_no_verdict hnone]
    · rw [hturn.outcome_of_returned hfirst, if_neg]
      intro hsame
      exact hne (h.single j id old first hold hfirst hparent hroot hsame)
  rw [hstopped, hrun, hover]
  exact h.over_iff j old hold hparent

theorem turn (h : m.Rooted) (hturn : Turn invoker m id deeds m') : m'.Rooted where
  run_lt j task hj := by
    rw [hturn.length_runs]
    rcases hturn.origin hj with ⟨old, hold, hrun, -⟩ | ⟨-, -, old, hold, hrun⟩ <;>
      exact hrun ▸ h.run_lt _ old hold
  single j j' task task' hj hj' hparent hparent' hrun := by
    obtain ⟨old, hold, hsame, hroot⟩ := origin hturn hj hparent
    obtain ⟨old', hold', hsame', hroot'⟩ := origin hturn hj' hparent'
    exact h.single j j' old old' hold hold' hroot hroot' (by rw [← hsame, hrun, hsame'])
  over_iff j task hj hparent := by
    by_cases hne : j = id
    · subst hne
      exact h.over_iff_own hturn (hturn.own hj) hparent
    · exact h.over_iff_fate hturn hne (hturn.fate hne hj) hparent

/-- The line, the timers and the clock do not matter. -/
theorem congr (h : m.Rooted) (htasks : m'.tasks = m.tasks) (hruns : m'.runs = m.runs) :
    m'.Rooted := by
  refine ⟨?_, ?_, ?_⟩
  · rw [htasks, hruns]
    exact h.run_lt
  · rw [htasks]
    exact h.single
  · unfold isOver
    rw [htasks, hruns]
    exact h.over_iff

theorem moves (h : m.Rooted) (hmoves : Moves invoker m m') : m'.Rooted := by
  cases hmoves with
  | work hstep =>
    obtain ⟨-, -, hturn⟩ := step_turn hstep
    exact h.turn hturn
  | wait => exact h.congr rfl rfl
  | reorder => exact h.congr rfl rfl

theorem outcome_moves (h : m.Rooted) (hmoves : Moves invoker m m')
    (houtcome : m.outcome? r = some outcome) : m'.outcome? r = some outcome := by
  cases hmoves with
  | work hstep =>
    obtain ⟨-, -, hturn⟩ := step_turn hstep
    exact h.outcome_turn hturn houtcome
  | wait => exact houtcome
  | reorder => exact houtcome

end Machine.Rooted

/-! ### A run that is launched -/

/-- The tasks after a launch are those from before and the first task of the new run. -/
theorem task_of_launch {d : Definition} {input : Store}
    (h : (m.launch d input).tasks[j]? = some task) :
    m.tasks[j]? = some task ∨ (j = m.tasks.length ∧ task = ⟨m.runs.length, none, [], .start⟩) := by
  rcases getElem?_append_cases h with hold | ⟨hle, hnew⟩
  · exact Or.inl hold
  · rw [List.getElem?_singleton] at hnew
    split at hnew
    · exact Or.inr ⟨by omega, (Option.some.inj hnew).symm⟩
    · cases hnew

/-- No run ends by a launch, and the new run has not ended. -/
theorem outcome?_launch (d : Definition) (input : Store) (r : Nat) :
    (m.launch d input).outcome? r = m.outcome? r := by
  unfold Machine.outcome? Machine.launch
  dsimp only
  rw [List.getElem?_append]
  split
  · rfl
  · rename_i hge
    rw [List.getElem?_eq_none (by omega : m.runs.length ≤ r), List.getElem?_singleton]
    split <;> rfl

theorem Machine.Rooted.launch (h : m.Rooted) (d : Definition) (input : Store) :
    (m.launch d input).Rooted where
  run_lt j task hj := by
    have hlength : (m.launch d input).runs.length = m.runs.length + 1 := by simp [Machine.launch]
    rcases task_of_launch hj with hold | ⟨-, rfl⟩
    · have := h.run_lt j task hold
      omega
    · show m.runs.length < _
      omega
  single j j' task task' hj hj' hparent hparent' hrun := by
    rcases task_of_launch hj with hold | ⟨rfl, rfl⟩ <;>
      rcases task_of_launch hj' with hold' | ⟨rfl, rfl⟩
    · exact h.single j j' task task' hold hold' hparent hparent' hrun
    · exact absurd hrun (Nat.ne_of_lt (h.run_lt j task hold))
    · exact absurd hrun.symm (Nat.ne_of_lt (h.run_lt j' task' hold'))
    · rfl
  over_iff j task hj hparent := by
    rw [Machine.isOver_eq, outcome?_launch]
    rcases task_of_launch hj with hold | ⟨rfl, rfl⟩
    · exact h.over_iff j task hold hparent
    · have hnone : m.outcome? m.runs.length = none := by simp [Machine.outcome?]
      rw [hnone]
      simp [Control.isStopped]

theorem Machine.rooted_empty : ({} : Machine).Rooted := by
  refine ⟨?_, ?_, ?_⟩ <;> intros <;> simp_all

/-! ### Runs that do not panic -/

/-- No task and no run has panicked, and no activity will. -/
structure Machine.Unshaken (m : Machine) : Prop where
  controls : ∀ (id : Nat) (task : Task), m.tasks[id]? = some task →
    task.control.Within fun _ => True
  outcomes : ∀ r outcome, m.outcome? r = some outcome → outcome.Within fun _ => True

theorem Advance.unshaken {calls : List Invocation} {run : Progress} {frames frames' : List Frame}
    {control control' : Control} (hcalm : invoker.Calm)
    (h : Advance invoker calls run frames control deeds frames' control')
    (hwithin : control.Within fun _ => True) : control'.Within fun _ => True := by
  cases h with
  | call => exact hcalm _ _
  | choose | next | child => exact within_follow _ _
  | finish | closed => exact hwithin
  | answer =>
    dsimp only [Control.Within]
    split <;> trivial
  | panic =>
    obtain ⟨result, hresult⟩ := hwithin
    cases hresult
  | take =>
    intro news hnews
    exact hwithin news (List.mem_cons_of_mem _ hnews)
  | begin | lost | unnamed | sequence | missing | branchless | pass | joined | broken => trivial

namespace Machine.Unshaken

theorem turn (h : m.Unshaken) (hcalm : invoker.Calm) (hturn : Turn invoker m id deeds m') :
    m'.Unshaken where
  controls j task hj := by
    by_cases hne : j = id
    · subst hne
      cases hturn.own hj with
      | idle hold => exact h.controls j task hold
      | goes hold hrun hadv => exact hadv.unshaken hcalm (h.controls j _ hold)
      | forks => simp [Control.Within]
      | stops => trivial
    · cases hturn.fate hne hj with
      | kept hold => exact h.controls j task hold
      | @told old child outcome hold hchild hparent hdeeds =>
        rcases hturn.ending_cases with hnone | ⟨task, other, htask, -, hc, hended⟩
        · rw [hdeeds] at hnone
          cases hnone
        · rw [hchild] at htask
          cases htask
          rw [hdeeds, hparent] at hended
          cases hended
          have hwithin := h.controls id child hchild
          rw [hc] at hwithin
          exact (h.controls j old hold).told hwithin
      | born => trivial
  outcomes r outcome houtcome := by
    rcases hturn.verdict_cases with hnone | ⟨task, other, htask, hparent, hc, rfl⟩
    · rw [hturn.outcome_of_no_verdict hnone] at houtcome
      exact h.outcomes r outcome houtcome
    · rw [hturn.outcome_of_returned htask] at houtcome
      split at houtcome
      · cases houtcome
        have hwithin := h.controls id task htask
        rw [hc] at hwithin
        exact hwithin
      · exact h.outcomes r outcome houtcome

theorem moves (h : m.Unshaken) (hcalm : invoker.Calm) (hmoves : Moves invoker m m') :
    m'.Unshaken := by
  cases hmoves with
  | work hstep =>
    obtain ⟨-, -, hturn⟩ := step_turn hstep
    exact h.turn hcalm hturn
  | wait => exact ⟨h.controls, h.outcomes⟩
  | reorder => exact ⟨h.controls, h.outcomes⟩

theorem launch (h : m.Unshaken) (d : Definition) (input : Store) : (m.launch d input).Unshaken where
  controls j task hj := by
    rcases task_of_launch hj with hold | ⟨-, rfl⟩
    · exact h.controls j task hold
    · trivial
  outcomes r outcome houtcome := by
    rw [outcome?_launch] at houtcome
    exact h.outcomes r outcome houtcome

end Machine.Unshaken

theorem Machine.unshaken_empty : ({} : Machine).Unshaken := by
  refine ⟨?_, ?_⟩ <;> intros <;> simp_all [Machine.outcome?]

end Flowgraph.Run

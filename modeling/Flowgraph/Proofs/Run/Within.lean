import Flowgraph.Proofs.Run.Placement

/-!
# Failures that a run can come to

A failure arises in one of a few places: the root is missing, an activity has no name, a branch
does not exist, an activity has failed. From there it travels through frames and from branches to
their parents, and is never replaced on the way unless a branch panics. So **with a calm invoker
every outcome anywhere in a run is a success or one of the failures that its definition allows**
(`Reaches.within`); what the definition allows is a predicate on failures (`Definition.Allows`).
-/

set_option autoImplicit false

namespace Flowgraph

open Run

/-- A predicate that holds of all failures that the steps of a definition can give rise to without
a call. -/
structure Definition.Permits (d : Definition) (P : Failure → Prop) : Prop where
  root : d.rootStep? = none → P (.rootNotFound d.root)
  unnamed : ∀ s ∈ d.steps, ∀ c, s.work = .activity c → Text.blank c.activity = true →
    P (.missingActivityName s.id)
  missing : ∀ s ∈ d.steps, ∀ ids id, s.work = .parallel ids →
    Machine.resolveAll d ids = .error id → P (.missingBranch s.id id)

/-- A predicate that holds of all failures that the steps of a definition can give rise to. -/
structure Definition.Allows (d : Definition) (P : Failure → Prop) : Prop extends
    Definition.Permits d P where
  activity : ∀ name message, P (.activity name message)

theorem Definition.allows_all (d : Definition) : d.Allows fun _ => True where
  root _ := trivial
  unnamed _ _ _ _ _ := trivial
  missing _ _ _ _ _ _ := trivial
  activity _ _ := trivial

namespace Run

variable {P : Failure → Prop}

/-- A success, or a failure with a property; no panic. -/
def Outcome.Within (P : Failure → Prop) : Outcome → Prop
  | .done => True
  | .failed failure => P failure
  | .panicked _ => False

/-- Every outcome that a control carries is within a property. -/
def Control.Within (P : Failure → Prop) : Control → Prop
  | .leave outcome => outcome.Within P
  | .receive _ _ ending => ∃ result, ending = .result result
  | .join _ _ ended => ∀ news ∈ ended, news.2.Within P
  | .start | .enter _ | .stopped => True

/-- How a step or a task ends with a deed. -/
def Deed.outcome? : Deed → Option Outcome
  | .finished _ outcome => some outcome
  | .ended outcome => some outcome
  | .returned outcome => some outcome
  | _ => none

/-- The outcome of a deed, if it has one, is within a property. -/
def Deed.Within (P : Failure → Prop) (deed : Deed) : Prop :=
  ∀ outcome, deed.outcome? = some outcome → outcome.Within P

/-- The failure that a branch hands on is its own. -/
theorem Outcome.Within.blame {step : Step} {branch : Nat} {outcome : Outcome} {failure : Failure}
    (h : outcome.Within P) (hblame : outcome.blame step branch = some failure) :
    outcome = .failed failure := by
  cases outcome with
  | done => cases hblame
  | failed other => rw [Option.some.inj hblame]
  | panicked payload => exact h.elim

theorem within_follow (d : Definition) (target : String) :
    (Machine.follow d target).Within P := by
  unfold Machine.follow
  split <;> trivial

theorem Control.Within.told {control : Control} {news : Nat × Outcome} (h : control.Within P)
    (hnews : news.2.Within P) : (control.told news).Within P := by
  cases control with
  | join step missing ended =>
    intro other hother
    rcases List.mem_append.1 hother with hother | hother
    · exact h other hother
    · rw [List.mem_singleton.1 hother]
      exact hnews
  | _ => exact h

section

variable {invoker : Invoker} {calls : List Invocation} {run : Progress} {d : Definition}
  {frames frames' : List Frame} {control control' : Control} {deeds : List Deed} {trail : Trail}

theorem Deed.within_of_none {deed : Deed} (h : deed.outcome? = none) : deed.Within P := by
  intro outcome houtcome
  rw [h] at houtcome
  cases houtcome

/-- Whether the failure that a waiting task is to report, if it is to report one, is within a
property. -/
def Control.Reports (P : Failure → Prop) (control : Control) : Prop :=
  ∀ step c result, control = .receive step c (.result result) → result.success = false →
    P (.activity c.activity result.message)

/-- A task that goes on by itself brings no outcome from outside, but for what it waited for. -/
theorem Advance.within (hcalm : invoker.Calm) (hpermits : d.Permits P)
    (hreports : control.Reports P)
    (h : Advance invoker calls run frames control deeds frames' control')
    (hd : run.definition = d) (hplaced : control.Placed d trail frames)
    (hwithin : control.Within P) : control'.Within P ∧ ∀ deed ∈ deeds, deed.Within P := by
  subst hd
  have hnone : ∀ deed : Deed, deed.outcome? = none → deed.Within P := fun deed =>
    Deed.within_of_none
  cases h with
  | begin hroot => exact ⟨trivial, by simpa using hnone _ rfl⟩
  | lost hroot => exact ⟨hpermits.root hroot, by simpa using hnone _ rfl⟩
  | unnamed hwork hname =>
    exact ⟨hpermits.unnamed _ (Definition.at?_mem hplaced.1) _ hwork hname,
      by simpa using hnone _ rfl⟩
  | call hwork hname hinv =>
    refine ⟨hcalm _ _, ?_⟩
    simpa using ⟨hnone _ rfl, hnone _ rfl⟩
  | sequence hwork => exact ⟨trivial, by simpa using hnone _ rfl⟩
  | missing hwork hall =>
    exact ⟨hpermits.missing _ (Definition.at?_mem hplaced.1) _ _ hwork hall,
      by simpa using hnone _ rfl⟩
  | branchless hwork hall => exact ⟨trivial, by simpa using hnone _ rfl⟩
  | choose hwork hto hr =>
    refine ⟨within_follow _ _, ?_⟩
    simpa using ⟨hnone _ rfl, hnone _ rfl⟩
  | pass hwork hto => exact ⟨trivial, by simpa using hnone _ rfl⟩
  | next hnext =>
    refine ⟨within_follow _ _, ?_⟩
    simp [Deed.Within, Deed.outcome?, Outcome.Within]
  | finish hdone =>
    have houtcome : Outcome.Within P _ := hwithin
    refine ⟨hwithin, ?_⟩
    simpa [Deed.Within, Deed.outcome?] using houtcome
  | child => exact ⟨within_follow _ _, by simpa using hnone _ rfl⟩
  | closed hdone => exact ⟨hwithin, by simp⟩
  | answer =>
    refine ⟨?_, by simpa using hnone _ rfl⟩
    show Outcome.Within P (if _ then _ else _)
    split
    · trivial
    · rename_i hsuccess
      exact hreports _ _ _ rfl (Bool.not_eq_true _ ▸ hsuccess)
  | panic =>
    obtain ⟨result, hresult⟩ := hwithin
    cases hresult
  | joined hmissing => exact ⟨trivial, by simp⟩
  | take hmissing => exact ⟨fun news hnews => hwithin news (List.mem_cons_of_mem _ hnews), by simp⟩
  | broken hblame =>
    -- branches do not panic, so the step takes over the failure as it is
    have houtcome := hwithin _ (List.mem_cons_self ..)
    have heq := houtcome.blame hblame
    dsimp only at heq
    rw [heq] at houtcome
    exact ⟨houtcome, by simp⟩

end

/-- Every outcome in a scene is within a property. -/
structure Scene.Within (P : Failure → Prop) (x : Scene) : Prop where
  controls : ∀ (id : Nat) (task : Task), x.machine.tasks[id]? = some task → task.control.Within P
  entries : ∀ e ∈ x.ledger.history, e.deed.Within P
  runs : ∀ run ∈ x.machine.runs, ∀ outcome, run.outcome = some outcome → outcome.Within P

theorem Deed.within_verdict {deeds : List Deed} (h : ∀ deed ∈ deeds, deed.Within P)
    {outcome : Outcome} (houtcome : deeds.findSome? Deed.verdict? = some outcome) :
    outcome.Within P := by
  obtain ⟨deed, hdeed, hverdict⟩ := List.exists_of_findSome?_eq_some houtcome
  cases deed with
  | returned other => exact h _ hdeed _ hverdict
  | _ => cases hverdict

namespace Scene

variable {invoker : Invoker} {d : Definition} {input : Store} {x : Scene} {m m' : Machine}
  {l : Ledger} {id : Nat} {deeds : List Deed} {task : Task}

/-- The part of a task in its own turn. -/
theorem Within.own (h : Scene.Within P ⟨m, l⟩) (hplaced : Placed d ⟨m, l⟩) (hcalm : invoker.Calm)
    (hpermits : d.Permits P)
    (hreports : ∀ old, m.tasks[id]? = some old → old.control.Reports P)
    (hown : Own invoker m id deeds task) :
    task.control.Within P ∧ ∀ deed ∈ deeds, deed.Within P := by
  cases hown with
  | idle htask => exact ⟨h.controls id _ htask, List.forall_mem_nil _⟩
  | goes htask hrun hadv =>
    obtain ⟨-, trail, -, hcontrol⟩ := hplaced.exists_placed htask
    obtain ⟨-, hd⟩ := hplaced.definition_of_getElem? hrun
    exact hadv.within hcalm hpermits (hreports _ htask) hd hcontrol (h.controls id _ htask)
  | forks htask hrun hc hwork hall hne =>
    refine ⟨List.forall_mem_nil _, ?_⟩
    simpa using ⟨Deed.within_of_none rfl, Deed.within_of_none rfl⟩
  | stops htask hframes hc hdeed =>
    have hwithin := h.controls id _ htask
    rw [hc] at hwithin
    have houtcome : Outcome.Within P _ := hwithin
    refine ⟨trivial, ?_⟩
    rw [hdeed]
    split <;> simpa [Deed.Within, Deed.outcome?] using houtcome

theorem Within.turn (h : Scene.Within P ⟨m, l⟩) (hplaced : Placed d ⟨m, l⟩)
    (hcalm : invoker.Calm) (hpermits : d.Permits P)
    (hreports : ∀ old, m.tasks[id]? = some old → old.control.Reports P)
    (hturn : Turn invoker m id deeds m') :
    Scene.Within P ⟨m', l.record id deeds⟩ := by
  have hdeeds : ∀ deed ∈ deeds, deed.Within P := by
    rcases hturn.exists_own with rfl | ⟨task, hown⟩
    · exact List.forall_mem_nil _
    · exact (h.own hplaced hcalm hpermits hreports hown).2
  refine ⟨fun j task htask => ?_, fun e he => ?_, ?_⟩
  · by_cases hj : j = id
    · subst hj
      exact (h.own hplaced hcalm hpermits hreports (hturn.own htask)).1
    · cases hturn.fate hj htask with
      | kept hold => exact h.controls j task hold
      | told hold hid hparent hended =>
        refine (h.controls j _ hold).told (hdeeds (.ended _) ?_ _ rfl)
        rw [hended]
        exact List.mem_singleton_self _
      | born => trivial
  · obtain ⟨trail, -, hhistory⟩ := hplaced.history_record hturn
    dsimp only at he
    rw [hhistory] at he
    rcases List.mem_append.1 he with he | he
    · exact h.entries e he
    · exact hdeeds e.deed (Trail.deed_mem_of_mem_entries he)
  · rcases hturn.runs_eq with ⟨-, hruns⟩ | ⟨old, run, hold, hrun, hruns⟩
    · dsimp only
      rw [hruns]
      exact h.runs
    · intro run' hrun' outcome houtcome
      dsimp only at hrun'
      rw [hruns] at hrun'
      rcases List.mem_or_eq_of_mem_set hrun' with hmem | rfl
      · exact h.runs run' hmem outcome houtcome
      · rcases Option.or_eq_some_iff.1 houtcome with hverdict | ⟨-, hbefore⟩
        · exact Deed.within_verdict hdeeds hverdict
        · exact h.runs run (List.mem_of_getElem? hrun) outcome hbefore

theorem within_opening (d : Definition) (input : Store) : (opening d input).Within P where
  controls id task htask := by
    rw [(task_of_opening htask).2]
    trivial
  entries e he := by
    rw [history_opening] at he
    cases he
  runs run hrun outcome houtcome := by
    simp only [opening, Machine.launch, List.nil_append, List.mem_singleton] at hrun
    rw [hrun] at houtcome
    cases houtcome

/-- The line and the timers do not matter. -/
theorem Within.same (h : Scene.Within P ⟨m, l⟩) (htasks : m'.tasks = m.tasks)
    (hruns : m'.runs = m.runs) : Scene.Within P ⟨m', l⟩ where
  controls := by
    dsimp only
    rw [htasks]
    exact h.controls
  entries := h.entries
  runs := by
    dsimp only
    rw [hruns]
    exact h.runs

/-- **Every outcome in a run is a success or a failure that its definition allows.** -/
theorem Reaches.within (hcalm : invoker.Calm) (hallows : d.Allows P)
    (h : Reaches invoker (opening d input) x) : x.Within P := by
  refine h.induct (within_opening d input) ?turn ?same
  case turn =>
    intro m m' l id deeds hreach hwithin hturn
    exact hwithin.turn hreach.placed hcalm hallows.toPermits
      (fun _ _ _ _ _ _ _ => hallows.activity _ _) hturn
  case same =>
    intro m m' l htasks hruns _ hwithin
    exact hwithin.same htasks hruns

end Scene

end Run

end Flowgraph

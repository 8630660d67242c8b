import Flowgraph.Proofs.Definition.Chains
import Flowgraph.Proofs.Run.Replay
import Flowgraph.Proofs.Run.Termination

/-!
# How often steps are executed

No step is lost and none is done twice: a run that succeeds executes a step at most as often as
there are chains of references from the root to it, and exactly as often if no condition can cut
a chain short (`Reaches.census`).

A task owes executions of the step: those that lie ahead of what it does next and of what it comes
back to (`Task.due`). A turn that executes the step pays for it, and what the task then owes is no
more than before. It is less only where a condition takes one of its ways, or where the task turns
to fail; but then the run does not succeed.
-/

set_option autoImplicit false

namespace Flowgraph.Run

open Machine (follow resolveAll)

variable {d : Definition} {s : Step} {p : Step → Nat}

/-! ### What a task still owes -/

/-- How many chains lead on from what comes next in a frame. -/
def Frame.due (d : Definition) (p : Step → Nat) : Frame → Nat
  | .finish step => (step.next.toList.map (d.across p)).sum
  | .sequence rest => (rest.map (d.across p)).sum

/-- How many chains lead on from what a task does next. -/
def Control.due (d : Definition) (p : Step → Nat) : Control → Nat
  | .start => d.across p d.root
  | .enter step => p step
  | _ => 0

/-- How many chains lead on from where a task is. -/
def Task.due (d : Definition) (p : Step → Nat) (task : Task) : Nat :=
  (task.frames.map (Frame.due d p)).sum + task.control.due d p

/-- How many chains lead on from where the tasks of a machine are. -/
def Machine.due (d : Definition) (p : Step → Nat) (m : Machine) : Nat :=
  (m.tasks.map (Task.due d p)).sum

@[simp] theorem Control.due_start : Control.start.due d p = d.across p d.root := rfl

@[simp] theorem Control.due_enter {step : Step} : (Control.enter step).due d p = p step := rfl

@[simp] theorem Control.due_leave {outcome : Outcome} : (Control.leave outcome).due d p = 0 := rfl

@[simp] theorem Control.due_receive {step : Step} {c : Call} {ending : Ending} :
    (Control.receive step c ending).due d p = 0 := rfl

@[simp] theorem Control.due_join {step : Step} {missing : Nat} {ended : List (Nat × Outcome)} :
    (Control.join step missing ended).due d p = 0 := rfl

@[simp] theorem Control.due_stopped : Control.stopped.due d p = 0 := rfl

@[simp] theorem due_follow (target : String) : (follow d target).due d p = d.across p target := by
  unfold follow Definition.across
  cases d.find? target <;> rfl

theorem due_told {news : Nat × Outcome} {task : Task} :
    (task.told news).due d p = task.due d p := by
  obtain ⟨run, parent, frames, control⟩ := task
  cases control <;> rfl

/-- What branches owe is owed for the references to them. -/
theorem across_branches {ids : List String} {branches : List Step}
    (h : resolveAll d ids = .ok branches) :
    (ids.map (d.across p)).sum = (branches.map p).sum := by
  have hmap := congrArg (List.map fun t => Option.elim t 0 p) (resolveAll_map h)
  rw [List.map_map, List.map_map] at hmap
  exact congrArg List.sum hmap

/-- A step owes itself, its work, and its next step. -/
theorem due_split (h : d.Counts s p) {step : Step} (hstep : step ∈ d.steps) :
    p step = (if step = s then 1 else 0) +
      ((step.work.references.map fun r => d.across p r.target).sum +
        (Frame.finish step).due d p) := by
  have hnext : (step.next.map (⟨.next, ·⟩ : String → Reference)).toList.map
      (fun r => d.across p r.target) = step.next.toList.map (d.across p) := by
    cases step.next <;> rfl
  rw [h step hstep, Step.references, List.map_append, List.sum_append, hnext]
  rfl

/-- What the children of a sequence and the branches of a step owe is owed for their ids. -/
theorem sum_across (link : Link) (ids : List String) :
    ((ids.map (⟨link, ·⟩ : String → Reference)).map fun r => d.across p r.target).sum =
      (ids.map (d.across p)).sum := by
  rw [List.map_map]
  rfl

/-! ### What a turn pays for -/

/-- A step that is entered counts if it is the one that is looked for. -/
@[simp] theorem count_entered_cons {step : Step} {deeds : List Deed} :
    (Deed.entered step :: deeds).count (.entered s) =
      (if step = s then 1 else 0) + deeds.count (.entered s) := by
  rw [List.count_cons, Nat.add_comm]
  simp

@[simp] theorem count_called {step : Step} {c : Call} {invocation : Invocation} {reply : Reply} :
    [Deed.called step c invocation reply].count (.entered s) = 0 := rfl

@[simp] theorem count_turned {n : Nat} : [Deed.turned n].count (.entered s) = 0 := rfl

@[simp] theorem count_forked {step : Step} {kids : List Nat} :
    [Deed.forked step kids].count (.entered s) = 0 := rfl

@[simp] theorem count_ended {outcome : Outcome} : [Deed.ended outcome].count (.entered s) = 0 := rfl

@[simp] theorem count_returned {outcome : Outcome} :
    [Deed.returned outcome].count (.entered s) = 0 := rfl

/-- Whether a task is about to end other than well. -/
def Control.Breaks (control : Control) : Prop :=
  ∃ outcome, outcome ≠ .done ∧ control = .leave outcome

/-- **A task that goes on by itself pays for the step if it begins it, and owes the rest**: no more
than the rest, and all of it unless it is at a condition or breaks off. -/
theorem Advance.due {invoker : Invoker} {calls : List Invocation} {run : Progress}
    {frames frames' : List Frame} {control control' : Control} {deeds : List Deed} {trail : Trail}
    (h : Advance invoker calls run frames control deeds frames' control')
    (hcounts : d.Counts s p) (hd : run.definition = d) (hplaced : control.Placed d trail frames) :
    deeds.count (.entered s) + ((frames'.map (Frame.due d p)).sum + control'.due d p) ≤
        (frames.map (Frame.due d p)).sum + control.due d p ∧
      ((∀ step, control = .enter step → ∀ choice, step.work ≠ .condition choice) →
        control'.Breaks ∨
          deeds.count (.entered s) + ((frames'.map (Frame.due d p)).sum + control'.due d p) =
            (frames.map (Frame.due d p)).sum + control.due d p) := by
  subst hd
  -- a step that is entered pays for itself
  have hstep : ∀ step, control = .enter step → p step = (if step = s then 1 else 0) +
      ((step.work.references.map fun r => run.definition.across p r.target).sum +
        (Frame.finish step).due run.definition p) := by
    rintro step rfl
    exact due_split hcounts (Definition.at?_mem hplaced.1)
  have hpaid : ∀ {a b : Nat}, a = b → a ≤ b ∧
      ((∀ step, control = .enter step → ∀ choice, step.work ≠ .condition choice) →
        control'.Breaks ∨ a = b) := fun heq => ⟨Nat.le_of_eq heq, fun _ => Or.inr heq⟩
  have hbroken : ∀ {a b : Nat} {outcome : Outcome}, control' = .leave outcome → outcome ≠ .done →
      a ≤ b → a ≤ b ∧
        ((∀ step, control = .enter step → ∀ choice, step.work ≠ .condition choice) →
          control'.Breaks ∨ a = b) := fun hleave hnot hle =>
    ⟨hle, fun _ => Or.inl ⟨_, hnot, hleave⟩⟩
  cases h with
  | begin hroot =>
    have hroot : run.definition.find? run.definition.root = some _ := hroot
    apply hpaid
    simp [Definition.across, hroot]
  | lost =>
    apply hbroken rfl (by simp)
    simp
  | unnamed hwork | call hwork =>
    apply hpaid
    have hentered := hstep _ rfl
    simp only [hwork, Work.references, List.map_nil, List.sum_nil] at hentered
    simp only [count_entered_cons, count_called, List.count_nil, List.map_cons, List.sum_cons,
      Control.due_leave, Control.due_receive, Control.due_enter, hentered]
    omega
  | sequence hwork =>
    apply hpaid
    have hentered := hstep _ rfl
    simp only [hwork, Work.references, sum_across] at hentered
    simp only [count_entered_cons, List.count_nil, List.map_cons, List.sum_cons,
      Control.due_leave, Control.due_enter, hentered, Frame.due]
    omega
  | missing hwork =>
    apply hbroken rfl (by simp)
    have hentered := hstep _ rfl
    simp only [count_entered_cons, List.count_nil, List.map_cons, List.sum_cons,
      Control.due_leave, Control.due_enter, hentered]
    omega
  | branchless hwork hall =>
    apply hpaid
    have hentered := hstep _ rfl
    simp only [hwork, Work.references, sum_across, across_branches hall, List.map_nil,
      List.sum_nil] at hentered
    simp only [count_entered_cons, List.count_nil, List.map_cons, List.sum_cons,
      Control.due_leave, Control.due_enter, hentered]
    omega
  | @choose _ _ _ target _ hwork hto =>
    refine ⟨?_, fun hnot => absurd hwork (hnot _ rfl _)⟩
    have hentered := hstep _ rfl
    have hle := le_sum_choice (run.definition.across p) hwork hto
    simp only [count_entered_cons, count_turned, List.map_cons, List.sum_cons, due_follow,
      Control.due_enter, hentered]
    omega
  | pass hwork =>
    refine ⟨?_, fun hnot => absurd hwork (hnot _ rfl _)⟩
    have hentered := hstep _ rfl
    simp only [count_entered_cons, List.count_nil, List.map_cons, List.sum_cons,
      Control.due_leave, Control.due_enter, hentered]
    omega
  | next hnext =>
    apply hpaid
    simp [Frame.due, hnext, Nat.add_comm]
  | @finish _ _ outcome hdone =>
    by_cases ho : outcome = .done
    · apply hpaid
      simp [Frame.due, hdone ho]
    · apply hbroken rfl ho
      simp
  | child =>
    apply hpaid
    simp only [count_turned, List.map_cons, List.sum_cons, Frame.due, due_follow,
      Control.due_leave]
    omega
  | @closed _ _ outcome hdone =>
    by_cases ho : outcome = .done
    · apply hpaid
      simp [Frame.due, hdone ho]
    · apply hbroken rfl ho
      simp
  | answer | panic | joined | broken | take =>
    apply hpaid
    simp

variable {invoker : Invoker} {input : Store} {x : Scene} {m m' : Machine} {l : Ledger} {id : Nat}
  {deeds : List Deed} {history new : List Entry}

/-- **What a turn pays for, the machine no longer owes.** -/
theorem Turn.due (hturn : Turn invoker m id deeds m') (hcounts : d.Counts s p)
    (hplaced : Scene.Placed d ⟨m, l⟩) :
    deeds.count (.entered s) + m'.due d p ≤ m.due d p ∧
      (d.Unconditional → (∃ task, m'.tasks[id]? = some task ∧ task.control.Breaks) ∨
        deeds.count (.entered s) + m'.due d p = m.due d p) := by
  -- what a turn does to the sum of the tasks, if one task changes
  have hset : ∀ (task : Task) (new : Task), m.tasks[id]? = some task →
      ((m.tasks.set id new).map (Task.due d p)).sum + task.due d p =
        (m.tasks.map (Task.due d p)).sum + new.due d p := fun task new htask =>
    sum_map_set _ new htask
  have hpaid : ∀ {a b : Nat}, a = b → a ≤ b ∧ (d.Unconditional →
      (∃ task, m'.tasks[id]? = some task ∧ task.control.Breaks) ∨ a = b) :=
    fun heq => ⟨Nat.le_of_eq heq, fun _ => Or.inr heq⟩
  cases hturn with
  | idle => exact hpaid (Nat.zero_add _)
  | @goes task run deeds frames control ready timers htask hrun hadv hline =>
    obtain ⟨-, trail, -, hcontrol⟩ := hplaced.exists_placed htask
    obtain ⟨hle, heq⟩ := hadv.due hcounts (hplaced.definition_of_getElem? hrun).2 hcontrol
    have hsum := hset task ⟨task.run, task.parent, frames, control⟩ htask
    simp only [Machine.due, Task.due] at hsum hle heq ⊢
    refine ⟨by omega, fun hnot => ?_⟩
    have hstraight : ∀ step, task.control = .enter step →
        ∀ choice, step.work ≠ .condition choice := by
      intro step hc
      rw [hc] at hcontrol
      exact hnot trail.here step hcontrol.1
    rcases heq hstraight with hbreaks | heq
    · exact Or.inl ⟨_, List.getElem?_set_self (lt_of_getElem? htask), hbreaks⟩
    · exact Or.inr (by omega)
  | @forks task run step ids branches htask hrun hc hwork hall =>
    obtain ⟨-, trail, -, hcontrol⟩ := hplaced.exists_placed htask
    rw [hc] at hcontrol
    rw [(hplaced.definition_of_getElem? hrun).2] at hall
    have hentered := due_split hcounts (Definition.at?_mem hcontrol.1)
    simp only [hwork, Work.references, sum_across, across_branches hall] at hentered
    have hsum := hset task
      ⟨task.run, task.parent, .finish step :: task.frames, .join step branches.length []⟩ htask
    -- the branches owe what the step owed for its work
    have hkids : ((branches.map fun b => (⟨task.run, some id, [], .enter b⟩ : Task)).map
        (Task.due d p)).sum = (branches.map p).sum := by
      rw [List.map_map]
      congr 2
      funext b
      exact Nat.zero_add _
    apply hpaid
    simp only [Machine.due, List.map_append, List.sum_append, hkids, count_entered_cons,
      count_forked]
    simp only [Task.due, hc, List.map_cons, List.sum_cons, Control.due_join,
      Control.due_enter] at hsum
    omega
  | @ends task run outcome parent ready htask hrun hparent hframes hc hline =>
    have hsum := hset task { task with control := .stopped } htask
    simp only [Task.due, hc, Control.due_stopped, Control.due_leave] at hsum
    apply hpaid
    simp only [Machine.due, sum_map_modify fun _ => due_told, count_ended]
    omega
  | @returns task run outcome htask hrun hparent hframes hc =>
    have hsum := hset task { task with control := .stopped } htask
    simp only [Task.due, hc, Control.due_stopped, Control.due_leave] at hsum
    apply hpaid
    simp only [Machine.due, count_returned]
    omega

/-! ### What a run pays for -/

/-- How often a step has been begun in a history. -/
def executions (s : Step) (history : List Entry) : Nat := (history.map (·.deed)).count (.entered s)

theorem executions_append :
    executions s (history ++ new) = executions s history + executions s new := by
  rw [executions, List.map_append, List.count_append]
  rfl

/-- What has been paid and what is owed in a scene. -/
structure Scene.Paying (d : Definition) (s : Step) (p : Step → Nat) (x : Scene) : Prop where
  /-- It is never more than what the root owed. -/
  le : executions s x.ledger.history + x.machine.due d p ≤ d.across p d.root
  /-- Where there are no conditions, it is what the root owed, unless a task does not succeed. -/
  eq : d.Unconditional →
    (∃ id task, x.machine.tasks[id]? = some task ∧
      Bound (· ≠ .done) x.ledger.history id task.control) ∨
    executions s x.ledger.history + x.machine.due d p = d.across p d.root

namespace Scene

theorem Paying.turn (h : Paying d s p ⟨m, l⟩) (hcounts : d.Counts s p)
    (hplaced : Placed d ⟨m, l⟩) (horderly : Orderly ⟨m, l⟩)
    (hturn : Turn invoker m id deeds m') : Paying d s p ⟨m', l.record id deeds⟩ := by
  obtain ⟨trail, -, hhistory⟩ := hplaced.history_record hturn
  obtain ⟨hle, heq⟩ := hturn.due hcounts hplaced
  have hexecutions : executions s (l.record id deeds).history =
      executions s l.history + deeds.count (.entered s) := by
    rw [hhistory, executions_append]
    congr 1
    rw [executions, trail.map_deed_entries]
  have hbefore := h.le
  dsimp only at hbefore
  refine ⟨by dsimp only; omega, fun hnot => ?_⟩
  rcases h.eq hnot with ⟨j, task, htask, hbound⟩ | hall
  · -- a task that does not succeed goes on not to succeed
    obtain ⟨task', htask'⟩ := getElem?_of_lt
      (Nat.lt_of_lt_of_le (lt_of_getElem? htask) hturn.length_tasks_le)
    refine Or.inl ⟨j, task', htask', horderly.bound_turn hplaced (· rfl) hturn htask'
      (lt_of_getElem? htask) fun old hold => ?_⟩
    obtain rfl : task = old := Option.some.inj (htask.symm.trans hold)
    exact hbound
  · rcases heq hnot with ⟨task, htask, outcome, hbreaks, hleave⟩ | heq
    · exact Or.inl ⟨id, task, htask, Or.inl ⟨outcome, hbreaks, hleave⟩⟩
    · exact Or.inr (by dsimp only at hall ⊢; omega)

theorem Reaches.paying (h : Reaches invoker (opening d input) x) (hcounts : d.Counts s p) :
    x.Paying d s p := by
  refine h.induct ?start ?turn ?same
  case start =>
    have hroot : executions s (opening d input).ledger.history + (opening d input).machine.due d p =
        d.across p d.root := by
      simp [opening, Machine.launch, executions, Machine.due, Task.due]
    exact ⟨Nat.le_of_eq hroot, fun _ => Or.inr hroot⟩
  case turn =>
    intro m m' l id deeds hreach hpaying hturn
    exact hpaying.turn hcounts hreach.placed hreach.orderly hturn
  case same =>
    rintro m m' l htasks - - ⟨hle, heq⟩
    dsimp only [Machine.due] at *
    rw [← htasks] at hle heq
    exact ⟨hle, heq⟩

/-- Where all tasks have stopped, nothing is owed. -/
theorem Placed.due_of_still (h : Placed d x) (p : Step → Nat) (hstill : x.Still) :
    x.machine.due d p = 0 := by
  refine List.sum_eq_zero fun n hn => ?_
  obtain ⟨task, hmem, rfl⟩ := List.mem_map.1 hn
  obtain ⟨id, htask⟩ := List.mem_iff_getElem?.1 hmem
  rw [Task.due, h.frames_of_stopped htask (hstill task hmem), hstill task hmem]
  rfl

end Scene

/-! ### Counting in the reports -/

/-- A step of a sound definition has been begun as often as has been reported. -/
theorem count_reported (hsound : d.Sound) (hs : s ∈ d.steps)
    (hlocated : ∀ e ∈ history, e.deed.Located d e.address) :
    (reported history).count (.stepStarted s.id s.work.kind) = executions s history := by
  rw [reported, List.count_filterMap, executions, List.count, List.countP_map]
  apply List.countP_congr
  intro e he
  have hat := hlocated e he
  simp only [beq_iff_eq, Function.comp_apply]
  rw [Deed.event?_eq_started]
  constructor
  · rintro ⟨t, hdeed, hid, -⟩
    rw [hdeed] at hat
    have hat : d.at? e.address = some t := hat
    rw [hdeed, hsound.eq_of_id (Definition.at?_mem hat) hs hid]
  · intro hdeed
    exact ⟨s, hdeed, rfl, rfl⟩

/-- **No step is lost, and none is done twice**: in a run that has succeeded, every step has begun
at most as often as chains of references lead to it from the root, and exactly as often if no
condition is among the steps that they lead to. -/
theorem Scene.Reaches.census (hsound : d.Sound) (h : Reaches invoker (opening d input) x)
    (hdone : x.machine.runs.map (·.outcome) = [some .done]) (hs : s ∈ d.steps) :
    {chain | d.at? chain = some s}.Finite ∧
      ∃ run, x.machine.runs = [run] ∧
        run.events.count (.stepStarted s.id s.work.kind) ≤ {chain | d.at? chain = some s}.ncard ∧
        (d.Unconditional → run.events.count (.stepStarted s.id s.work.kind) =
          {chain | d.at? chain = some s}.ncard) := by
  obtain ⟨p, hcounts⟩ := hsound.exists_counts s
  obtain ⟨hfinite, hcard⟩ := hsound.chains hcounts
  obtain ⟨run, hrun, hevents, houtcome⟩ := h.recorded
  have hresult : outcomeOf x.ledger.history 0 = some .done := by
    rw [hrun] at hdone
    rw [← houtcome]
    exact List.singleton_inj.1 hdone
  have hstill := h.orderly.still h.placed hresult
  obtain ⟨hle, heq⟩ := h.paying hcounts
  refine ⟨hfinite, run, hrun, ?_, fun hnot => ?_⟩
  · rw [hevents, count_reported hsound hs fun e he => (h.placed.entries e he).2, hcard]
    omega
  · rw [hevents, count_reported hsound hs fun e he => (h.placed.entries e he).2, hcard]
    have hnothing := h.placed.due_of_still p hstill
    rcases heq hnot with ⟨id, task, htask, hbound⟩ | heq
    · rcases hbound with ⟨outcome, hbreaks, hleave⟩ | ⟨outcome, hbreaks, hended⟩
      · rw [hstill task (List.mem_of_getElem? htask)] at hleave
        cases hleave
      · rw [h.orderly.all_done h.placed hresult htask] at hended
        exact absurd (Option.some.inj hended).symm hbreaks
    · omega

/-- A workflow that comes to the same step in several ways: twice in a sequence that two branches
share, and once more at the end. -/
def shared : Definition where
  name := "shared"
  root := "both"
  steps := [
    { id := "both", work := .parallel ["list", "list"], next := some "hello" },
    { id := "list", work := .sequence ["hello", "hello"] },
    { id := "hello", work := .activity { activity := "say" } }]

/-- The step that it comes to. -/
def sharedStep : Step := { id := "hello", work := .activity { activity := "say" } }

/-- Five chains lead to the step, and five times it is executed. -/
theorem census_shared :
    shared.Sound ∧ shared.Unconditional ∧
      ((Scene.next slowly)^[100] (Scene.opening shared [])).machine.runs.map (·.outcome) =
        [some .done] ∧
      {chain | shared.at? chain = some sharedStep}.ncard = 5 := by
  have hsound : shared.Sound := Definition.sound_iff.2 (by decide +kernel)
  have hnot : shared.Unconditional := by
    intro chain step hat choice hwork
    have hmem := Definition.at?_mem hat
    simp only [shared, List.mem_cons, List.not_mem_nil, or_false] at hmem
    rcases hmem with rfl | rfl | rfl <;> cases hwork
  have hdone : ((Scene.next slowly)^[100] (Scene.opening shared [])).machine.runs.map (·.outcome) =
      [some .done] := by decide +kernel
  have hcount : ((Scene.next slowly)^[100] (Scene.opening shared [])).machine.runs.map
      (·.events.count (.stepStarted "hello" "activity")) = [5] := by decide +kernel
  obtain ⟨-, run, hrun, -, heq⟩ := Scene.Reaches.census hsound (Scene.reaches_iterate 100) hdone
    (by decide : sharedStep ∈ shared.steps)
  rw [hrun] at hcount
  exact ⟨hsound, hnot, hdone, (heq hnot).symm.trans (List.singleton_inj.1 hcount)⟩

end Flowgraph.Run

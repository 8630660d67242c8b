import Flowgraph.Proofs.Run.Deed

/-!
# What a small step can be

The inversion of `Machine.step`, in two layers. `Advance` says how the frames and the control of
one task go on, without any machine around it; it has one rule for each thing a task can do on
its own. `Turn` says what becomes of the machine: the task goes on by itself, starts branches,
comes to its end, or has nothing to do.

In every turn the calls, the events and the variables change as the deeds of the turn say
(`Turn.calls_eq`, `Turn.runs_eq`). Proofs about runs go by cases on `Turn` and `Advance` and do
not open the machine.
-/

set_option autoImplicit false

namespace Flowgraph.Run

open Machine (follow resolveAll)

/-! ### How one task goes on -/

/-- The failure that a branch that has not succeeded is to the step that waits for it. -/
def Outcome.blame (step : Step) (branch : Nat) : Outcome → Option Failure
  | .done => none
  | .failed failure => some failure
  | .panicked payload =>
    some (.branchPanicked step.id (Failure.panicNotice branch payload))

/-- How the frames and the control of a task go on in a small step, and what it does. -/
inductive Advance (invoker : Invoker) (calls : List Invocation) (run : Progress) :
    List Frame → Control → List Deed → List Frame → Control → Prop
  /-- The run begins at its root. -/
  | begin {fs : List Frame} {step : Step} : run.definition.rootStep? = some step →
      Advance invoker calls run fs .start [.begun run.definition.name] fs (.enter step)
  /-- There is no root. -/
  | lost {fs : List Frame} : run.definition.rootStep? = none →
      Advance invoker calls run fs .start [.begun run.definition.name] fs
        (.leave (.failed (.rootNotFound run.definition.root)))
  /-- An activity has no name. -/
  | unnamed {fs : List Frame} {step : Step} {c : Call} :
      step.work = .activity c → Text.blank c.activity = true →
      Advance invoker calls run fs (.enter step) [.entered step] (.finish step :: fs)
        (.leave (.failed (.missingActivityName step.id)))
  /-- An activity is called. -/
  | call {fs : List Frame} {step : Step} {c : Call} {invocation : Invocation} :
      step.work = .activity c → Text.blank c.activity = false →
      invocation = ⟨c.activity, c.arguments.resolve run.store⟩ →
      Advance invoker calls run fs (.enter step)
        [.entered step, .called step c invocation (invoker calls invocation)]
        (.finish step :: fs) (.receive step c (invoker calls invocation).ending)
  /-- A sequence begins. -/
  | sequence {fs : List Frame} {step : Step} {steps : List String} :
      step.work = .sequence steps →
      Advance invoker calls run fs (.enter step) [.entered step]
        (.sequence steps :: .finish step :: fs) (.leave .done)
  /-- A branch does not exist. -/
  | missing {fs : List Frame} {step : Step} {branches : List String} {id : String} :
      step.work = .parallel branches → resolveAll run.definition branches = .error id →
      Advance invoker calls run fs (.enter step) [.entered step] (.finish step :: fs)
        (.leave (.failed (.missingBranch step.id id)))
  /-- There are no branches. -/
  | branchless {fs : List Frame} {step : Step} {branches : List String} :
      step.work = .parallel branches → resolveAll run.definition branches = .ok [] →
      Advance invoker calls run fs (.enter step) [.entered step] (.finish step :: fs)
        (.leave .done)
  /-- A condition that leads to a step. -/
  | choose {fs : List Frame} {step : Step} {choice : Choice} {target : String} {n : Nat} :
      step.work = .condition choice →
      (if Condition.holds choice.arguments run.store then choice.onSuccess
        else choice.onFailure) = some target →
      step.work.references[n]?.map (·.target) = some target →
      Advance invoker calls run fs (.enter step) [.entered step, .turned n]
        (.finish step :: fs) (follow run.definition target)
  /-- A condition that leads nowhere. -/
  | pass {fs : List Frame} {step : Step} {choice : Choice} :
      step.work = .condition choice →
      (if Condition.holds choice.arguments run.store then choice.onSuccess
        else choice.onFailure) = none →
      Advance invoker calls run fs (.enter step) [.entered step] (.finish step :: fs)
        (.leave .done)
  /-- The work of a step is done, and the step has a next one. -/
  | next {fs : List Frame} {step : Step} {target : String} : step.next = some target →
      Advance invoker calls run (.finish step :: fs) (.leave .done) [.finished step .done] fs
        (follow run.definition target)
  /-- The work of a step is over, and nothing comes after it. -/
  | finish {fs : List Frame} {step : Step} {outcome : Outcome} :
      (outcome = .done → step.next = none) →
      Advance invoker calls run (.finish step :: fs) (.leave outcome) [.finished step outcome]
        fs (.leave outcome)
  /-- A sequence goes on. -/
  | child {fs : List Frame} {target : String} {rest : List String} :
      Advance invoker calls run (.sequence (target :: rest) :: fs) (.leave .done)
        [.turned (Frame.place rest fs)] (.sequence rest :: fs) (follow run.definition target)
  /-- A sequence is over, or broken off. -/
  | closed {fs : List Frame} {rest : List String} {outcome : Outcome} :
      (outcome = .done → rest = []) →
      Advance invoker calls run (.sequence rest :: fs) (.leave outcome) [] fs (.leave outcome)
  /-- An activity has come back with a result. -/
  | answer {fs : List Frame} {step : Step} {c : Call} {result : Activity.Result} :
      Advance invoker calls run fs (.receive step c (.result result))
        [.answered step c result] fs
        (.leave (if result.success then .done else .failed (.activity c.activity result.message)))
  /-- An activity has panicked. -/
  | panic {fs : List Frame} {step : Step} {c : Call} {payload : Payload} :
      Advance invoker calls run fs (.receive step c (.panic payload)) [] fs
        (.leave (.panicked payload))
  /-- The last branch has succeeded. -/
  | joined {fs : List Frame} {step : Step} {missing branch : Nat}
      {ended : List (Nat × Outcome)} : missing ≤ 1 →
      Advance invoker calls run fs (.join step missing ((branch, .done) :: ended)) [] fs
        (.leave .done)
  /-- A branch has succeeded, and more are to come. -/
  | take {fs : List Frame} {step : Step} {missing branch : Nat} {ended : List (Nat × Outcome)} :
      1 < missing →
      Advance invoker calls run fs (.join step missing ((branch, .done) :: ended)) [] fs
        (.join step (missing - 1) ended)
  /-- A branch has not succeeded. -/
  | broken {fs : List Frame} {step : Step} {missing branch : Nat} {outcome : Outcome}
      {ended : List (Nat × Outcome)} {failure : Failure} :
      outcome.blame step branch = some failure →
      Advance invoker calls run fs (.join step missing ((branch, outcome) :: ended)) [] fs
        (.leave (.failed failure))

/-! ### What becomes of the machine -/

/-- A task that has nothing to do when its turn comes. -/
def Control.Idle : Control → Prop
  | .stopped => True
  | .join _ _ ended => ended = []
  | _ => False

/-- What a task that waits for branches learns about one of them. -/
def Control.told (news : Nat × Outcome) : Control → Control
  | .join step missing ended => .join step missing (ended ++ [news])
  | control => control

@[inherit_doc Control.told]
def Task.told (news : Nat × Outcome) (task : Task) : Task :=
  { task with control := task.control.told news }

/-- The line and the timers after a task has gone on to a control by itself: it stays at the head
of the line unless it waits for an activity. -/
def Machine.Lined (m : Machine) (id : Nat) (control : Control) (ready : List Nat)
    (timers : List (Nat × Nat)) : Prop :=
  (ready = m.ready ∧ timers = m.timers) ∨
    ∃ step c ending time, control = .receive step c ending ∧ ready = m.ready.tail ∧
      timers = m.timers ++ [(time, id)]

/-- The turn of the task `id`, with its deeds. -/
inductive Turn (invoker : Invoker) (m : Machine) (id : Nat) : List Deed → Machine → Prop
  /-- There is nothing to do. -/
  | idle : (∀ task run, m.tasks[id]? = some task → m.runs[task.run]? = some run →
        task.control.Idle) →
      Turn invoker m id [] m.pause
  /-- The task goes on by itself. -/
  | goes {task : Task} {run : Progress} {deeds : List Deed} {frames : List Frame}
      {control : Control} {ready : List Nat} {timers : List (Nat × Nat)} :
      m.tasks[id]? = some task → m.runs[task.run]? = some run →
      Advance invoker m.calls run task.frames task.control deeds frames control →
      m.Lined id control ready timers →
      Turn invoker m id deeds
        { m with
          tasks := m.tasks.set id ⟨task.run, task.parent, frames, control⟩
          runs := m.runs.set task.run (run.record deeds)
          calls := m.calls ++ deeds.filterMap Deed.invocation?
          ready := ready
          timers := timers }
  /-- The task starts a task for each branch of a step. -/
  | forks {task : Task} {run : Progress} {step : Step} {ids : List String}
      {branches : List Step} :
      m.tasks[id]? = some task → m.runs[task.run]? = some run →
      task.control = .enter step → step.work = .parallel ids →
      resolveAll run.definition ids = .ok branches → branches ≠ [] →
      Turn invoker m id
        [.entered step, .forked step (List.range' m.tasks.length branches.length)]
        { m with
          tasks := m.tasks.set id
              ⟨task.run, task.parent, .finish step :: task.frames, .join step branches.length []⟩ ++
            branches.map fun b => ⟨task.run, some id, [], .enter b⟩
          runs := m.runs.set task.run (run.record
            [.entered step, .forked step (List.range' m.tasks.length branches.length)])
          ready := m.ready.tail ++ List.range' m.tasks.length branches.length ++ [id] }
  /-- The task of a branch is over, and the task that it belongs to is told. -/
  | ends {task : Task} {run : Progress} {outcome : Outcome} {parent : Nat} {ready : List Nat} :
      m.tasks[id]? = some task → m.runs[task.run]? = some run → task.parent = some parent →
      task.frames = [] → task.control = .leave outcome →
      (ready = m.ready.tail ∨ ready = m.ready.tail ++ [parent]) →
      (∀ other step missing ended, (m.tasks.set id { task with control := .stopped })[parent]? =
        some other → other.control = .join step missing ended → parent ∈ ready) →
      Turn invoker m id [.ended outcome]
        { m with
          tasks := (m.tasks.set id { task with control := .stopped }).modify parent
            (Task.told (id, outcome))
          runs := m.runs.set task.run (run.record [.ended outcome])
          ready := ready }
  /-- The first task of a run is over, and the run with it. -/
  | returns {task : Task} {run : Progress} {outcome : Outcome} :
      m.tasks[id]? = some task → m.runs[task.run]? = some run → task.parent = none →
      task.frames = [] → task.control = .leave outcome →
      Turn invoker m id [.returned outcome]
        { m with
          tasks := m.tasks.set id { task with control := .stopped }
          runs := m.runs.set task.run (run.record [.returned outcome])
          ready := m.ready.tail }

/-! ### Every small step is a turn -/

theorem modify_eq_set {α : Type} {l : List α} {i : Nat} {a : α} (h : l[i]? = some a)
    (f : α → α) : l.modify i f = l.set i (f a) := by
  apply List.ext_getElem?
  intro j
  rw [List.getElem?_modify, List.getElem?_set]
  by_cases hij : i = j
  · subst hij
    obtain ⟨hi, rfl⟩ := List.getElem?_eq_some_iff.1 h
    simp [hi]
  · simp [hij]

theorem set_self {α : Type} {l : List α} {i : Nat} {a : α} (h : l[i]? = some a) :
    l.set i a = l := by
  obtain ⟨hi, rfl⟩ := List.getElem?_eq_some_iff.1 h
  exact List.set_getElem_self hi

theorem set_modify {α : Type} {l : List α} {i : Nat} {a : α} (h : l[i]? = some a) (b : α)
    (f : α → α) : (l.set i b).modify i f = l.set i (f b) := by
  obtain ⟨hi, -⟩ := List.getElem?_eq_some_iff.1 h
  rw [modify_eq_set (List.getElem?_set_self hi), List.set_set]

/-- What is read off the elements goes along with a change of one of them. -/
theorem map_modify {α β : Type} {g : α → β} {f : α → α} {f' : β → β} {l : List α} {i : Nat}
    (h : ∀ a, g (f a) = f' (g a)) : (l.modify i f).map g = (l.map g).modify i f' := by
  apply List.ext_getElem?
  intro j
  rw [List.getElem?_map, List.getElem?_modify, List.getElem?_modify, List.getElem?_map]
  cases l[j]? with
  | none => rfl
  | some a =>
    by_cases hij : i = j
    · simp [hij, h]
    · simp [hij]

variable {invoker : Invoker} {m m' : Machine} {id : Nat} {task : Task} {run : Progress}

/-- A task that goes on by itself, when the line does not change. -/
theorem Turn.stays {deeds : List Deed} {frames : List Frame} {control : Control}
    (htask : m.tasks[id]? = some task) (hrun : m.runs[task.run]? = some run)
    (h : Advance invoker m.calls run task.frames task.control deeds frames control)
    (hcalls : deeds.filterMap Deed.invocation? = []) :
    Turn invoker m id deeds
      { m with
        tasks := m.tasks.set id ⟨task.run, task.parent, frames, control⟩
        runs := m.runs.set task.run (run.record deeds) } := by
  have := Turn.goes htask hrun h (Or.inl ⟨rfl, rfl⟩)
  rwa [hcalls, List.append_nil] at this

/-- Deeds that do nothing to the variables and do not end the run. -/
structure Plain (deeds : List Deed) : Prop where
  effect : ∀ store, deeds.foldl (fun s d => d.effect s) store = store
  verdict : deeds.findSome? Deed.verdict? = none

theorem Plain.record {deeds : List Deed} (h : Plain deeds) :
    run.record deeds = { run with events := run.events ++ deeds.filterMap Deed.event? } := by
  simp [Progress.record, h.effect, h.verdict]

/-- Reporting an event and moving a task, as one update. -/
theorem emit_goInto (htask : m.tasks[id]? = some task) (hrun : m.runs[task.run]? = some run)
    {deeds : List Deed} {event : Event Unit} (hevent : deeds.filterMap Deed.event? = [event])
    (h : Plain deeds) (frames : List Frame) (control : Control) :
    (m.emit task.run event).goInto id frames control =
      { m with
        tasks := m.tasks.set id ⟨task.run, task.parent, frames, control⟩
        runs := m.runs.set task.run (run.record deeds) } := by
  simp [Machine.emit, Machine.goInto, modify_eq_set htask, modify_eq_set hrun,
    h.record, hevent]

/-- Moving a task without a report, as one update. -/
theorem goInto_eq (htask : m.tasks[id]? = some task) (hrun : m.runs[task.run]? = some run)
    {deeds : List Deed} (hevent : deeds.filterMap Deed.event? = [])
    (h : Plain deeds) (frames : List Frame)
    (control : Control) :
    m.goInto id frames control =
      { m with
        tasks := m.tasks.set id ⟨task.run, task.parent, frames, control⟩
        runs := m.runs.set task.run (run.record deeds) } := by
  simp [Machine.goInto, modify_eq_set htask, h.record, hevent, set_self hrun]

theorem goOn_eq_goInto (htask : m.tasks[id]? = some task) (control : Control) :
    m.goOn id control = m.goInto id task.frames control := by
  simp [Machine.goOn, Machine.goInto, modify_eq_set htask]

/-- A task that goes on by itself with a report and without a call. -/
theorem Turn.reports (htask : m.tasks[id]? = some task) (hrun : m.runs[task.run]? = some run)
    {deeds : List Deed} {event : Event Unit} (hevent : deeds.filterMap Deed.event? = [event])
    (h : Plain deeds)
    (hcalls : deeds.filterMap Deed.invocation? = []) {frames : List Frame} {control : Control}
    (hadv : Advance invoker m.calls run task.frames task.control deeds frames control) :
    Turn invoker m id deeds ((m.emit task.run event).goInto id frames control) := by
  rw [emit_goInto htask hrun hevent h]
  exact Turn.stays htask hrun hadv hcalls

/-- A task that goes on by itself without a report and without a call. -/
theorem Turn.quiet (htask : m.tasks[id]? = some task) (hrun : m.runs[task.run]? = some run)
    {deeds : List Deed} (hevent : deeds.filterMap Deed.event? = [])
    (h : Plain deeds)
    (hcalls : deeds.filterMap Deed.invocation? = []) {frames : List Frame} {control : Control}
    (hadv : Advance invoker m.calls run task.frames task.control deeds frames control) :
    Turn invoker m id deeds (m.goInto id frames control) := by
  rw [goInto_eq htask hrun hevent h]
  exact Turn.stays htask hrun hadv hcalls

theorem begin_turn (htask : m.tasks[id]? = some task) (hrun : m.runs[task.run]? = some run)
    (hc : task.control = .start) :
    Turn invoker m id [.begun run.definition.name] (m.begin id task run) := by
  have hemit : (m.emit task.run (.runStarted run.definition.name ())).tasks[id]? = some task :=
    htask
  unfold Machine.begin
  rw [goOn_eq_goInto hemit]
  apply Turn.reports htask hrun rfl ⟨fun _ => rfl, rfl⟩ rfl
  rw [hc]
  cases hroot : run.definition.rootStep? with
  | none => exact .lost hroot
  | some step => exact .begin hroot

/-- Turning to a reference of a condition. -/
theorem condition_advance {step : Step} {choice : Choice} (fs : List Frame)
    (hwork : step.work = .condition choice) :
    Advance invoker m.calls run fs (.enter step)
      (.entered step :: if Condition.holds choice.arguments run.store then
          (choice.onSuccess.map fun _ => Deed.turned 0).toList
        else (choice.onFailure.map fun _ => Deed.turned choice.onSuccess.toList.length).toList)
      (.finish step :: fs)
      (match (if Condition.holds choice.arguments run.store then choice.onSuccess
          else choice.onFailure) with
        | some target => follow run.definition target
        | none => .leave .done) := by
  by_cases hholds : Condition.holds choice.arguments run.store
  · rw [if_pos hholds, if_pos hholds]
    cases hto : choice.onSuccess with
    | none => exact .pass hwork (by rw [if_pos hholds, hto])
    | some target =>
      exact .choose hwork (by rw [if_pos hholds, hto])
        (by simp [Work.references, hwork, hto])
  · rw [if_neg hholds, if_neg hholds]
    cases hto : choice.onFailure with
    | none => exact .pass hwork (by rw [if_neg hholds, hto])
    | some target =>
      refine .choose hwork (by rw [if_neg hholds, hto]) ?_
      cases hs : choice.onSuccess <;>
        simp [Work.references, hwork, hto, hs]

/-- The call of an activity. -/
theorem call_turn (htask : m.tasks[id]? = some task) (hrun : m.runs[task.run]? = some run)
    {step : Step} (hc : task.control = .enter step) {c : Call} (hwork : step.work = .activity c)
    (hname : Text.blank c.activity = false) {invocation : Invocation}
    (hinv : invocation = ⟨c.activity, c.arguments.resolve run.store⟩) :
    Turn invoker m id
      [.entered step, .called step c invocation (invoker m.calls invocation)]
      ((m.emit task.run (.stepStarted step.id step.work.kind)).call invoker id task run.store
        step c) := by
  have hadv : Advance invoker m.calls run task.frames (.enter step) _ _ _ :=
    .call hwork hname hinv
  rw [← hc] at hadv
  have hevent : [Deed.entered step, .called step c invocation
      (invoker m.calls invocation)].filterMap Deed.event? =
      [.stepStarted step.id step.work.kind] := rfl
  have hm := emit_goInto htask hrun hevent ⟨fun _ => rfl, rfl⟩ (.finish step :: task.frames)
    (.receive step c (invoker m.calls invocation).ending)
  have hcall : (m.emit task.run (.stepStarted step.id step.work.kind)).call invoker id task
      run.store step c =
        let m₁ : Machine := { (m.emit task.run (.stepStarted step.id step.work.kind)).goInto id
            (.finish step :: task.frames)
            (.receive step c (invoker m.calls invocation).ending) with
          calls := m.calls ++ [invocation] }
        if (invoker m.calls invocation).delay = 0 then m₁
        else { m₁.pause with
          timers := m.timers ++ [(m.now + (invoker m.calls invocation).delay, id)] } := by
    rw [hinv]
    rfl
  rw [hcall, hm]
  dsimp only
  by_cases hdelay : (invoker m.calls invocation).delay = 0
  · rw [if_pos hdelay]
    exact Turn.goes htask hrun hadv (Or.inl ⟨rfl, rfl⟩)
  · rw [if_neg hdelay]
    exact Turn.goes htask hrun hadv (Or.inr ⟨_, _, _, _, rfl, rfl, rfl⟩)

theorem enter_turn (htask : m.tasks[id]? = some task) (hrun : m.runs[task.run]? = some run)
    {step : Step} (hc : task.control = .enter step) :
    Turn invoker m id (.entered step :: Deed.opening step invoker m.calls m.tasks.length run)
      (m.enter invoker id task run step) := by
  unfold Machine.enter Deed.opening
  cases hwork : step.work with
  | activity c =>
    dsimp only
    by_cases hname : Text.blank c.activity
    · rw [if_pos hname, if_pos hname]
      exact Turn.reports htask hrun (by simp [Deed.event?, hwork]) ⟨fun _ => rfl, rfl⟩ rfl
        (hc ▸ .unnamed hwork hname)
    · rw [if_neg hname, if_neg hname]
      have h : Turn invoker m id _ _ :=
        call_turn htask hrun hc hwork (by simpa using hname) rfl
      rwa [hwork] at h
  | sequence steps =>
    exact Turn.reports htask hrun (by simp [Deed.event?, hwork]) ⟨fun _ => rfl, rfl⟩ rfl
      (hc ▸ .sequence hwork)
  | parallel ids =>
    dsimp only
    cases hall : resolveAll run.definition ids with
    | error missing =>
      exact Turn.reports htask hrun (by simp [Deed.event?, hwork]) ⟨fun _ => rfl, rfl⟩ rfl
        (hc ▸ .missing hwork hall)
    | ok branches =>
      cases branches with
      | nil =>
        exact Turn.reports htask hrun (by simp [Deed.event?, hwork]) ⟨fun _ => rfl, rfl⟩ rfl
          (hc ▸ .branchless hwork hall)
      | cons b bs =>
        have h : Turn invoker m id _ _ := .forks htask hrun hc hwork hall (by simp)
        have hevent : [Deed.entered step, .forked step (List.range' m.tasks.length
            (b :: bs).length)].filterMap Deed.event? =
            [.stepStarted step.id step.work.kind] := rfl
        rw [Plain.record ⟨fun _ => rfl, rfl⟩, hevent] at h
        simpa [Machine.fork, Machine.emit, Machine.pause, modify_eq_set htask,
          modify_eq_set hrun, hwork] using h
  | condition choice =>
    dsimp only
    have hadv : Advance invoker m.calls run task.frames (.enter step) _ _ _ :=
      condition_advance task.frames hwork
    rw [← hc] at hadv
    refine Turn.reports htask hrun ?_ ⟨?_, ?_⟩ ?_ hadv
    all_goals
      cases choice.onSuccess <;> cases choice.onFailure <;> split <;>
        simp [Deed.event?, Deed.invocation?, Deed.effect, Deed.verdict?, hwork]

/-- Telling a task about a branch: it takes note if it waits, and is then in the line. -/
theorem notify_eq (m : Machine) (parent branch : Nat) (outcome : Outcome) :
    ∃ ready, (ready = m.ready ∨ ready = m.ready ++ [parent]) ∧
      (∀ other step missing ended, m.tasks[parent]? = some other →
        other.control = .join step missing ended → parent ∈ ready) ∧
      m.notify parent branch outcome =
        { m with
          tasks := m.tasks.modify parent (Task.told (branch, outcome))
          ready := ready } := by
  unfold Machine.notify
  cases hparent : m.tasks[parent]? with
  | none =>
    refine ⟨m.ready, Or.inl rfl, fun _ _ _ _ h => (Option.some_ne_none _ h.symm).elim, ?_⟩
    rw [List.modify_eq_self (List.getElem?_eq_none_iff.1 hparent)]
  | some other =>
    obtain ⟨run, grand, frames, control⟩ := other
    cases control with
    | join step missing ended =>
      by_cases hmem : parent ∈ m.ready
      · refine ⟨m.ready, Or.inl rfl, fun _ _ _ _ _ _ => hmem, ?_⟩
        simp [Machine.goOn, Machine.wake, hmem, modify_eq_set hparent, Task.told,
          Control.told]
      · refine ⟨m.ready ++ [parent], Or.inr rfl, fun _ _ _ _ _ _ => by simp, ?_⟩
        simp [Machine.goOn, Machine.wake, hmem, modify_eq_set hparent, Task.told,
          Control.told]
    | _ =>
      refine ⟨m.ready, Or.inl rfl, ?_, ?_⟩
      · intro other step missing ended h hc
        cases h
        cases hc
      · rw [modify_eq_set hparent]
        simp [Task.told, Control.told, set_self hparent]

theorem stop_turn (htask : m.tasks[id]? = some task) (hrun : m.runs[task.run]? = some run)
    {outcome : Outcome} (hfs : task.frames = []) (hc : task.control = .leave outcome) :
    Turn invoker m id [if task.parent.isSome then .ended outcome else .returned outcome]
      (m.stop id task outcome) := by
  unfold Machine.stop
  cases hparent : task.parent with
  | none =>
    have h : Turn invoker m id _ _ := .returns htask hrun hparent hfs hc
    cases outcome <;>
      simpa [Machine.goOn, Machine.pause, Machine.emit, Machine.finalEvent, Deed.event?,
        Deed.effect, Deed.verdict?, Progress.record, List.filterMap_cons, modify_eq_set htask,
        modify_eq_set hrun, set_modify hrun] using h
  | some parent =>
    obtain ⟨ready, hready, hwoken, hnotify⟩ := notify_eq ((m.goOn id .stopped).pause) parent id
      outcome
    have hruns : m.runs.set task.run (run.record [.ended outcome]) = m.runs := by
      rw [Plain.record ⟨fun _ => rfl, rfl⟩]
      simp [List.filterMap_cons, Deed.event?, set_self hrun]
    have htasks : ((m.goOn id .stopped).pause).tasks =
        m.tasks.set id { task with control := .stopped } := by
      simp [Machine.goOn, Machine.pause, modify_eq_set htask]
    rw [htasks] at hwoken hnotify
    have h : Turn invoker m id _ _ := .ends htask hrun hparent hfs hc hready hwoken
    rw [hruns] at h
    show Turn invoker m id [.ended outcome] ((m.goOn id .stopped).pause.notify parent id outcome)
    rw [hnotify]
    exact h

theorem leave_turn (htask : m.tasks[id]? = some task) (hrun : m.runs[task.run]? = some run)
    {outcome : Outcome} (hc : task.control = .leave outcome) :
    Turn invoker m id (task.closing outcome) (m.leave id task run outcome) := by
  unfold Machine.leave Task.closing
  cases hfs : task.frames with
  | nil => exact stop_turn htask hrun hfs hc
  | cons frame fs =>
    cases frame with
    | finish step =>
      cases outcome with
      | done =>
        refine Turn.reports htask hrun rfl ⟨fun _ => rfl, rfl⟩ rfl ?_
        rw [hc, hfs]
        cases hnext : step.next with
        | none => exact .finish fun _ => hnext
        | some target => exact .next hnext
      | failed failure =>
        refine Turn.reports htask hrun rfl ⟨fun _ => rfl, rfl⟩ rfl ?_
        rw [hc, hfs]
        exact .finish nofun
      | panicked payload =>
        refine Turn.quiet htask hrun rfl ⟨fun _ => rfl, rfl⟩ rfl ?_
        rw [hc, hfs]
        exact .finish nofun
    | sequence steps =>
      cases outcome with
      | done =>
        cases steps with
        | nil =>
          refine Turn.quiet htask hrun rfl ⟨fun _ => rfl, rfl⟩ rfl ?_
          rw [hc, hfs]
          exact .closed fun _ => rfl
        | cons target rest =>
          refine Turn.quiet htask hrun rfl ⟨fun _ => rfl, rfl⟩ rfl ?_
          rw [hc, hfs]
          exact .child
      | failed failure =>
        have hadv : Advance invoker m.calls run task.frames task.control [] fs
            (.leave (.failed failure)) := by
          rw [hc, hfs]
          exact .closed nofun
        cases steps <;> exact Turn.quiet htask hrun rfl ⟨fun _ => rfl, rfl⟩ rfl hadv
      | panicked payload =>
        have hadv : Advance invoker m.calls run task.frames task.control [] fs
            (.leave (.panicked payload)) := by
          rw [hc, hfs]
          exact .closed nofun
        cases steps <;> exact Turn.quiet htask hrun rfl ⟨fun _ => rfl, rfl⟩ rfl hadv

/-- What an answer does to the variables. -/
theorem effect_answered (step : Step) (c : Call) (result : Activity.Result) (store : Store) :
    (Deed.answered step c result).effect store =
      Assoc.insert step.id result.toValue
        (Machine.keepData c.resultVariable result store) := by
  obtain ⟨success, data, error⟩ := result
  obtain ⟨activity, arguments, target⟩ := c
  cases target <;> cases success <;> cases data <;> rfl

theorem receive_turn (htask : m.tasks[id]? = some task) (hrun : m.runs[task.run]? = some run)
    {step : Step} {c : Call} {result : Activity.Result}
    (hc : task.control = .receive step c (.result result)) :
    Turn invoker m id [.answered step c result] (m.receive id task step c (.result result)) := by
  have hadv : Advance invoker m.calls run task.frames (.receive step c (.result result)) _ _ _ :=
    .answer
  rw [← hc] at hadv
  have h := Turn.stays htask hrun hadv rfl
  have hevent : [Deed.answered step c result].filterMap Deed.event? = [] := rfl
  simpa [Machine.receive, Machine.update, Machine.goOn, modify_eq_set htask, modify_eq_set hrun,
    Progress.record, hevent, effect_answered, Deed.verdict?] using h

theorem join_turn (htask : m.tasks[id]? = some task) (hrun : m.runs[task.run]? = some run)
    {step : Step} {missing : Nat} {ended : List (Nat × Outcome)}
    (hc : task.control = .join step missing ended) :
    Turn invoker m id [] (m.join id step missing ended) := by
  have hgo : ∀ control : Control,
      Advance invoker m.calls run task.frames task.control [] task.frames control →
      Turn invoker m id [] (m.goOn id control) := by
    intro control hadv
    rw [goOn_eq_goInto htask]
    exact Turn.quiet htask hrun rfl ⟨fun _ => rfl, rfl⟩ rfl hadv
  rw [hc] at hgo
  cases ended with
  | nil =>
    refine Turn.idle fun other r hother _ => ?_
    rw [htask] at hother
    rw [← Option.some.inj hother, hc]
    rfl
  | cons first rest =>
    obtain ⟨branch, outcome⟩ := first
    cases outcome with
    | done =>
      apply hgo
      split
      · exact .joined ‹_›
      · exact .take (by omega)
    | failed failure => exact hgo _ (.broken rfl)
    | panicked payload => exact hgo _ (.broken rfl)

theorem act_turn (htask : m.tasks[id]? = some task) (hrun : m.runs[task.run]? = some run) :
    Turn invoker m id (task.deeds invoker m.calls m.tasks.length run)
      (m.act invoker id task run) := by
  unfold Machine.act Task.deeds
  cases hc : task.control with
  | start => exact begin_turn htask hrun hc
  | enter step => exact enter_turn htask hrun hc
  | leave outcome => exact leave_turn htask hrun hc
  | receive step c ending =>
    cases ending with
    | result result => exact receive_turn htask hrun hc
    | panic payload =>
      dsimp only [Machine.receive]
      rw [goOn_eq_goInto htask]
      refine Turn.quiet htask hrun rfl ⟨fun _ => rfl, rfl⟩ rfl ?_
      rw [hc]
      exact .panic
  | join step missing ended => exact join_turn htask hrun hc
  | stopped =>
    refine Turn.idle fun other r hother _ => ?_
    rw [htask] at hother
    rw [← Option.some.inj hother, hc]
    trivial

/-- **Every small step is a turn** of the task at the head of the line, with the deeds that are
read off the machine. -/
theorem step_turn (h : m.step invoker = some m') :
    ∃ rest, m.ready = (m.deeds invoker).1 :: rest ∧
      Turn invoker m (m.deeds invoker).1 (m.deeds invoker).2 m' := by
  unfold Machine.step at h
  unfold Machine.deeds
  cases hready : m.ready with
  | nil => rw [hready] at h; cases h
  | cons id rest =>
    rw [hready] at h
    refine ⟨rest, ?_⟩
    dsimp only at h ⊢
    cases htask : m.tasks[id]? with
    | none =>
      rw [htask] at h
      cases h
      exact ⟨rfl, .idle fun task run ht => by rw [htask] at ht; cases ht⟩
    | some task =>
      rw [htask] at h
      dsimp only at h ⊢
      cases hrun : m.runs[task.run]? with
      | none =>
        rw [hrun] at h
        cases h
        refine ⟨rfl, .idle fun other run ho hr => ?_⟩
        rw [htask] at ho
        cases ho
        rw [hrun] at hr
        cases hr
      | some run =>
        rw [hrun] at h
        cases h
        exact ⟨rfl, act_turn htask hrun⟩

/-! ### What every turn keeps to -/

/-- The invoker receives the calls among the deeds, and no others. -/
theorem Turn.calls_eq {deeds : List Deed} (h : Turn invoker m id deeds m') :
    m'.calls = m.calls ++ deeds.filterMap Deed.invocation? := by
  cases h with
  | idle => simp [Machine.pause]
  | goes => rfl
  | forks => simp [List.filterMap_cons, Deed.invocation?]
  | ends => simp [List.filterMap_cons, Deed.invocation?]
  | returns => simp [List.filterMap_cons, Deed.invocation?]

/-- The events, the variables and the end of the runs come about as the deeds say, for the run of
the task alone. -/
theorem Turn.runs_eq {deeds : List Deed} (h : Turn invoker m id deeds m') :
    (deeds = [] ∧ m'.runs = m.runs) ∨
      ∃ task run, m.tasks[id]? = some task ∧ m.runs[task.run]? = some run ∧
        m'.runs = m.runs.set task.run (run.record deeds) := by
  cases h with
  | idle => exact Or.inl ⟨rfl, rfl⟩
  | goes htask hrun => exact Or.inr ⟨_, _, htask, hrun, rfl⟩
  | forks htask hrun => exact Or.inr ⟨_, _, htask, hrun, rfl⟩
  | ends htask hrun => exact Or.inr ⟨_, _, htask, hrun, rfl⟩
  | returns htask hrun => exact Or.inr ⟨_, _, htask, hrun, rfl⟩

end Flowgraph.Run

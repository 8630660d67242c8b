import Flowgraph.Proofs.Run.Containment

/-!
# Steps that fail by themselves

An activity without a name and a step one of whose branches does not exist fail as soon as they are
entered (`flaw?`). All that a task does in such a step is to enter it and to turn back with the
failure (`Advance.flawed`), so the step is over after two small steps of the task
(`Machine.step_step_of_flaw`).
-/

set_option autoImplicit false

namespace Flowgraph.Run

open Machine (resolveAll)

variable {invoker : Invoker} {d : Definition} {input : Store} {x : Scene} {m m' : Machine}
  {l : Ledger} {id j n : Nat} {deeds : List Deed} {task : Task} {run : Progress}
  {history new : List Entry} {trail : Trail} {a : Address} {step : Step} {failure : Failure}
  {frames frames' : List Frame} {control control' : Control} {calls : List Invocation} {e : Entry}

/-! ### Flaws -/

/-- The failure that a step comes to by itself: an activity has no name, or a branch does not exist;
of several branches that do not, the first one counts. -/
def flaw? (d : Definition) (step : Step) : Option Failure :=
  match step.work with
  | .activity call =>
    if Text.blank call.activity then some (.missingActivityName step.id) else none
  | .parallel branches =>
    (branches.find? fun id => (d.find? id).isNone).map (.missingBranch step.id)
  | .sequence _ | .condition _ => none

/-- The branches of a step are resolved unless one of them does not exist. -/
theorem resolveAll_eq (d : Definition) (ids : List String) :
    resolveAll d ids = match ids.find? fun id => (d.find? id).isNone with
      | some id => .error id
      | none => .ok (ids.filterMap d.find?) := by
  induction ids with
  | nil => rfl
  | cons id ids ih =>
    rw [resolveAll, List.find?_cons, ih, List.filterMap_cons]
    cases d.find? id with
    | none => rfl
    | some step =>
      cases ids.find? fun id => (d.find? id).isNone <;> rfl

/-- What the flaw of a step is. -/
theorem flaw_cases (h : flaw? d step = some failure) :
    (∃ call, step.work = .activity call ∧ Text.blank call.activity = true ∧
      failure = .missingActivityName step.id) ∨
    ∃ ids missing, step.work = .parallel ids ∧ resolveAll d ids = .error missing ∧
      failure = .missingBranch step.id missing := by
  unfold flaw? at h
  cases hwork : step.work with
  | activity call =>
    rw [hwork] at h
    dsimp only at h
    split at h
    · exact Or.inl ⟨call, rfl, ‹_›, (Option.some.inj h).symm⟩
    · cases h
  | parallel ids =>
    rw [hwork] at h
    obtain ⟨missing, hmissing, rfl⟩ := Option.map_eq_some_iff.1 h
    exact Or.inr ⟨ids, missing, rfl, by rw [resolveAll_eq, hmissing], rfl⟩
  | sequence steps =>
    rw [hwork] at h
    cases h
  | condition choice =>
    rw [hwork] at h
    cases h

/-- **A task that enters a step with a flaw** is on its way to fail with it. -/
theorem Advance.flawed (h : Advance invoker calls run frames (.enter step) deeds frames' control')
    (hflaw : flaw? run.definition step = some failure) :
    deeds = [.entered step] ∧ frames' = .finish step :: frames ∧
      control' = .leave (.failed failure) := by
  rcases flaw_cases hflaw with ⟨call, hwork, hblank, rfl⟩ | ⟨ids, missing, hwork, hall, rfl⟩
  · cases h <;> simp_all
  · cases h <;> simp_all

/-- Branches are only started where there is no flaw. -/
theorem flaw_of_resolved {ids : List String} {branches : List Step}
    (hwork : step.work = .parallel ids) (hall : resolveAll d ids = .ok branches) :
    flaw? d step = none := by
  by_contra hsome
  obtain ⟨failure, hflaw⟩ := Option.ne_none_iff_exists'.1 hsome
  rcases flaw_cases hflaw with ⟨call, hcall, -⟩ | ⟨others, missing, hother, hmissing, -⟩
  · rw [hwork] at hcall
    cases hcall
  · rw [hwork] at hother
    cases hother
    rw [hall] at hmissing
    cases hmissing

/-- The part of a task that enters a step with a flaw. -/
theorem Own.flawed (hown : Own invoker m id deeds task) {old : Task}
    (hold : m.tasks[id]? = some old) (hrun : m.runs[old.run]? = some run)
    (hc : old.control = .enter step) (hflaw : flaw? run.definition step = some failure) :
    deeds = [.entered step] ∧
      task = ⟨old.run, old.parent, .finish step :: old.frames, .leave (.failed failure)⟩ := by
  cases hown with
  | idle htask hidle =>
    obtain rfl := Option.some.inj (hold.symm.trans htask)
    have hnow := hidle run hrun
    rw [hc] at hnow
    exact hnow.elim
  | goes htask hrun' hadv =>
    obtain rfl := Option.some.inj (hold.symm.trans htask)
    obtain rfl := Option.some.inj (hrun.symm.trans hrun')
    rw [hc] at hadv
    obtain ⟨rfl, rfl, rfl⟩ := hadv.flawed hflaw
    exact ⟨rfl, rfl⟩
  | forks htask hrun' hc' hwork hall =>
    obtain rfl := Option.some.inj (hold.symm.trans htask)
    obtain rfl := Option.some.inj (hrun.symm.trans hrun')
    obtain rfl := Control.enter.inj (hc.symm.trans hc')
    rw [flaw_of_resolved hwork hall] at hflaw
    cases hflaw
  | stops htask hframes hc' =>
    obtain rfl := Option.some.inj (hold.symm.trans htask)
    rw [hc] at hc'
    cases hc'

/-- The part of a task that leaves a step with a failure. -/
theorem Own.finishes (hown : Own invoker m id deeds task) {old : Task}
    (hold : m.tasks[id]? = some old) (hrun : m.runs[old.run]? = some run)
    (hframes : old.frames = .finish step :: frames)
    (hc : old.control = .leave (.failed failure)) :
    deeds = [.finished step (.failed failure)] ∧
      task = ⟨old.run, old.parent, frames, .leave (.failed failure)⟩ := by
  cases hown with
  | idle htask hidle =>
    obtain rfl := Option.some.inj (hold.symm.trans htask)
    have hnow := hidle run hrun
    rw [hc] at hnow
    exact hnow.elim
  | goes htask _ hadv =>
    obtain rfl := Option.some.inj (hold.symm.trans htask)
    rw [hframes, hc] at hadv
    cases hadv
    exact ⟨rfl, rfl⟩
  | forks htask _ hc' =>
    obtain rfl := Option.some.inj (hold.symm.trans htask)
    rw [hc] at hc'
    cases hc'
  | stops htask hframes' =>
    obtain rfl := Option.some.inj (hold.symm.trans htask)
    rw [hframes] at hframes'
    cases hframes'

/-! ### Two small steps -/

/-- A small step of the task at the head of the line. -/
theorem Machine.step_head {rest : List Nat} (hready : m.ready = id :: rest)
    (htask : m.tasks[id]? = some task) (hrun : m.runs[task.run]? = some run) :
    m.step invoker = some (m.act invoker id task run) := by
  unfold Machine.step
  simp only [hready, htask, hrun]

/-- A task enters a step with a flaw. -/
theorem Machine.step_of_flaw {rest : List Nat} (hready : m.ready = id :: rest)
    (htask : m.tasks[id]? = some task) (hrun : m.runs[task.run]? = some run)
    (hc : task.control = .enter step) (hflaw : flaw? run.definition step = some failure) :
    m.step invoker = some
      { m with
        tasks := m.tasks.set id
          ⟨task.run, task.parent, .finish step :: task.frames, .leave (.failed failure)⟩
        runs := m.runs.set task.run
          { run with events := run.events ++ [.stepStarted step.id step.work.kind] } } := by
  have hmove : ∀ control, (m.emit task.run (.stepStarted step.id step.work.kind)).goInto id
      (.finish step :: task.frames) control =
        { m with
          tasks := m.tasks.set id ⟨task.run, task.parent, .finish step :: task.frames, control⟩
          runs := m.runs.set task.run
            { run with events := run.events ++ [.stepStarted step.id step.work.kind] } } := by
    intro control
    simp [Machine.emit, Machine.goInto, modify_eq_set htask, modify_eq_set hrun]
  rw [Machine.step_head hready htask hrun, ← hmove, Machine.act, hc]
  unfold Machine.enter
  rcases flaw_cases hflaw with ⟨call, hwork, hblank, rfl⟩ | ⟨ids, missing, hwork, hall, rfl⟩
  · simp only [hwork, hblank, if_true]
  · simp only [hwork, hall]

/-- A task leaves a step that has failed. -/
theorem Machine.step_of_failed {rest : List Nat} (hready : m.ready = id :: rest)
    (htask : m.tasks[id]? = some task) (hrun : m.runs[task.run]? = some run)
    (hframes : task.frames = .finish step :: frames)
    (hc : task.control = .leave (.failed failure)) :
    m.step invoker = some
      { m with
        tasks := m.tasks.set id ⟨task.run, task.parent, frames, .leave (.failed failure)⟩
        runs := m.runs.set task.run
          { run with events := run.events ++
            [.stepFinished step.id step.work.kind .failed (some failure.message)] } } := by
  rw [Machine.step_head hready htask hrun, Machine.act, hc]
  simp [Machine.leave, hframes, Machine.emit, Machine.goInto, modify_eq_set htask,
    modify_eq_set hrun]

/-- **A step with a flaw is over after two small steps**, and nothing has become of it but two
reports: the task leaves with the failure what it was inside of before. -/
theorem Machine.step_step_of_flaw {rest : List Nat} (hready : m.ready = id :: rest)
    (htask : m.tasks[id]? = some task) (hrun : m.runs[task.run]? = some run)
    (hc : task.control = .enter step) (hflaw : flaw? run.definition step = some failure) :
    (m.step invoker).bind (·.step invoker) = some
      { m with
        tasks := m.tasks.set id { task with control := .leave (.failed failure) }
        runs := m.runs.set task.run
          { run with events := run.events ++ [.stepStarted step.id step.work.kind,
            .stepFinished step.id step.work.kind .failed (some failure.message)] } } := by
  have hid := lt_of_getElem? htask
  have hlt := lt_of_getElem? hrun
  rw [Machine.step_of_flaw hready htask hrun hc hflaw, Option.bind_some]
  refine Eq.trans (Machine.step_of_failed hready (List.getElem?_set_self hid)
    (List.getElem?_set_self hlt) rfl rfl) (congrArg some ?_)
  simp only [List.set_set, List.append_assoc, List.cons_append, List.nil_append]

end Flowgraph.Run

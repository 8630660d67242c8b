import Flowgraph.Proofs.Canvas.RoundTrip
import Flowgraph.Proofs.Run.Replay
import Flowgraph.Proofs.Run.Termination

/-!
# Runs of normal forms

A definition and its normal form do the same things in a run. `Machine.normal` turns a machine
that works on the one into a machine that works on the other, and all parts of a small step go
along with it. The machines keep in step with one exception: a sequence takes a small step to pass
over a child that does not exist, and the normal form does not have that child. Such a step does
nothing to the other machine, and there are only so many of them, since each takes a child off a
list (`Machine.slack`). So the two machines get to the same places in the end (`run_normal`,
`run_of_normal`).

Missing branches are the one thing that the normal form does not show: a run that comes to a step
with a missing branch fails, where the normal form goes on without it. So they are excluded
(`Definition.Branched`).
-/

set_option autoImplicit false

namespace Flowgraph

/-- Whether all branches of steps exist. -/
def Definition.Branched (d : Definition) : Prop :=
  ∀ s ∈ d.steps, ∀ branches, s.work = .parallel branches → ∀ id ∈ branches, id ∈ d.ids

namespace Run

open Machine (follow resolveAll)

/-! ### The parts of a machine -/

/-- A frame for the normal forms of its steps. -/
def Frame.normal (known : List String) : Frame → Frame
  | .finish step => .finish (step.normal known)
  | .sequence rest => .sequence (rest.filter (· ∈ known))

/-- A control for the normal forms of its steps. -/
def Control.normal (known : List String) : Control → Control
  | .start => .start
  | .enter step => .enter (step.normal known)
  | .leave outcome => .leave outcome
  | .receive step call ending => .receive (step.normal known) call ending
  | .join step missing ended => .join (step.normal known) missing ended
  | .stopped => .stopped

/-- A task that works on the normal form. -/
def Task.normal (known : List String) (task : Task) : Task where
  run := task.run
  parent := task.parent
  frames := task.frames.map (Frame.normal known)
  control := task.control.normal known

/-- A run of the normal form. -/
def Progress.normal (run : Progress) : Progress := { run with definition := run.definition.normal }

/-- A machine whose tasks work on the normal forms, where `known` are the ids of the steps. -/
def Machine.normal (known : List String) (m : Machine) : Machine :=
  { m with
    runs := m.runs.map Progress.normal
    tasks := m.tasks.map (Task.normal known) }

section

variable {m : Machine} {known : List String} {d : Definition}

theorem normal_emit (run : Nat) (event : Event Unit) :
    (m.emit run event).normal known = (m.normal known).emit run event := by
  simp only [Machine.emit, Machine.normal, Machine.mk.injEq, true_and, and_true]
  exact map_modify fun r => rfl

theorem normal_update (run : Nat) (f : Store → Store) :
    (m.update run f).normal known = (m.normal known).update run f := by
  simp only [Machine.update, Machine.normal, Machine.mk.injEq, true_and, and_true]
  exact map_modify fun r => rfl

theorem normal_goOn (task : Nat) (control : Control) :
    (m.goOn task control).normal known =
      (m.normal known).goOn task (control.normal known) := by
  simp only [Machine.goOn, Machine.normal, Machine.mk.injEq, true_and, and_true]
  exact map_modify fun t => rfl

theorem normal_goInto (task : Nat) (frames : List Frame) (control : Control) :
    (m.goInto task frames control).normal known =
      (m.normal known).goInto task (frames.map (Frame.normal known)) (control.normal known) := by
  simp only [Machine.goInto, Machine.normal, Machine.mk.injEq, true_and, and_true]
  exact map_modify fun t => rfl

theorem normal_wake (task : Nat) : (m.wake task).normal known = (m.normal known).wake task := by
  by_cases h : task ∈ m.ready
  · have h' : task ∈ (m.normal known).ready := h
    rw [Machine.wake, if_pos h, Machine.wake, if_pos h']
  · have h' : task ∉ (m.normal known).ready := h
    rw [Machine.wake, if_neg h, Machine.wake, if_neg h']
    rfl

/-- A reference is followed to the same place, or to nowhere in both. -/
theorem normal_follow (d : Definition) (target : String) :
    (follow d target).normal d.ids = follow d.normal target := by
  unfold follow
  rw [Definition.find?_normal]
  cases d.find? target <;> rfl

/-- A reference that may be missing: what does not resolve is passed over in the definition and
not there in its normal form. -/
theorem normal_follow_option (d : Definition) (target : Option String) :
    (match target with
      | some target => follow d target
      | none => .leave .done : Control).normal d.ids =
      match target.filter (· ∈ d.ids) with
      | some target => follow d.normal target
      | none => .leave .done := by
  cases target with
  | none => rfl
  | some target =>
    by_cases h : target ∈ d.ids
    · rw [Option.filter_some, if_pos (by simpa using h)]
      exact normal_follow d target
    · have hnone := Definition.find?_eq_none_of_notMem h
      rw [Option.filter_some, if_neg (by simpa using h)]
      simp only [follow, hnone]
      rfl

/-- Branches that exist are resolved to the normal forms of what they were resolved to. -/
theorem resolveAll_normal {branches : List String} (h : ∀ id ∈ branches, id ∈ d.ids) :
    resolveAll d.normal branches = (resolveAll d branches).map (List.map (Step.normal d.ids)) := by
  induction branches with
  | nil => rfl
  | cons id rest ih =>
    obtain ⟨step, hstep⟩ := Option.isSome_iff_exists.1
      (Definition.find?_isSome_iff.2 (h id (List.mem_cons_self ..)))
    unfold resolveAll
    rw [Definition.find?_normal, hstep, ih fun id hid => h id (List.mem_cons_of_mem _ hid)]
    simp only [Option.map_some]
    cases resolveAll d rest <;> rfl

/-! ### The parts of a small step -/

theorem normal_call (invoker : Invoker) (id : Nat) (task : Task) (store : Store) (step : Step)
    (c : Call) : (m.call invoker id task store step c).normal known =
      (m.normal known).call invoker id (task.normal known) store (step.normal known) c := by
  have hgo := @normal_goInto { m with calls := m.calls ++ [⟨c.activity, c.arguments.resolve store⟩] }
    known id (.finish step :: task.frames)
    (.receive step c (invoker m.calls ⟨c.activity, c.arguments.resolve store⟩).ending)
  have hcalls : (m.normal known).calls = m.calls := rfl
  unfold Machine.call
  dsimp only
  rw [hcalls]
  split
  · exact hgo
  · exact congrArg (fun n : Machine => ({ n.pause with
      timers := n.timers ++ [(n.now +
        (invoker m.calls ⟨c.activity, c.arguments.resolve store⟩).delay, id)] } : Machine)) hgo

theorem normal_fork (id : Nat) (task : Task) (step : Step) (branches : List Step) :
    (m.fork id task step branches).normal known =
      (m.normal known).fork id (task.normal known) (step.normal known)
        (branches.map (Step.normal known)) := by
  simp only [Machine.fork, Machine.normal, Machine.pause, Machine.mk.injEq, List.map_append,
    List.map_map, List.length_map, true_and, and_true]
  refine congrArg₂ (· ++ ·) (map_modify fun t => rfl) ?_
  rfl

theorem normal_receive (id : Nat) (task : Task) (step : Step) (c : Call) (ending : Ending) :
    (m.receive id task step c ending).normal known =
      (m.normal known).receive id (task.normal known) (step.normal known) c ending := by
  cases ending with
  | panic payload => exact normal_goOn id _
  | result r =>
    simp only [Machine.receive]
    rw [normal_goOn, normal_update]
    rfl

theorem normal_join (id : Nat) (step : Step) (missing : Nat) (ended : List (Nat × Outcome)) :
    (m.join id step missing ended).normal known =
      (m.normal known).join id (step.normal known) missing ended := by
  rcases ended with _ | ⟨⟨branch, outcome⟩, rest⟩
  · rfl
  · cases outcome with
    | done =>
      simp only [Machine.join]
      rw [normal_goOn]
      split <;> rfl
    | failed failure => exact normal_goOn id _
    | panicked payload => exact normal_goOn id _

theorem normal_notify (parent branch : Nat) (outcome : Outcome) :
    (m.notify parent branch outcome).normal known =
      (m.normal known).notify parent branch outcome := by
  have htask : (m.normal known).tasks[parent]? = m.tasks[parent]?.map (Task.normal known) :=
    List.getElem?_map
  unfold Machine.notify
  rw [htask]
  cases m.tasks[parent]? with
  | none => rfl
  | some task =>
    obtain ⟨run, grandparent, frames, control⟩ := task
    cases control with
    | join step missing ended =>
      simp only [Option.map_some, Task.normal, Control.normal]
      rw [normal_wake, normal_goOn]
      rfl
    | _ => rfl

theorem normal_stop (id : Nat) (task : Task) (outcome : Outcome) :
    (m.stop id task outcome).normal known =
      (m.normal known).stop id (task.normal known) outcome := by
  have hgo : ((m.goOn id .stopped).pause).normal known = ((m.normal known).goOn id .stopped).pause :=
    congrArg Machine.pause (normal_goOn id .stopped)
  have hover : ∀ (m : Machine) (run : Nat), Machine.normal known { m with
      runs := m.runs.modify run fun r => { r with outcome := some outcome } } =
        { m.normal known with
          runs := (m.normal known).runs.modify run fun r => { r with outcome := some outcome } } := by
    intro m run
    simp only [Machine.normal, Machine.mk.injEq, true_and, and_true]
    exact map_modify fun r => rfl
  unfold Machine.stop
  dsimp only [Task.normal]
  cases task.parent with
  | some parent => rw [normal_notify, hgo]
  | none =>
    dsimp only
    rw [hover, ← hgo]
    cases Machine.finalEvent outcome with
    | none => rfl
    | some event =>
      dsimp only
      rw [normal_emit]

theorem normal_begin (id : Nat) (task : Task) (run : Progress) (hroot : run.definition.root ≠ "") :
    (m.begin id task run).normal run.definition.ids =
      (m.normal run.definition.ids).begin id (task.normal run.definition.ids) run.normal := by
  have hstep : run.definition.normal.rootStep? =
      run.definition.rootStep?.map (Step.normal run.definition.ids) := by
    have hsame : run.definition.normal.root = run.definition.root := if_neg hroot
    rw [Definition.rootStep?, hsame]
    exact Definition.find?_normal
  have hsame : run.definition.normal.root = run.definition.root := if_neg hroot
  unfold Machine.begin
  rw [normal_goOn, normal_emit]
  dsimp only [Task.normal, Progress.normal]
  rw [hstep, hsame]
  cases run.definition.rootStep? <;> rfl

theorem normal_enter (invoker : Invoker) (id : Nat) (task : Task) (run : Progress) (step : Step)
    (hbranches : ∀ branches, step.work = .parallel branches →
      ∀ id ∈ branches, id ∈ run.definition.ids) :
    (m.enter invoker id task run step).normal run.definition.ids =
      (m.normal run.definition.ids).enter invoker id (task.normal run.definition.ids) run.normal
        (step.normal run.definition.ids) := by
  obtain ⟨stepId, name, work, next⟩ := step
  cases work with
  | activity c =>
    simp only [Machine.enter, Step.normal, Work.keep]
    split
    · rw [normal_goInto, normal_emit]
      rfl
    · rw [normal_call, normal_emit]
      rfl
  | sequence steps =>
    simp only [Machine.enter, Step.normal, Work.keep]
    rw [normal_goInto, normal_emit]
    rfl
  | parallel branches =>
    have hids := hbranches branches rfl
    have hresolve := resolveAll_normal hids
    have hstep : Step.normal run.definition.ids ⟨stepId, name, .parallel branches, next⟩ =
        ⟨stepId, some (name.getD stepId), .parallel branches,
          next.filter (· ∈ run.definition.ids)⟩ := by
      rw [Step.normal, Work.keep, filter_known hids]
    rw [hstep]
    simp only [Machine.enter, Progress.normal, hresolve]
    rcases resolveAll run.definition branches with missing | _ | ⟨first, rest⟩
    · simp only [Except.map]
      rw [normal_goInto, normal_emit, List.map_cons, Frame.normal, hstep]
      rfl
    · simp only [Except.map, List.map_nil]
      rw [normal_goInto, normal_emit, List.map_cons, Frame.normal, hstep]
      rfl
    · simp only [Except.map, List.map_cons]
      rw [normal_fork, normal_emit, hstep]
      rfl
  | condition choice =>
    have hfollow := normal_follow_option run.definition
      (if Condition.holds choice.arguments run.store then choice.onSuccess else choice.onFailure)
    simp only [Machine.enter, Step.normal, Work.keep, Progress.normal]
    rw [normal_goInto, normal_emit]
    rw [apply_ite (Option.filter _)] at hfollow
    exact congrArg (Machine.goInto _ _ _) hfollow

/-- A task that is about to pass over a child that does not exist. -/
def Task.Skips (d : Definition) (task : Task) : Prop :=
  ∃ target rest frames, task.control = .leave .done ∧
    task.frames = .sequence (target :: rest) :: frames ∧ target ∉ d.ids

/-- Leaving a sequence that is over or broken off. -/
theorem leave_sequence {id : Nat} {task : Task} {run : Progress} {outcome : Outcome}
    {rest : List String} {frames : List Frame} (hframes : task.frames = .sequence rest :: frames)
    (h : outcome = .done → rest = []) :
    m.leave id task run outcome = m.goInto id frames (.leave outcome) := by
  unfold Machine.leave
  rw [hframes]
  cases outcome with
  | done =>
    obtain rfl := h rfl
    rfl
  | _ => cases rest <;> rfl

/-- A task that leaves a frame, other than by passing over a child that does not exist. -/
theorem normal_leave (id : Nat) (task : Task) (run : Progress) (outcome : Outcome)
    (hcontrol : task.control = .leave outcome) (hskips : ¬ task.Skips run.definition) :
    (m.leave id task run outcome).normal run.definition.ids =
      (m.normal run.definition.ids).leave id (task.normal run.definition.ids) run.normal
        outcome := by
  obtain ⟨taskRun, parent, frames, control⟩ := task
  have hkind : ∀ step : Step, (step.work.keep run.definition.ids).kind = step.work.kind := by
    intro step
    cases step.work <;> rfl
  rcases frames with _ | ⟨frame, frames⟩
  · exact normal_stop id _ outcome
  · cases frame with
    | finish step =>
      have hfollow := normal_follow_option run.definition step.next
      cases outcome with
      | done =>
        simp only [Machine.leave, Task.normal, List.map_cons, Frame.normal, Progress.normal,
          Step.normal, hkind]
        rw [normal_goInto, normal_emit]
        exact congrArg (Machine.goInto _ _ _) hfollow
      | failed failure =>
        simp only [Machine.leave, Task.normal, List.map_cons, Frame.normal, Step.normal, hkind]
        rw [normal_goInto, normal_emit]
        rfl
      | panicked payload => exact normal_goInto id frames _
    | sequence rest =>
      by_cases hover : outcome = .done → rest = []
      · have hover' : outcome = .done → rest.filter (· ∈ run.definition.ids) = [] := fun hdone => by
          rw [hover hdone]
          rfl
        rw [leave_sequence rfl hover, leave_sequence rfl hover', normal_goInto]
        rfl
      · obtain ⟨rfl, hrest⟩ := Classical.not_imp.1 hover
        obtain ⟨target, rest, rfl⟩ := List.exists_cons_of_ne_nil hrest
        -- the child exists, since it is not passed over
        have htarget : target ∈ run.definition.ids := by
          by_contra hnot
          exact hskips ⟨target, rest, frames, hcontrol, rfl, hnot⟩
        have hkeep : (target :: rest).filter (· ∈ run.definition.ids) =
            target :: rest.filter (· ∈ run.definition.ids) :=
          List.filter_cons_of_pos (by simpa using htarget)
        simp only [Machine.leave, Task.normal, List.map_cons, Frame.normal, hkeep,
          Progress.normal]
        rw [normal_goInto, normal_follow]
        rfl

/-- Passing over a child that does not exist does nothing to the normal form. -/
theorem normal_skip {id : Nat} {task : Task} (htask : m.tasks[id]? = some task)
    (run : Progress) (invoker : Invoker) (hskips : task.Skips run.definition) :
    (m.act invoker id task run).normal run.definition.ids = m.normal run.definition.ids := by
  obtain ⟨target, rest, frames, hcontrol, hframes, hnot⟩ := hskips
  obtain ⟨taskRun, parent, _, _⟩ := task
  obtain rfl : _ = Control.leave .done := hcontrol
  obtain rfl : _ = Frame.sequence (target :: rest) :: frames := hframes
  have hfollow : follow run.definition target = .leave .done := by
    rw [follow, Definition.find?_eq_none_of_notMem hnot]
  have hkeep : (target :: rest).filter (· ∈ run.definition.ids) =
      rest.filter (· ∈ run.definition.ids) :=
    List.filter_cons_of_neg (by simpa using hnot)
  have hsame : (m.normal run.definition.ids).tasks[id]? = some (Task.normal run.definition.ids
      ⟨taskRun, parent, .sequence (target :: rest) :: frames, .leave .done⟩) := by
    rw [Machine.normal, List.getElem?_map, htask]
    rfl
  simp only [Machine.act, Machine.leave, hfollow]
  rw [normal_goInto, Machine.goInto, modify_eq_set hsame]
  simp only [List.map_cons, Frame.normal, ← hkeep]
  exact congrArg (fun tasks => ({ m.normal run.definition.ids with tasks } : Machine))
    (set_self hsame)

/-- **A small step of a task goes along with the normal form**, other than passing over a child
that does not exist. -/
theorem normal_act (invoker : Invoker) (id : Nat) (task : Task) (run : Progress)
    (hroot : run.definition.root ≠ "") (hskips : ¬ task.Skips run.definition)
    (hbranches : ∀ step, task.control = .enter step → ∀ branches, step.work = .parallel branches →
      ∀ id ∈ branches, id ∈ run.definition.ids) :
    (m.act invoker id task run).normal run.definition.ids =
      (m.normal run.definition.ids).act invoker id (task.normal run.definition.ids)
        run.normal := by
  have hcontrol : (task.normal run.definition.ids).control =
      task.control.normal run.definition.ids := rfl
  unfold Machine.act
  rw [hcontrol]
  cases hc : task.control with
  | start => exact normal_begin id task run hroot
  | enter step => exact normal_enter invoker id task run step (hbranches step hc)
  | leave outcome => exact normal_leave id task run outcome hc hskips
  | receive step c ending => exact normal_receive id task step c ending
  | join step missing ended => exact normal_join id step missing ended
  | stopped => rfl

end

/-! ### Small steps -/

/-- How many children a frame still has in its list. -/
def Frame.slack : Frame → Nat
  | .finish _ => 0
  | .sequence rest => rest.length

/-- How many children the frames of all tasks still have in their lists. -/
def Machine.slack (m : Machine) : Nat :=
  (m.tasks.map fun task => (task.frames.map Frame.slack).sum).sum

section

variable {invoker : Invoker} {d : Definition} {input : Store} {m m' e : Machine} {l : Ledger}
  {stop : Bool} {limit : Option Nat} {fuel : Nat}

/-- Passing over a child takes it off its list. -/
theorem slack_skip {id : Nat} {task : Task} (htask : m.tasks[id]? = some task) (run : Progress)
    (hskips : task.Skips run.definition) : (m.act invoker id task run).slack < m.slack := by
  obtain ⟨target, rest, frames, hcontrol, hframes, hnot⟩ := hskips
  have hsum := sum_map_set (fun task : Task => (task.frames.map Frame.slack).sum)
    ⟨task.run, task.parent, .sequence rest :: frames, .leave .done⟩ htask
  have hfollow : follow run.definition target = .leave .done := by
    rw [follow, Definition.find?_eq_none_of_notMem hnot]
  have hact : m.act invoker id task run =
      m.goInto id (.sequence rest :: frames) (.leave .done) := by
    simp only [Machine.act, hcontrol, Machine.leave, hframes, hfollow]
  rw [hact, Machine.slack, Machine.slack, Machine.goInto, modify_eq_set htask]
  simp only [hframes, List.map_cons, List.sum_cons, Frame.slack, List.length_cons] at hsum ⊢
  omega

/-- **The machines keep in step**, but for small steps that only take a child off a list. -/
theorem Scene.Placed.step_normal (h : Scene.Placed d ⟨m, l⟩) (hroot : d.root ≠ "")
    (hbranches : d.Branched) (hstep : m.step invoker = some m') :
    (m.normal d.ids).step invoker = some (m'.normal d.ids) ∨
      (m'.normal d.ids = m.normal d.ids ∧ m'.slack < m.slack) := by
  have htasks : ∀ id : Nat, (m.normal d.ids).tasks[id]? = m.tasks[id]?.map (Task.normal d.ids) :=
    fun _ => List.getElem?_map
  have hruns : ∀ n : Nat, (m.normal d.ids).runs[n]? = m.runs[n]?.map Progress.normal :=
    fun _ => List.getElem?_map
  have hline : (m.normal d.ids).ready = m.ready := rfl
  unfold Machine.step at hstep ⊢
  rw [hline]
  cases hready : m.ready with
  | nil =>
    rw [hready] at hstep
    cases hstep
  | cons id rest =>
    rw [hready] at hstep
    dsimp only at hstep ⊢
    rw [htasks]
    cases htask : m.tasks[id]? with
    | none =>
      rw [htask] at hstep
      cases hstep
      exact Or.inl rfl
    | some task =>
      have hrunsTask : (task.normal d.ids).run = task.run := rfl
      rw [htask] at hstep
      dsimp only [Option.map_some] at hstep ⊢
      rw [hrunsTask, hruns]
      cases hrun : m.runs[task.run]? with
      | none =>
        rw [hrun] at hstep
        cases hstep
        exact Or.inl rfl
      | some run =>
        obtain ⟨-, rfl⟩ := h.definition_of_getElem? hrun
        obtain ⟨-, trail, -, hplaced⟩ := h.exists_placed htask
        rw [hrun] at hstep
        cases hstep
        by_cases hskips : task.Skips run.definition
        · exact Or.inr ⟨normal_skip htask run invoker hskips, slack_skip htask run hskips⟩
        · refine Or.inl (congrArg some ?_)
          refine (normal_act invoker id task run hroot hskips fun step hc => ?_).symm
          rw [hc] at hplaced
          exact hbranches step (Definition.at?_mem hplaced.1)

theorem step_normal_eq_none (h : m.step invoker = none) (known : List String) :
    (m.normal known).step invoker = none := by
  have hready := Machine.ready_of_step_eq_none h
  have hline : (m.normal known).ready = m.ready := rfl
  unfold Machine.step
  rw [hline, hready]

/-! ### Runs -/

theorem isOver_normal {known : List String} (run : Nat) :
    (m.normal known).isOver run = m.isOver run := by
  have hruns : (m.normal known).runs[run]? = m.runs[run]?.map Progress.normal := List.getElem?_map
  unfold Machine.isOver
  rw [hruns]
  cases m.runs[run]? <;> rfl

/-- What a machine works towards: the end of its first run, or nothing in particular. -/
def Machine.wanted (stop : Bool) (m : Machine) : Bool := stop && m.isOver 0

theorem wanted_normal {known : List String} :
    (m.normal known).wanted stop = m.wanted stop := by
  unfold Machine.wanted
  rw [isOver_normal]

/-- What comes of a machine when no task can work: it ends as something, or goes on at the next
time. -/
def Machine.lull (wanted : Machine → Bool) (limit : Option Nat) (m : Machine) :
    Machine ⊕ Machine :=
  if wanted m then .inl m
  else match m.nextTime?, limit with
    | some time, some limit =>
      if time ≤ limit then .inr (m.passTo time) else .inl (m.passTo limit)
    | some time, none => .inr (m.passTo time)
    | none, some limit => .inl (m.passTo limit)
    | none, none => .inl m

/-- One round of a run that begins with a small step. -/
theorem run_of_step {wanted : Machine → Bool} (hstep : m.step invoker = some m') :
    Machine.run invoker wanted limit (fuel + 1) m = Machine.run invoker wanted limit fuel m' := by
  conv_lhs => unfold Machine.run
  rw [hstep]

/-- One round of a run in which no task can work. -/
theorem run_of_lull {wanted : Machine → Bool} (hstep : m.step invoker = none) :
    Machine.run invoker wanted limit (fuel + 1) m =
      (m.lull wanted limit).elim some (Machine.run invoker wanted limit fuel) := by
  conv_lhs => unfold Machine.run
  unfold Machine.lull
  rw [hstep]
  dsimp only
  split
  · rfl
  · rcases m.nextTime? with _ | time <;> rcases limit with _ | limit
    case some.some =>
      dsimp only
      split <;> rfl
    all_goals rfl

/-- A lull ends at a time that has passed, if it does not end the run. -/
theorem lull_eq_inr {wanted : Machine → Bool} (h : m.lull wanted limit = .inr m') :
    ∃ time, m' = m.passTo time := by
  unfold Machine.lull at h
  split at h
  · cases h
  · split at h
    · split at h
      · cases h
        exact ⟨_, rfl⟩
      · cases h
    · cases h
      exact ⟨_, rfl⟩
    · cases h
    · cases h

/-- Both machines wait alike. -/
theorem lull_normal {known : List String} :
    (m.normal known).lull (Machine.wanted stop) limit =
      (m.lull (Machine.wanted stop) limit).map (Machine.normal known) (Machine.normal known) := by
  have htime : (m.normal known).nextTime? = m.nextTime? := rfl
  unfold Machine.lull
  rw [wanted_normal, htime]
  split
  · rfl
  · rcases m.nextTime? with _ | time <;> rcases limit with _ | limit
    case some.some =>
      dsimp only
      split <;> rfl
    all_goals rfl

/-- **Wherever a machine gets to, the one for the normal form gets there too.** -/
theorem Scene.Reaches.run_normal (h : Scene.Reaches invoker (Scene.opening d input) ⟨m, l⟩)
    (hroot : d.root ≠ "") (hbranches : d.Branched)
    (hrun : Machine.run invoker (Machine.wanted stop) limit fuel m = some e) :
    ∃ fuel', Machine.run invoker (Machine.wanted stop) limit fuel' (m.normal d.ids) =
      some (e.normal d.ids) := by
  induction fuel generalizing m l with
  | zero => cases hrun
  | succ fuel ih =>
    cases hstep : m.step invoker with
    | some next =>
      rw [run_of_step hstep] at hrun
      obtain ⟨fuel', hfuel'⟩ := ih (h.trans (Scene.Moves.work hstep).reaches) hrun
      rcases h.placed.step_normal hroot hbranches hstep with hnormal | ⟨heq, -⟩
      · exact ⟨fuel' + 1, by rw [run_of_step hnormal, hfuel']⟩
      · exact ⟨fuel', by rw [← heq, hfuel']⟩
    | none =>
      have hnormal := step_normal_eq_none hstep d.ids
      rw [run_of_lull hstep] at hrun
      cases hlull : m.lull (Machine.wanted stop) limit with
      | inl ended =>
        rw [hlull] at hrun
        obtain rfl : ended = e := Option.some.inj hrun
        exact ⟨1, by rw [run_of_lull hnormal, lull_normal, hlull]; rfl⟩
      | inr later =>
        rw [hlull] at hrun
        obtain ⟨time, rfl⟩ := lull_eq_inr hlull
        obtain ⟨fuel', hfuel'⟩ := ih (h.trans (Scene.Moves.wait time).reaches) hrun
        exact ⟨fuel' + 1, by rw [run_of_lull hnormal, lull_normal, hlull]; exact hfuel'⟩

/-- **Wherever the machine for the normal form gets to, the other one gets there too.** -/
theorem Scene.Reaches.run_of_normal (h : Scene.Reaches invoker (Scene.opening d input) ⟨m, l⟩)
    (hroot : d.root ≠ "") (hbranches : d.Branched) {e' : Machine}
    (hrun : Machine.run invoker (Machine.wanted stop) limit fuel (m.normal d.ids) = some e') :
    ∃ fuel' e, Machine.run invoker (Machine.wanted stop) limit fuel' m = some e ∧
      e.normal d.ids = e' := by
  induction fuel generalizing m l with
  | zero => cases hrun
  | succ fuel ih =>
    -- the machine first takes the steps that the other one does not have
    induction hslack : m.slack using Nat.strong_induction_on generalizing m l with
    | _ slack ihslack =>
    cases hstep : m.step invoker with
    | some next =>
      have hnext := h.trans (Scene.Moves.work hstep).reaches
      rcases h.placed.step_normal hroot hbranches hstep with hnormal | ⟨heq, hlt⟩
      · rw [run_of_step hnormal] at hrun
        obtain ⟨fuel', e, hfuel', he⟩ := ih hnext hrun
        exact ⟨fuel' + 1, e, by rw [run_of_step hstep, hfuel'], he⟩
      · rw [← heq] at hrun
        obtain ⟨fuel', e, hfuel', he⟩ := ihslack next.slack (hslack ▸ hlt) hnext hrun rfl
        exact ⟨fuel' + 1, e, by rw [run_of_step hstep, hfuel'], he⟩
    | none =>
      have hnormal := step_normal_eq_none hstep d.ids
      rw [run_of_lull hnormal, lull_normal] at hrun
      cases hlull : m.lull (Machine.wanted stop) limit with
      | inl ended =>
        rw [hlull] at hrun
        exact ⟨1, ended, by rw [run_of_lull hstep, hlull]; rfl, Option.some.inj hrun⟩
      | inr later =>
        rw [hlull] at hrun
        obtain ⟨time, rfl⟩ := lull_eq_inr hlull
        obtain ⟨fuel', e, hfuel', he⟩ := ih (h.trans (Scene.Moves.wait time).reaches) hrun
        exact ⟨fuel' + 1, e, by rw [run_of_lull hstep, hlull]; exact hfuel', he⟩

/-! ### What is seen of a run -/

/-- What is seen of a machine from outside. -/
structure View where
  /-- The calls of activities with their arguments. -/
  calls : List Invocation
  now : Nat
  events : List (List (Event Unit))
  stores : List Store
  /-- How the runs ended, those that have. -/
  outcomes : List (Option Outcome)
  deriving DecidableEq

/-- The view of a machine. -/
def Machine.view (m : Machine) : View where
  calls := m.calls
  now := m.now
  events := m.runs.map (·.events)
  stores := m.runs.map (·.store)
  outcomes := m.runs.map (·.outcome)

theorem view_normal {known : List String} : (m.normal known).view = m.view := by
  simp only [Machine.view, Machine.normal, List.map_map]
  rfl

/-- **Drawing a definition and reading it back does not change its runs.** Whether a machine is
stopped at the end of its run or works on, up to any time: if it comes to an end at all for one of
the definitions, then it does so for the other, and the calls, the events, the time, the variables
and the outcome are the same. -/
theorem run_redrawn (hids : d.ids.Nodup) (hroot : d.root ≠ "") (hbranches : d.Branched)
    (invoker : Invoker) (input : Store) (stop : Bool) (limit : Option Nat) (view : View) :
    (∃ fuel e, Machine.run invoker (Machine.wanted stop) limit fuel
        (({} : Machine).launch d input) = some e ∧ e.view = view) ↔
      ∃ fuel e, Machine.run invoker (Machine.wanted stop) limit fuel
        (({} : Machine).launch (Canvas.ofDefinition d).toDefinition input) = some e ∧
          e.view = view := by
  have hreach : Scene.Reaches invoker (Scene.opening d input) (Scene.opening d input) := .refl
  rw [Canvas.toDefinition_eq_normal hids]
  constructor
  · rintro ⟨fuel, e, hrun, rfl⟩
    obtain ⟨fuel', hrun'⟩ := hreach.run_normal hroot hbranches hrun
    exact ⟨fuel', e.normal d.ids, hrun', view_normal⟩
  · rintro ⟨fuel, e', hrun, rfl⟩
    obtain ⟨fuel', e, hrun', rfl⟩ := hreach.run_of_normal hroot hbranches hrun
    exact ⟨fuel', e, hrun', view_normal.symm⟩

end

/-- A workflow with references to steps that do not exist wherever these are harmless. -/
def patchy : Definition where
  name := "patchy"
  version := "2"
  root := "both"
  steps := [
    { id := "both", work := .parallel ["list", "ask"], next := some "gone" },
    { id := "list", name := some "a list", work := .sequence ["gone", "hello", "gone"] },
    { id := "ask", work := .condition { onFailure := some "gone" } },
    { id := "hello", work := .activity { activity := "say" }, next := some "gone" }]

/-- What is seen of its run. -/
def patchyView : View where
  calls := [⟨"say", []⟩]
  now := 5
  events := [[.runStarted "patchy" (), .stepStarted "both" "parallel",
    .stepStarted "list" "sequence", .stepStarted "hello" "activity",
    .stepStarted "ask" "condition", .stepFinished "ask" "condition" .succeeded none,
    .stepFinished "hello" "activity" .succeeded none,
    .stepFinished "list" "sequence" .succeeded none,
    .stepFinished "both" "parallel" .succeeded none, .runCompleted .succeeded () none]]
  stores := [[("hello", .object [("data", .string "hi"), ("success", .bool true)])]]
  outcomes := [some .done]

/-- After it has been drawn, its run looks the same. -/
theorem run_redrawn_patchy :
    patchy.ids.Nodup ∧ patchy.root ≠ "" ∧ patchy.Branched ∧
      ∃ fuel e, Machine.run slowly (Machine.wanted true) none fuel
        (({} : Machine).launch (Canvas.ofDefinition patchy).toDefinition []) = some e ∧
          e.view = patchyView := by
  have hids : patchy.ids.Nodup := by decide
  have hroot : patchy.root ≠ "" := by decide
  have hbranches : patchy.Branched := by
    intro s hs branches hwork
    simp only [patchy, List.mem_cons, List.not_mem_nil, or_false] at hs
    rcases hs with rfl | rfl | rfl | rfl
    · cases hwork
      decide
    all_goals cases hwork
  refine ⟨hids, hroot, hbranches,
    (run_redrawn hids hroot hbranches slowly [] true none patchyView).1 ⟨50, _, rfl, ?_⟩⟩
  rfl

end Run

end Flowgraph

import Flowgraph.Proofs.Run.Replay

/-!
# What other tasks wait for

A small step of one task looks at other tasks for two things: how many there are, and whether its
parent waits for it. It does not matter to the step what another task that waits for an activity
is going to be told. `Machine.recast` changes just that, by a function on the tasks and their
numbers (`Recasts`), and **a small step of a task that is left alone does the same before and
after** (`recast_act`). When a task takes the ending it has waited for, nothing is left of what it
might have been told instead (`recast_receive`).
-/

set_option autoImplicit false

namespace Flowgraph.Run

open Machine (follow resolveAll)

/-- A machine with other tasks and timers in the place of its own. -/
def Machine.recast (f : Nat → Task → Task) (timers : List (Nat × Nat)) (m : Machine) : Machine :=
  { m with tasks := m.tasks.mapIdx f, timers := timers }

/-- A function on tasks that changes nothing but what waiting tasks are going to be told. -/
structure Recasts (f : Nat → Task → Task) : Prop where
  control : ∀ i task control, { f i task with control } = { task with control }
  waits : ∀ i task, task.control.Waits → (f i task).control.Waits
  others : ∀ i task, ¬ task.control.Waits → f i task = task

variable {f f' : Nat → Task → Task} {timers : List (Nat × Nat)} {m : Machine} {id : Nat}

theorem getElem?_recast (i : Nat) : (m.recast f timers).tasks[i]? = m.tasks[i]?.map (f i) :=
  List.getElem?_mapIdx

/-- Changing one task and recasting the others, in either order. -/
theorem mapIdx_modify {tasks : List Task} {g g' : Task → Task}
    (hself : ∀ task, f' id (g task) = g' (f id task)) (hothers : ∀ i, i ≠ id → f' i = f i) :
    (tasks.modify id g).mapIdx f' = (tasks.mapIdx f).modify id g' := by
  apply List.ext_getElem?
  intro j
  rw [List.getElem?_mapIdx, List.getElem?_modify, List.getElem?_modify, List.getElem?_mapIdx]
  by_cases hj : id = j
  · subst hj
    cases tasks[id]? <;> simp [hself]
  · cases tasks[j]? <;> simp [hj, hothers j (Ne.symm hj)]

namespace Recasts

/-- A change that leaves a task alone from now on, and the others as before. -/
theorem goOn (h : Recasts f) (hself : ∀ task, f' id task = task)
    (hothers : ∀ i, i ≠ id → f' i = f i) (control : Control) :
    (m.goOn id control).recast f' timers = (m.recast f timers).goOn id control := by
  simp only [Machine.goOn, Machine.recast, Machine.mk.injEq, true_and, and_true]
  refine mapIdx_modify (fun task => ?_) hothers
  rw [hself]
  exact (h.control id task control).symm

theorem goInto (h : Recasts f) (hself : ∀ task, f' id task = task)
    (hothers : ∀ i, i ≠ id → f' i = f i) (frames : List Frame) (control : Control) :
    (m.goInto id frames control).recast f' timers =
      (m.recast f timers).goInto id frames control := by
  simp only [Machine.goInto, Machine.recast, Machine.mk.injEq, true_and, and_true]
  refine mapIdx_modify (fun task => ?_) hothers
  have hsame := congrArg (fun t : Task => { t with frames, control }) (h.control id task control)
  rw [hself]
  exact hsame.symm

end Recasts

/-! ### The parts of a small step -/

section

variable (h : Recasts f) (hself : ∀ task, f id task = task)

include h

theorem recast_notify (parent branch : Nat) (outcome : Outcome) :
    (m.notify parent branch outcome).recast f timers =
      (m.recast f timers).notify parent branch outcome := by
  have hwake : ∀ n : Machine,
      (n.wake parent).recast f timers = (n.recast f timers).wake parent := by
    intro n
    by_cases hmem : parent ∈ n.ready
    · have hmem' : parent ∈ (n.recast f timers).ready := hmem
      rw [Machine.wake, if_pos hmem, Machine.wake, if_pos hmem']
    · have hmem' : parent ∉ (n.recast f timers).ready := hmem
      rw [Machine.wake, if_neg hmem, Machine.wake, if_neg hmem']
      rfl
  unfold Machine.notify
  rw [getElem?_recast]
  cases htask : m.tasks[parent]? with
  | none => rfl
  | some task =>
    obtain ⟨run, grandparent, frames, control⟩ := task
    have hleft : ∀ control : Control, ¬ control.Waits →
        f parent ⟨run, grandparent, frames, control⟩ = ⟨run, grandparent, frames, control⟩ :=
      fun _ hwaits => h.others parent _ hwaits
    cases control with
    | join step missing ended =>
      -- a task that waits for branches is left alone
      rw [Option.map_some, hleft (.join step missing ended) not_false]
      dsimp only
      rw [hwake]
      congr 1
      simp only [Machine.goOn, Machine.recast, Machine.mk.injEq, true_and, and_true]
      refine mapIdx_modify (fun task => ?_) fun _ _ => rfl
      have hjoin := h.others parent
        ⟨task.run, task.parent, task.frames, .join step missing (ended ++ [(branch, outcome)])⟩
        not_false
      exact hjoin.trans (h.control parent task _).symm
    | receive step c ending =>
      have hwaits : (f parent ⟨run, grandparent, frames, .receive step c ending⟩).control.Waits :=
        h.waits parent _ trivial
      rw [Option.map_some]
      generalize f parent ⟨run, grandparent, frames, .receive step c ending⟩ = other at hwaits
      obtain ⟨run', grandparent', frames', control'⟩ := other
      cases control' <;> first | rfl | exact hwaits.elim
    | start =>
      rw [Option.map_some, hleft .start not_false]
    | enter step =>
      rw [Option.map_some, hleft (.enter step) not_false]
    | leave outcome =>
      rw [Option.map_some, hleft (.leave outcome) not_false]
    | stopped =>
      rw [Option.map_some, hleft .stopped not_false]

include hself

theorem recast_join (step : Step) (missing : Nat) (ended : List (Nat × Outcome)) :
    (m.join id step missing ended).recast f timers =
      (m.recast f timers).join id step missing ended := by
  rcases ended with _ | ⟨⟨branch, outcome⟩, rest⟩
  · rfl
  · cases outcome <;> exact h.goOn hself (fun _ _ => rfl) _

theorem recast_begin (task : Task) (run : Progress) :
    (m.begin id task run).recast f timers = (m.recast f timers).begin id task run :=
  h.goOn hself (fun _ _ => rfl) _

theorem recast_stop (task : Task) (outcome : Outcome) :
    (m.stop id task outcome).recast f timers = (m.recast f timers).stop id task outcome := by
  have hgo : ((m.goOn id .stopped).pause).recast f timers =
      ((m.recast f timers).goOn id .stopped).pause :=
    congrArg Machine.pause (h.goOn hself (fun _ _ => rfl) .stopped)
  unfold Machine.stop
  dsimp only
  rw [← hgo]
  cases task.parent with
  | some parent => exact recast_notify h parent id outcome
  | none => cases Machine.finalEvent outcome <;> rfl

theorem recast_leave (task : Task) (run : Progress) (outcome : Outcome) :
    (m.leave id task run outcome).recast f timers =
      (m.recast f timers).leave id task run outcome := by
  unfold Machine.leave
  rcases task.frames with _ | ⟨frame, frames⟩
  · exact recast_stop h hself task outcome
  · cases frame with
    | finish step => cases outcome <;> exact h.goInto hself (fun _ _ => rfl) _ _
    | sequence rest =>
      rcases rest with _ | ⟨target, rest⟩ <;> cases outcome <;>
        exact h.goInto hself (fun _ _ => rfl) _ _

theorem recast_fork (task : Task) (step : Step) (branches : List Step) :
    (m.fork id task step branches).recast f timers =
      (m.recast f timers).fork id task step branches := by
  have hlength : (m.tasks.mapIdx f).length = m.tasks.length := List.length_mapIdx
  simp only [Machine.fork, Machine.recast, Machine.pause, Machine.mk.injEq, true_and, and_true,
    hlength, List.mapIdx_append]
  refine congrArg₂ (· ++ ·) (mapIdx_modify (fun task => ?_) fun _ _ => rfl) ?_
  · rw [hself, hself]
  · apply List.ext_getElem?
    intro j
    rw [List.getElem?_mapIdx, List.getElem?_map]
    cases branches[j]? with
    | none => rfl
    | some branch => exact congrArg some (h.others _ _ not_false)

/-- Beginning a step that calls no activity. -/
theorem recast_enter (invoker : Invoker) (task : Task) (run : Progress) (step : Step)
    (hquiet : ∀ c, step.work = .activity c → Text.blank c.activity = true) :
    (m.enter invoker id task run step).recast f timers =
      (m.recast f timers).enter invoker id task run step := by
  have hgo : ∀ (frames : List Frame) (control : Control),
      ((m.emit task.run (.stepStarted step.id step.work.kind)).goInto id frames control).recast
          f timers =
        ((m.recast f timers).emit task.run (.stepStarted step.id step.work.kind)).goInto id frames
          control :=
    fun frames control => h.goInto hself (fun _ _ => rfl) frames control
  unfold Machine.enter
  cases hwork : step.work with
  | activity c =>
    rw [hwork] at hgo
    dsimp only
    rw [if_pos (hquiet c hwork), if_pos (hquiet c hwork)]
    exact hgo _ _
  | sequence steps =>
    rw [hwork] at hgo
    exact hgo _ _
  | parallel branches =>
    rw [hwork] at hgo
    dsimp only
    rcases resolveAll run.definition branches with missing | _ | ⟨first, rest⟩
    · exact hgo _ _
    · exact hgo _ _
    · exact recast_fork h hself task step _
  | condition choice =>
    rw [hwork] at hgo
    exact hgo _ _

end

/-- **A task takes the ending it has waited for**, and it does not matter any more what else it
might have been told. -/
theorem recast_receive (h : Recasts f) (hself : ∀ task, f' id task = task)
    (hothers : ∀ i, i ≠ id → f' i = f i) (task : Task) (step : Step) (c : Call) (ending : Ending) :
    (m.receive id task step c ending).recast f' timers =
      (m.recast f timers).receive id task step c ending := by
  cases ending with
  | panic payload => exact h.goOn hself hothers _
  | result r => exact h.goOn hself hothers _

/-! ### Calls -/

/-- Whether a task is about to call an activity. -/
def Control.Calls (control : Control) : Prop :=
  ∃ step c, control = .enter step ∧ step.work = .activity c ∧ Text.blank c.activity = false

section

variable {invoker invoker' : Invoker} {task : Task} {run : Progress}

theorem Machine.act_of_call {step : Step} {c : Call} (hc : task.control = .enter step)
    (hwork : step.work = .activity c) (hname : Text.blank c.activity = false) :
    m.act invoker id task run = (m.emit task.run (.stepStarted step.id step.work.kind)).call invoker
      id task run.store step c := by
  rw [Machine.act, hc]
  dsimp only
  rw [Machine.enter, hwork]
  dsimp only
  rw [hname]
  rfl

/-- What the invoker says does not matter to a task that does not call. -/
theorem Machine.act_of_quiet (hquiet : ¬ task.control.Calls) :
    m.act invoker id task run = m.act invoker' id task run := by
  unfold Machine.act
  cases hc : task.control with
  | enter step =>
    dsimp only
    unfold Machine.enter
    cases hwork : step.work with
    | activity c =>
      dsimp only
      by_cases hname : Text.blank c.activity = true
      · rw [if_pos hname, if_pos hname]
      · exact absurd ⟨step, c, hc, hwork, Bool.not_eq_true _ ▸ hname⟩ hquiet
    | _ => rfl
  | _ => rfl

end

/-- **A small step of a task that is left alone does the same**, whatever other tasks are going to
be told, unless it calls an activity. -/
theorem recast_act (h : Recasts f) (hself : ∀ task, f id task = task) (invoker : Invoker)
    (task : Task) (run : Progress) (hquiet : ¬ task.control.Calls) :
    (m.act invoker id task run).recast f timers =
      (m.recast f timers).act invoker id task run := by
  unfold Machine.act
  cases hc : task.control with
  | start => exact recast_begin h hself task run
  | enter step =>
    refine recast_enter h hself invoker task run step fun c hwork => ?_
    by_contra hname
    exact hquiet ⟨step, c, hc, hwork, Bool.not_eq_true _ ▸ hname⟩
  | leave outcome => exact recast_leave h hself task run outcome
  | receive step c ending => exact recast_receive h hself (fun _ _ => rfl) task step c ending
  | join step missing ended => exact recast_join h hself step missing ended
  | stopped => rfl

end Flowgraph.Run

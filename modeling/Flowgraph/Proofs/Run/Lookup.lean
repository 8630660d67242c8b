import Flowgraph.Proofs.Definition.Order
import Flowgraph.Proofs.Run.NormalForm

/-!
# Runs of alike definitions

A run asks its definition for its name, for its root and for steps with given ids, and for nothing
else. `Machine.reading` gives the runs of a machine another definition; if that one is alike, then
all parts of a small step go along with it, and the two machines keep in step all the way
(`Scene.Reaches.run_reading`). So what is seen of a run is the same for both definitions
(`Definition.Alike.run_eq`).

The order in which a definition lists its steps is nothing that a run asks for, nor are steps that
stand behind another one with their id (`run_listed`).
-/

set_option autoImplicit false

namespace Flowgraph

namespace Run

open Machine (follow resolveAll)

/-- A run that works on another definition. -/
def Progress.reading (d : Definition) (run : Progress) : Progress := { run with definition := d }

/-- A machine whose runs work on another definition. -/
def Machine.reading (d : Definition) (m : Machine) : Machine :=
  { m with runs := m.runs.map (Progress.reading d) }

section

variable {d d' : Definition} {m : Machine} {run : Progress}

/-! ### The parts of a machine -/

theorem reading_emit (n : Nat) (event : Event Unit) :
    (m.reading d).emit n event = (m.emit n event).reading d := by
  simp only [Machine.emit, Machine.reading, Machine.mk.injEq, true_and, and_true]
  symm
  exact map_modify fun r => rfl

theorem reading_update (n : Nat) (f : Store → Store) :
    (m.reading d).update n f = (m.update n f).reading d := by
  simp only [Machine.update, Machine.reading, Machine.mk.injEq, true_and, and_true]
  symm
  exact map_modify fun r => rfl

theorem reading_wake (task : Nat) : (m.reading d).wake task = (m.wake task).reading d := by
  by_cases h : task ∈ m.ready
  · have h' : task ∈ (m.reading d).ready := h
    rw [Machine.wake, if_pos h', Machine.wake, if_pos h]
  · have h' : task ∉ (m.reading d).ready := h
    rw [Machine.wake, if_neg h', Machine.wake, if_neg h]
    rfl

theorem reading_notify (parent branch : Nat) (outcome : Outcome) :
    (m.reading d).notify parent branch outcome = (m.notify parent branch outcome).reading d := by
  have htasks : (m.reading d).tasks = m.tasks := rfl
  unfold Machine.notify
  rw [htasks]
  split
  · exact reading_wake (m := m.goOn parent _) parent
  · rfl

/-! ### What is asked of a definition -/

theorem follow_alike (h : d.Alike d') (target : String) : follow d' target = follow d target := by
  rw [follow, h.find?]
  rfl

theorem resolveAll_alike (h : d.Alike d') (ids : List String) :
    resolveAll d' ids = resolveAll d ids := by
  induction ids with
  | nil => rfl
  | cons id rest ih => rw [resolveAll, resolveAll, h.find?, ih]

theorem rootStep?_alike (h : d.Alike d') : d'.rootStep? = d.rootStep? := by
  rw [Definition.rootStep?, h.root, h.find?]
  rfl

/-! ### The parts of a small step -/

theorem reading_call (invoker : Invoker) (id : Nat) (task : Task) (store : Store) (step : Step)
    (c : Call) : (m.reading d).call invoker id task store step c =
      (m.call invoker id task store step c).reading d := by
  unfold Machine.call
  dsimp only [Machine.reading]
  split <;> rfl

theorem reading_begin (id : Nat) (task : Task) (h : run.definition.Alike d) :
    (m.reading d).begin id task (run.reading d) = (m.begin id task run).reading d := by
  unfold Machine.begin
  dsimp only [Progress.reading]
  rw [h.name, h.root, rootStep?_alike h, reading_emit]
  rfl

theorem reading_enter (invoker : Invoker) (id : Nat) (task : Task) (step : Step)
    (h : run.definition.Alike d) :
    (m.reading d).enter invoker id task (run.reading d) step =
      (m.enter invoker id task run step).reading d := by
  unfold Machine.enter
  rw [reading_emit]
  cases step.work with
  | activity c =>
    dsimp only [Progress.reading]
    split
    · rfl
    · exact reading_call ..
  | sequence steps => rfl
  | parallel branches =>
    dsimp only [Progress.reading]
    rw [resolveAll_alike h]
    rcases resolveAll run.definition branches with missing | _ | ⟨first, rest⟩ <;> rfl
  | condition choice =>
    dsimp only [Progress.reading]
    simp only [follow_alike h]
    rfl

theorem reading_receive (id : Nat) (task : Task) (step : Step) (c : Call) (ending : Ending) :
    (m.reading d).receive id task step c ending = (m.receive id task step c ending).reading d := by
  cases ending with
  | panic payload => rfl
  | result r =>
    simp only [Machine.receive]
    rw [reading_update]
    rfl

theorem reading_join (id : Nat) (step : Step) (missing : Nat) (ended : List (Nat × Outcome)) :
    (m.reading d).join id step missing ended = (m.join id step missing ended).reading d := by
  rcases ended with _ | ⟨⟨branch, outcome⟩, rest⟩
  · rfl
  · cases outcome <;> rfl

theorem reading_stop (id : Nat) (task : Task) (outcome : Outcome) :
    (m.reading d).stop id task outcome = (m.stop id task outcome).reading d := by
  have hover : ∀ m : Machine, { m.reading d with
      runs := (m.reading d).runs.modify task.run fun r => { r with outcome := some outcome } } =
        Machine.reading d { m with
          runs := m.runs.modify task.run fun r => { r with outcome := some outcome } } := by
    intro m
    simp only [Machine.reading, Machine.mk.injEq, true_and, and_true]
    symm
    exact map_modify fun r => rfl
  have hgo : ((m.reading d).goOn id .stopped).pause = ((m.goOn id .stopped).pause).reading d := rfl
  unfold Machine.stop
  dsimp only
  rw [hgo]
  cases task.parent with
  | some parent => exact reading_notify parent id outcome
  | none =>
    dsimp only
    cases Machine.finalEvent outcome with
    | none => exact hover _
    | some event =>
      dsimp only
      rw [reading_emit]
      exact hover _

theorem reading_leave (id : Nat) (task : Task) (outcome : Outcome) (h : run.definition.Alike d) :
    (m.reading d).leave id task (run.reading d) outcome =
      (m.leave id task run outcome).reading d := by
  unfold Machine.leave
  rcases task.frames with _ | ⟨frame, frames⟩
  · exact reading_stop ..
  · cases frame with
    | finish step =>
      cases outcome with
      | done =>
        dsimp only [Progress.reading]
        simp only [follow_alike h]
        rw [reading_emit]
        rfl
      | failed failure =>
        dsimp only
        rw [reading_emit]
        rfl
      | panicked payload => rfl
    | sequence rest =>
      rcases rest with _ | ⟨target, rest⟩
      · cases outcome <;> rfl
      · cases outcome with
        | done =>
          dsimp only [Progress.reading]
          rw [follow_alike h]
          rfl
        | _ => rfl

/-- **A small step of a task does the same on an alike definition.** -/
theorem reading_act (invoker : Invoker) (id : Nat) (task : Task) (h : run.definition.Alike d) :
    (m.reading d).act invoker id task (run.reading d) =
      (m.act invoker id task run).reading d := by
  unfold Machine.act
  cases task.control with
  | start => exact reading_begin id task h
  | enter step => exact reading_enter invoker id task step h
  | leave outcome => exact reading_leave id task outcome h
  | receive step c ending => exact reading_receive id task step c ending
  | join step missing ended => exact reading_join id step missing ended
  | stopped => rfl

/-! ### Runs -/

/-- A small step of a machine does the same if all its runs are given an alike definition. -/
theorem reading_step (invoker : Invoker) (h : ∀ run ∈ m.runs, run.definition.Alike d) :
    (m.reading d).step invoker = (m.step invoker).map (Machine.reading d) := by
  have hruns : ∀ n : Nat, (m.reading d).runs[n]? = m.runs[n]?.map (Progress.reading d) :=
    fun _ => List.getElem?_map
  have hline : (m.reading d).ready = m.ready := rfl
  have htasks : (m.reading d).tasks = m.tasks := rfl
  unfold Machine.step
  rw [hline, htasks]
  cases m.ready with
  | nil => rfl
  | cons id rest =>
    dsimp only
    cases m.tasks[id]? with
    | none => rfl
    | some task =>
      dsimp only
      rw [hruns]
      cases hrun : m.runs[task.run]? with
      | none => rfl
      | some run =>
        exact congrArg some (reading_act invoker id task (h run (List.mem_of_getElem? hrun)))

theorem reading_wanted (stop : Bool) : (m.reading d).wanted stop = m.wanted stop := by
  have hruns : (m.reading d).runs[0]? = m.runs[0]?.map (Progress.reading d) := List.getElem?_map
  unfold Machine.wanted Machine.isOver
  rw [hruns]
  cases m.runs[0]? <;> rfl

/-- Both machines wait alike. -/
theorem reading_lull (stop : Bool) (limit : Option Nat) :
    (m.reading d).lull (Machine.wanted stop) limit =
      (m.lull (Machine.wanted stop) limit).map (Machine.reading d) (Machine.reading d) := by
  have htime : (m.reading d).nextTime? = m.nextTime? := rfl
  unfold Machine.lull
  rw [reading_wanted, htime]
  split
  · rfl
  · rcases m.nextTime? with _ | time <;> rcases limit with _ | limit
    case some.some =>
      dsimp only
      split <;> rfl
    all_goals rfl

theorem view_reading : (m.reading d).view = m.view := by
  simp only [Machine.view, Machine.reading, List.map_map]
  rfl

end

section

variable {invoker : Invoker} {d d' : Definition} {input : Store} {m : Machine} {l : Ledger}
  {stop : Bool} {limit : Option Nat}

/-- **The machine for an alike definition gets to the same places**, in as many rounds. -/
theorem Scene.Reaches.run_reading (h : Scene.Reaches invoker (Scene.opening d input) ⟨m, l⟩)
    (halike : d.Alike d') (fuel : Nat) :
    Machine.run invoker (Machine.wanted stop) limit fuel (m.reading d') =
      (Machine.run invoker (Machine.wanted stop) limit fuel m).map (Machine.reading d') := by
  induction fuel generalizing m l with
  | zero => rfl
  | succ fuel ih =>
    have hdefinition : ∀ run ∈ m.runs, run.definition.Alike d' := by
      intro run hrun
      obtain ⟨n, hn⟩ := List.mem_iff_getElem?.1 hrun
      rwa [(h.placed.definition_of_getElem? hn).2]
    have hstep' := reading_step invoker hdefinition
    cases hstep : m.step invoker with
    | some next =>
      rw [hstep] at hstep'
      rw [run_of_step hstep, run_of_step hstep']
      exact ih (h.trans (Scene.Moves.work hstep).reaches)
    | none =>
      rw [hstep] at hstep'
      rw [run_of_lull hstep, run_of_lull hstep', reading_lull]
      cases hlull : m.lull (Machine.wanted stop) limit with
      | inl ended => rfl
      | inr later =>
        obtain ⟨time, rfl⟩ := lull_eq_inr hlull
        exact ih (h.trans (Scene.Moves.wait time).reaches)

/-- What is seen of the run of a definition, when it is over or has been stopped. -/
def seen (invoker : Invoker) (d : Definition) (input : Store) (stop : Bool) (limit : Option Nat)
    (fuel : Nat) : Option View :=
  (Machine.run invoker (Machine.wanted stop) limit fuel
    (({} : Machine).launch d input)).map Machine.view

/-- **Runs of alike definitions look the same.** -/
theorem seen_alike (h : d.Alike d') (invoker : Invoker) (input : Store) (stop : Bool)
    (limit : Option Nat) (fuel : Nat) :
    seen invoker d' input stop limit fuel = seen invoker d input stop limit fuel := by
  have hreach : Scene.Reaches invoker (Scene.opening d input) (Scene.opening d input) := .refl
  have hrun : Machine.run invoker (Machine.wanted stop) limit fuel
      ((({} : Machine).launch d input).reading d') =
        (Machine.run invoker (Machine.wanted stop) limit fuel
          (({} : Machine).launch d input)).map (Machine.reading d') := hreach.run_reading h fuel
  have hlaunch : (({} : Machine).launch d input).reading d' = ({} : Machine).launch d' input := rfl
  unfold seen
  rw [← hlaunch, hrun, Option.map_map]
  exact congrArg (Option.map · _) (funext fun m => view_reading)

end

/-- **The order of the steps does not matter, nor do steps that are never found.** Without the
steps that stand behind another one with their id, runs look as before: the calls, the events, the
time, the variables and the outcome are the same at every moment at which one may look. Neither
does it matter for a run in which order steps with distinct ids are listed, and a check of the
definition then reports the same issues, up to their order. -/
theorem steps_in_any_order (d : Definition) :
    (∀ invoker input stop limit fuel,
      seen invoker d.unshadowed input stop limit fuel = seen invoker d input stop limit fuel) ∧
    (d.ids.Nodup → ∀ steps : List Step, steps.Perm d.steps →
      (∀ invoker input stop limit fuel, seen invoker { d with steps } input stop limit fuel =
        seen invoker d input stop limit fuel) ∧
      (({ d with steps } : Definition).check.map Finding.toIssue).Perm
        (d.check.map Finding.toIssue)) := by
  refine ⟨seen_alike d.alike_unshadowed, fun hids steps hsteps => ⟨?runs, ?check⟩⟩
  case runs => exact seen_alike (Definition.alike_of_perm hids hsteps)
  case check => exact (Definition.perm_check hids hsteps).map _

/-- A workflow whose steps are listed backwards. -/
theorem steps_in_any_order_patchy :
    patchy.ids.Nodup ∧ patchy.steps.reverse.Perm patchy.steps ∧
      seen slowly { patchy with steps := patchy.steps.reverse } [] true none 50 =
        some patchyView ∧
      (({ patchy with steps := patchy.steps.reverse } : Definition).check.map
        Finding.toIssue).Perm (patchy.check.map Finding.toIssue) := by
  have hids : patchy.ids.Nodup := by decide
  have hperm : patchy.steps.reverse.Perm patchy.steps := List.reverse_perm _
  obtain ⟨hruns, hcheck⟩ := (steps_in_any_order patchy).2 hids _ hperm
  refine ⟨hids, hperm, ?_, hcheck⟩
  rw [hruns]
  rfl

end Run

end Flowgraph

import Flowgraph.Proofs.Run.Termination

/-!
# How machines get on

A machine may have any number of runs. What it comes to depends on which task works next and on
when time passes, and there are two ways to leave this open. In `Machine.Moves` any task that can
work may work next, and time passes whenever it likes. In `Machine.Flows` the tasks of one run work
in their order, with those of other runs between them in any way, and time passes only while no
task can work. Whatever is reached by the second is reached by the first (`Machine.Flows.moves`).
A machine that runs by itself keeps to the second (`Machine.run_flows`).
-/

set_option autoImplicit false

namespace Flowgraph.Run.Machine

open Relation (ReflTransGen)

/-- How a machine gets on: by small steps, in any order of the tasks in the line, whatever the
time. -/
inductive Moves (invoker : Invoker) (m : Machine) : Machine → Prop
  | work {m' : Machine} : m.step invoker = some m' → Moves invoker m m'
  | wait (time : Nat) : Moves invoker m (m.passTo time)
  | reorder {ready : List Nat} : ready.Perm m.ready → Moves invoker m { m with ready := ready }

/-- Whether a task works on a run. -/
def owns (m : Machine) (run id : Nat) : Bool := m.tasks[id]?.any (·.run == run)

/-- How a machine gets on when the tasks of one run work first come first served. Those of
different runs come between each other in any way, and time passes only while no task can work,
no further than to the next time at which one can. -/
inductive Flows (invoker : Invoker) (m : Machine) : Machine → Prop
  | work {m' : Machine} : m.step invoker = some m' → Flows invoker m m'
  | wait {time : Nat} : m.ready = [] → (∀ timer ∈ m.timers, time ≤ timer.1) →
      Flows invoker m (m.passTo time)
  | mix {ready : List Nat} : ready.Perm m.ready →
      (∀ run, ready.filter (m.owns run) = m.ready.filter (m.owns run)) →
      Flows invoker m { m with ready := ready }

variable {invoker : Invoker} {m m' : Machine} {fuel : Nat}

theorem Flows.moves (h : Flows invoker m m') : Moves invoker m m' := by
  cases h with
  | work hstep => exact .work hstep
  | wait => exact .wait _
  | mix hperm => exact .reorder hperm

/-- Until the next time at which a task can work, none is passed over. -/
theorem le_of_nextTime? {time : Nat} (h : m.nextTime? = some time) :
    ∀ timer ∈ m.timers, time ≤ timer.1 := by
  intro timer htimer
  obtain ⟨-, hle⟩ := List.min?_eq_some_iff.1 h
  exact hle _ (List.mem_map_of_mem htimer)

/-- **A machine flows while it runs.** -/
theorem run_flows {wanted : Machine → Bool} {limit : Option Nat}
    (h : Machine.run invoker wanted limit fuel m = some m') :
    ReflTransGen (Flows invoker) m m' := by
  induction fuel generalizing m with
  | zero => cases h
  | succ fuel ih =>
    unfold Machine.run at h
    split at h
    case h_1 next hstep => exact .head (.work hstep) (ih h)
    case h_2 hstep =>
      have hready := ready_of_step_eq_none hstep
      split at h
      · cases h
        exact .refl
      · split at h
        case h_1 time limit hnext =>
          have hnext : m.nextTime? = some time := hnext
          split at h
          · exact .head (.wait hready (le_of_nextTime? hnext)) (ih h)
          · cases h
            refine .single (.wait hready fun timer htimer => ?_)
            have := le_of_nextTime? hnext timer htimer
            omega
        case h_2 time hnext => exact .head (.wait hready (le_of_nextTime? hnext)) (ih h)
        case h_3 limit hnext =>
          cases h
          refine .single (.wait hready fun timer htimer => ?_)
          rw [timers_of_nextTime?_eq_none hnext] at htimer
          cases htimer
        case h_4 =>
          cases h
          exact .refl

/-- One move of a machine by itself: a small step if a task can work, and else to the next time at
which one can. -/
def next (invoker : Invoker) (m : Machine) : Machine :=
  match m.step invoker with
  | some m' => m'
  | none =>
    match m.nextTime? with
    | some time => m.passTo time
    | none => m

theorem flows_next : ReflTransGen (Flows invoker) m (m.next invoker) := by
  unfold next
  split
  case h_1 hstep => exact .single (.work hstep)
  case h_2 hstep =>
    split
    case h_1 time hnext =>
      exact .single (.wait (ready_of_step_eq_none hstep) (le_of_nextTime? hnext))
    case h_2 => exact .refl

theorem flows_iterate (n : Nat) : ReflTransGen (Flows invoker) m ((next invoker)^[n] m) := by
  induction n generalizing m with
  | zero => exact .refl
  | succ n ih =>
    rw [Function.iterate_succ_apply]
    exact flows_next.trans ih

/-- A machine that is run without a limit goes on by itself, until it is as wanted or at rest. -/
theorem run_iterate {wanted : Machine → Bool}
    (h : Machine.run invoker wanted none fuel m = some m') :
    (∃ n, m' = (next invoker)^[n] m) ∧ (wanted m' = true ∨ m'.Quiet) := by
  induction fuel generalizing m with
  | zero => cases h
  | succ fuel ih =>
    have hgo : ∀ next', next' = m.next invoker →
        Machine.run invoker wanted none fuel next' = some m' →
        (∃ n, m' = (next invoker)^[n] m) ∧ (wanted m' = true ∨ m'.Quiet) := by
      rintro _ rfl hrun
      obtain ⟨⟨n, hn⟩, hends⟩ := ih hrun
      exact ⟨⟨n + 1, hn⟩, hends⟩
    unfold Machine.run at h
    split at h
    case h_1 hstep => exact hgo _ (by simp [next, hstep]) h
    case h_2 hstep =>
      split at h
      case isTrue hwanted =>
        cases h
        exact ⟨⟨0, rfl⟩, Or.inl hwanted⟩
      case isFalse =>
        split at h
        case h_1 hlimit => cases hlimit
        case h_2 time hnext _ => exact hgo _ (by simp [next, hstep, hnext]) h
        case h_3 hlimit => cases hlimit
        case h_4 hnext _ =>
          cases h
          exact ⟨⟨0, rfl⟩, Or.inr ⟨ready_of_step_eq_none hstep,
            timers_of_nextTime?_eq_none hnext⟩⟩

end Flowgraph.Run.Machine

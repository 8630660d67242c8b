import Flowgraph.Proofs.Run.Termination

/-!
# Turns that leave everything else alone

Of all that a task does, only calls, their answers and the starts of branches reach beyond the task.
**A turn without any of these leaves everything else alone** (`Turn.spares_others`): the other
tasks, their places in the line, their timers, the calls so far and the variables. The one exception
is the end of the task, which its parent is told about.
-/

set_option autoImplicit false

namespace Flowgraph.Run

open Machine (follow)

variable {invoker : Invoker} {m m' : Machine} {id j : Nat} {deeds : List Deed} {task : Task}
  {step : Step} {outcome : Outcome}

/-- Whether a deed reaches beyond the task that does it. -/
def Deed.Outward : Deed → Bool
  | .called .. | .answered .. | .forked .. => true
  | _ => false

/-- Whether a small step of a task leaves everything else alone: the other tasks are what they were,
except that the parent of the task may be told how it has ended; they keep their places in the line
and their timers; and nothing is called or kept in the variables. -/
structure Machine.SparesOthers (m m' : Machine) (id : Nat) (outcome : Outcome) : Prop where
  tasks : ∀ j ≠ id, ∀ task, m.tasks[j]? = some task → m'.tasks[j]? = some task ∨
    ∃ child, m.tasks[id]? = some child ∧ child.parent = some j ∧
      m'.tasks[j]? = some (task.told (id, outcome))
  number : m'.tasks.length = m.tasks.length
  ready : ∀ j ≠ id, j ∈ m.ready → j ∈ m'.ready
  timers : m'.timers = m.timers
  calls : m'.calls = m.calls
  stores : m'.runs.map (·.store) = m.runs.map (·.store)

theorem Deed.effect_of_not_outward {deed : Deed} (h : deed.Outward = false) (store : Store) :
    deed.effect store = store := by
  cases deed <;> first | rfl | cases h

theorem Deed.invocation_of_not_outward {deed : Deed} (h : deed.Outward = false) :
    deed.invocation? = none := by
  cases deed <;> first | rfl | cases h

/-- Deeds that do not reach beyond their task change no variables. -/
theorem foldl_effect_of_not_outward (h : ∀ deed ∈ deeds, deed.Outward = false) (store : Store) :
    deeds.foldl (fun store deed => deed.effect store) store = store := by
  induction deeds with
  | nil => rfl
  | cons deed deeds ih =>
    rw [List.foldl_cons, Deed.effect_of_not_outward (h deed List.mem_cons_self)]
    exact ih fun other hother => h other (List.mem_cons_of_mem _ hother)

/-- A task only waits for an activity that it has called. -/
theorem Advance.receives {calls : List Invocation} {run : Progress} {frames frames' : List Frame}
    {control : Control} {c : Call} {ending : Ending}
    (h : Advance invoker calls run frames control deeds frames' (.receive step c ending)) :
    ∃ invocation reply, Deed.called step c invocation reply ∈ deeds := by
  generalize hto : Control.receive step c ending = control' at h
  have hfollow : ∀ target, Control.receive step c ending ≠ follow run.definition target := by
    intro target
    unfold follow
    split <;> simp
  cases h with
  | call =>
    obtain ⟨rfl, rfl, -⟩ := Control.receive.inj hto
    exact ⟨_, _, List.mem_cons_of_mem _ List.mem_cons_self⟩
  | choose | next | child => exact absurd hto (hfollow _)
  | _ => cases hto

/-- Another task is left as it is, or told about the end of the one whose turn it is. -/
theorem Turn.fate_or_told (h : Turn invoker m id deeds m')
    (hended : ∀ result, Deed.ended result ∈ deeds → result = outcome) (hne : j ≠ id)
    (hj : m.tasks[j]? = some task) : m'.tasks[j]? = some task ∨
      ∃ child, m.tasks[id]? = some child ∧ child.parent = some j ∧
        m'.tasks[j]? = some (task.told (id, outcome)) := by
  obtain ⟨after, hafter⟩ := getElem?_of_lt
    (Nat.lt_of_lt_of_le (lt_of_getElem? hj) h.length_tasks_le)
  cases h.fate hne hafter with
  | kept hold =>
    rw [hj] at hold
    cases hold
    exact Or.inl hafter
  | told hold hchild hparent hdeeds =>
    rw [hj] at hold
    cases hold
    obtain rfl := hended _ (by rw [hdeeds]; exact List.mem_singleton_self _)
    exact Or.inr ⟨_, hchild, hparent, hafter⟩
  | born _ _ _ _ hjb =>
    have := lt_of_getElem? hj
    omega

/-- **A turn that does not reach beyond its task leaves everything else alone.** -/
theorem Turn.spares_others (h : Turn invoker m id deeds m') {rest : List Nat}
    (hready : m.ready = id :: rest) (hinward : ∀ deed ∈ deeds, deed.Outward = false)
    (hended : ∀ result, Deed.ended result ∈ deeds → result = outcome) :
    m.SparesOthers m' id outcome := by
  have hforked : ∀ step kids, Deed.forked step kids ∉ deeds := fun step kids hmem =>
    Bool.noConfusion (hinward _ hmem)
  refine ⟨fun j hne task hj => h.fate_or_told hended hne hj, ?number, ?ready, ?timers, ?calls,
    ?stores⟩
  case calls =>
    rw [h.calls_eq, List.filterMap_eq_nil_iff.2 fun deed hdeed =>
      Deed.invocation_of_not_outward (hinward deed hdeed), List.append_nil]
  case stores =>
    rcases h.runs_eq with ⟨-, hruns⟩ | ⟨task, run, -, hrun, hruns⟩
    · rw [hruns]
    · rw [hruns, List.map_set]
      refine set_self ?_
      rw [List.getElem?_map, hrun, Option.map_some]
      exact congrArg some (foldl_effect_of_not_outward hinward run.store).symm
  case number =>
    cases h with
    | idle => rfl
    | goes => exact List.length_set
    | forks => exact absurd (List.mem_cons_of_mem _ List.mem_cons_self) (hforked _ _)
    | ends => rw [List.length_modify, List.length_set]
    | returns => exact List.length_set
  -- the task stays in the line as long as it goes on
  case ready =>
    intro j hne hj
    cases h with
    | idle => exact mem_tail hready hne hj
    | goes htask hrun hadv hline =>
      rcases hline with ⟨rfl, -⟩ | ⟨_, _, _, _, rfl, rfl, -⟩
      · exact hj
      · exact mem_tail hready hne hj
    | forks => exact absurd (List.mem_cons_of_mem _ List.mem_cons_self) (hforked _ _)
    | ends htask hrun hparent hframes hc hline =>
      rcases hline with rfl | rfl
      · exact mem_tail hready hne hj
      · exact List.mem_append_left _ (mem_tail hready hne hj)
    | returns => exact mem_tail hready hne hj
  case timers =>
    cases h with
    | goes htask hrun hadv hline =>
      rcases hline with ⟨-, rfl⟩ | ⟨step, c, ending, _, rfl, -, -⟩
      · rfl
      · obtain ⟨invocation, reply, hcalled⟩ := hadv.receives
        exact Bool.noConfusion (hinward _ hcalled)
    | _ => rfl

end Flowgraph.Run

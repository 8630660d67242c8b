import Flowgraph.Proofs.Run.Turn

/-!
# What becomes of each task

A turn seen from the tasks, one by one. The task whose turn it is has its **own** part in it
(`Own`); to every other task one of three things happens (`Fate`): it is left as it is, it is
told about a branch that it waits for, or it is started. Facts about single tasks are carried
from scene to scene by cases on these two.

The last section says which turns call activities.
-/

set_option autoImplicit false

namespace Flowgraph.Run

open Machine (follow resolveAll)

/-! ### Tasks by their numbers -/

section Lists

variable {α : Type} {l l' : List α} {i j : Nat} {a b : α}

theorem lt_of_getElem? (h : l[i]? = some a) : i < l.length := (List.getElem?_eq_some_iff.1 h).1

theorem getElem?_of_lt (h : i < l.length) : ∃ a, l[i]? = some a :=
  ⟨l[i], List.getElem?_eq_getElem h⟩

theorem getElem?_set_cases (h : (l.set i a)[j]? = some b) :
    (j = i ∧ b = a) ∨ (j ≠ i ∧ l[j]? = some b) := by
  rw [List.getElem?_set] at h
  by_cases hij : i = j
  · rw [if_pos hij] at h
    split at h
    · exact Or.inl ⟨hij.symm, (Option.some.inj h).symm⟩
    · cases h
  · rw [if_neg hij] at h
    exact Or.inr ⟨Ne.symm hij, h⟩

theorem getElem?_append_cases (h : (l ++ l')[j]? = some b) :
    l[j]? = some b ∨ (l.length ≤ j ∧ l'[j - l.length]? = some b) := by
  rw [List.getElem?_append] at h
  split at h
  · exact Or.inl h
  · exact Or.inr ⟨by omega, h⟩

theorem getElem?_modify_cases {f : α → α} (h : (l.modify i f)[j]? = some b) :
    ∃ a, l[j]? = some a ∧ ((j ≠ i ∧ b = a) ∨ (j = i ∧ b = f a)) := by
  rw [List.getElem?_modify] at h
  obtain ⟨a, ha, hb⟩ := Option.map_eq_some_iff.1 h
  refine ⟨a, ha, ?_⟩
  by_cases hij : i = j
  · rw [if_pos hij] at hb
    exact Or.inr ⟨hij.symm, hb.symm⟩
  · rw [if_neg hij] at hb
    exact Or.inl ⟨Ne.symm hij, hb.symm⟩

end Lists

/-! ### The task whose turn it is -/

/-- What a turn is for the task `id` itself, with its deeds and what it is afterwards. -/
inductive Own (invoker : Invoker) (m : Machine) (id : Nat) : List Deed → Task → Prop
  /-- There is nothing to do. -/
  | idle {task : Task} : m.tasks[id]? = some task →
      (∀ run, m.runs[task.run]? = some run → task.control.Idle) →
      Own invoker m id [] task
  /-- The task goes on by itself. -/
  | goes {task : Task} {run : Progress} {deeds : List Deed} {frames : List Frame}
      {control : Control} :
      m.tasks[id]? = some task → m.runs[task.run]? = some run →
      Advance invoker m.calls run task.frames task.control deeds frames control →
      Own invoker m id deeds ⟨task.run, task.parent, frames, control⟩
  /-- The task starts branches and waits for them. -/
  | forks {task : Task} {run : Progress} {step : Step} {ids : List String}
      {branches : List Step} :
      m.tasks[id]? = some task → m.runs[task.run]? = some run →
      task.control = .enter step → step.work = .parallel ids →
      resolveAll run.definition ids = .ok branches → branches ≠ [] →
      Own invoker m id
        [.entered step, .forked step (List.range' m.tasks.length branches.length)]
        ⟨task.run, task.parent, .finish step :: task.frames, .join step branches.length []⟩
  /-- The task is over. -/
  | stops {task : Task} {outcome : Outcome} {deed : Deed} :
      m.tasks[id]? = some task → task.frames = [] → task.control = .leave outcome →
      deed = (if task.parent.isSome then .ended outcome else .returned outcome) →
      Own invoker m id [deed] { task with control := .stopped }

/-- What becomes of another task `j` in the turn of the task `id`. -/
inductive Fate (m : Machine) (id : Nat) (deeds : List Deed) (j : Nat) : Task → Prop
  /-- It is left as it is. -/
  | kept {task : Task} : m.tasks[j]? = some task →
      (∀ child outcome, m.tasks[id]? = some child → deeds = [.ended outcome] →
        child.parent ≠ some j) →
      Fate m id deeds j task
  /-- It is told about a branch. -/
  | told {task child : Task} {outcome : Outcome} :
      m.tasks[j]? = some task → m.tasks[id]? = some child → child.parent = some j →
      deeds = [.ended outcome] → Fate m id deeds j (task.told (id, outcome))
  /-- It is started as a branch. -/
  | born {task : Task} {step b : Step} {branches : List Step} {n : Nat} :
      m.tasks[id]? = some task → task.control = .enter step →
      deeds = [.entered step, .forked step (List.range' m.tasks.length branches.length)] →
      branches[n]? = some b → j = m.tasks.length + n →
      Fate m id deeds j ⟨task.run, some id, [], .enter b⟩

variable {invoker : Invoker} {m m' : Machine} {id j : Nat} {deeds : List Deed} {task : Task}

theorem Own.exists_task (h : Own invoker m id deeds task) : ∃ old, m.tasks[id]? = some old := by
  cases h <;> exact ⟨_, ‹_›⟩

theorem Advance.ne_ended {calls : List Invocation} {run : Progress} {frames frames' : List Frame}
    {control control' : Control}
    (h : Advance invoker calls run frames control deeds frames' control') :
    ∀ deed ∈ deeds, ∀ outcome, deed ≠ .ended outcome := by
  cases h <;> simp

theorem Advance.ne_forked {calls : List Invocation} {run : Progress}
    {frames frames' : List Frame} {control control' : Control}
    (h : Advance invoker calls run frames control deeds frames' control') :
    ∀ deed ∈ deeds, ∀ step kids, deed ≠ .forked step kids := by
  cases h <;> simp

theorem Turn.own (h : Turn invoker m id deeds m') (hj : m'.tasks[id]? = some task) :
    Own invoker m id deeds task := by
  cases h with
  | idle hidle => exact .idle hj fun run hrun => hidle task run hj hrun
  | goes htask hrun hadv =>
    rw [List.getElem?_set_self (lt_of_getElem? htask)] at hj
    cases hj
    exact .goes htask hrun hadv
  | forks htask hrun hc hwork hall hne =>
    have hlt := lt_of_getElem? htask
    rw [List.getElem?_append_left (by simpa using hlt), List.getElem?_set_self hlt] at hj
    cases hj
    exact .forks htask hrun hc hwork hall hne
  | @ends child _ _ _ _ htask hrun hparent hframes hc =>
    obtain ⟨old, hold, hnew⟩ := getElem?_modify_cases hj
    rw [List.getElem?_set_self (lt_of_getElem? htask)] at hold
    cases hold
    obtain rfl : task = { child with control := .stopped } := by
      rcases hnew with ⟨-, hnew⟩ | ⟨-, hnew⟩
      · exact hnew
      · exact hnew
    exact .stops htask hframes hc (by rw [hparent]; rfl)
  | returns htask hrun hparent hframes hc =>
    rw [List.getElem?_set_self (lt_of_getElem? htask)] at hj
    cases hj
    exact .stops htask hframes hc (by rw [hparent]; rfl)

theorem Turn.fate (h : Turn invoker m id deeds m') (hne : j ≠ id)
    (hj : m'.tasks[j]? = some task) : Fate m id deeds j task := by
  cases h with
  | idle => exact .kept hj (by simp)
  | goes htask hrun hadv =>
    rw [List.getElem?_set_ne (Ne.symm hne)] at hj
    refine .kept hj fun child outcome _ hended => ?_
    have hmem : Deed.ended outcome ∈ deeds := by simp [hended]
    exact absurd rfl (hadv.ne_ended _ hmem outcome)
  | forks htask hrun hc hwork hall hbranches =>
    rcases getElem?_append_cases hj with hj | ⟨hle, hj⟩
    · rw [List.getElem?_set_ne (Ne.symm hne)] at hj
      exact .kept hj (by simp)
    · rw [List.length_set] at hle hj
      rw [List.getElem?_map] at hj
      obtain ⟨b, hb, rfl⟩ := Option.map_eq_some_iff.1 hj
      exact .born htask hc rfl hb (by omega)
  | ends htask hrun hparent hframes hc =>
    obtain ⟨old, hold, hnew⟩ := getElem?_modify_cases hj
    rw [List.getElem?_set_ne (Ne.symm hne)] at hold
    rcases hnew with ⟨hother, rfl⟩ | ⟨rfl, rfl⟩
    · refine .kept hold fun child outcome hchild _ hfalse => hother ?_
      rw [htask] at hchild
      cases hchild
      rw [hparent] at hfalse
      exact (Option.some.inj hfalse).symm
    · exact .told hold htask hparent rfl
  | returns htask hrun hparent hframes hc =>
    rw [List.getElem?_set_ne (Ne.symm hne)] at hj
    exact .kept hj (by simp)

/-- No task goes away. -/
theorem Turn.length_tasks_le (h : Turn invoker m id deeds m') :
    m.tasks.length ≤ m'.tasks.length := by
  cases h <;> simp [Machine.pause]

/-- The part of the task whose turn it is, if it does anything. -/
theorem Turn.exists_own (h : Turn invoker m id deeds m') :
    deeds = [] ∨ ∃ task, Own invoker m id deeds task := by
  rcases h.runs_eq with ⟨hdeeds, -⟩ | ⟨old, -, hold, -, -⟩
  · exact Or.inl hdeeds
  · obtain ⟨task, htask⟩ := getElem?_of_lt
      (Nat.lt_of_lt_of_le (lt_of_getElem? hold) h.length_tasks_le)
    exact Or.inr ⟨task, h.own htask⟩

/-! ### Calls -/

variable {calls : List Invocation} {run : Progress} {frames frames' : List Frame}
  {control control' : Control} {step : Step} {c : Call} {invocation : Invocation} {reply : Reply}

theorem Advance.called (h : Advance invoker calls run frames control deeds frames' control')
    (hmem : Deed.called step c invocation reply ∈ deeds) :
    deeds = [.entered step, .called step c invocation reply] ∧ control = .enter step ∧
      step.work = .activity c ∧ invocation = ⟨c.activity, c.arguments.resolve run.store⟩ ∧
      reply = invoker calls invocation ∧ frames' = .finish step :: frames ∧
      control' = .receive step c reply.ending := by
  cases h <;> simp at hmem
  case call hwork hname hinv =>
    obtain ⟨rfl, rfl, rfl, rfl⟩ := hmem
    exact ⟨rfl, rfl, hwork, hinv, rfl, rfl, rfl⟩

/-- A call is made by a task that begins the step, and then waits for the answer. -/
theorem Turn.called (h : Turn invoker m id deeds m')
    (hmem : Deed.called step c invocation reply ∈ deeds) :
    deeds = [.entered step, .called step c invocation reply] ∧
      ∃ task run, m.tasks[id]? = some task ∧ m.runs[task.run]? = some run ∧
        task.control = .enter step ∧ step.work = .activity c ∧
        invocation = ⟨c.activity, c.arguments.resolve run.store⟩ ∧
        reply = invoker m.calls invocation ∧
        m'.tasks[id]? = some ⟨task.run, task.parent, .finish step :: task.frames,
          .receive step c reply.ending⟩ := by
  cases h with
  | goes htask hrun hadv =>
    obtain ⟨rfl, hc, hwork, hinv, hreply, rfl, rfl⟩ := hadv.called hmem
    exact ⟨rfl, _, _, htask, hrun, hc, hwork, hinv, hreply,
      List.getElem?_set_self (lt_of_getElem? htask)⟩
  | _ => simp at hmem

end Flowgraph.Run

import Flowgraph.Proofs.Run.Branches

/-!
# Where failures come from and where they go

A step that fails takes its task with it: from then on the task is on its way to fail
(`Failing`), and no turn leads it back. In the other direction, a task that fails hands on the
failure of a step that has failed before, or that of a missing root (`Blamed`): failures are
neither lost nor made up on the way (`Reaches.honest`).
-/

set_option autoImplicit false

namespace Flowgraph.Run

open Machine (follow resolveAll)

variable {invoker : Invoker} {d : Definition} {input : Store} {x : Scene} {m m' : Machine}
  {l : Ledger} {id j : Nat} {deeds : List Deed} {task : Task} {history new : List Entry}
  {control : Control} {failure : Failure}

/-! ### Tasks that are bound to end in a certain way -/

/-- Whether a task is on its way to end with an outcome of some sort, or has ended so. -/
def Bound (P : Outcome → Prop) (history : List Entry) (id : Nat) (control : Control) : Prop :=
  (∃ outcome, P outcome ∧ control = .leave outcome) ∨
    ∃ outcome, P outcome ∧ outcomeOf history id = some outcome

section

variable {P : Outcome → Prop}

theorem Bound.append (h : Bound P history id control) : Bound P (history ++ new) id control := by
  rcases h with hleave | ⟨outcome, hP, hended⟩
  · exact Or.inl hleave
  · exact Or.inr ⟨outcome, hP, outcomeOf_append_of_some hended⟩

theorem Bound.told {news : Nat × Outcome} (h : Bound P history id control) :
    Bound P history id (control.told news) := by
  rcases h with ⟨outcome, hP, rfl⟩ | hended
  · exact Or.inl ⟨outcome, hP, rfl⟩
  · exact Or.inr hended

/-- What a task learns about a branch does not make it leave. -/
theorem Control.told_eq_leave {news : Nat × Outcome} {outcome : Outcome}
    (h : control.told news = .leave outcome) : control = .leave outcome := by
  cases control with
  | join => cases h
  | _ => exact h

/-- A task that leaves other than well does nothing else. -/
theorem Advance.leaves {calls : List Invocation} {run : Progress} {frames frames' : List Frame}
    {control' : Control} {outcome : Outcome}
    (h : Advance invoker calls run frames (.leave outcome) deeds frames' control')
    (hnot : outcome ≠ .done) : control' = .leave outcome := by
  cases h with
  | finish => rfl
  | closed => rfl
  | next => exact absurd rfl hnot
  | child => exact absurd rfl hnot

/-- **A task that is bound to end in some way, other than well, goes on to do so.** -/
theorem Bound.own {trail : Trail} (horderly : Scene.Orderly ⟨m, l⟩) (hdone : ¬ P .done)
    (hown : Own invoker m id deeds task)
    (h : ∀ old, m.tasks[id]? = some old → Bound P l.history id old.control) :
    Bound P (l.history ++ trail.entries id deeds) id task.control := by
  have hended : ∀ outcome, P outcome → outcomeOf l.history id = some outcome →
      Bound P (l.history ++ trail.entries id deeds) id task.control := fun outcome hP hended =>
    Or.inr ⟨outcome, hP, outcomeOf_append_of_some hended⟩
  cases hown with
  | idle htask => exact (h _ htask).append
  | goes htask hrun hadv =>
    rcases h _ htask with ⟨outcome, hP, hleave⟩ | ⟨outcome, hP, hbefore⟩
    · rw [hleave] at hadv
      exact Or.inl ⟨outcome, hP, hadv.leaves fun heq => hdone (heq ▸ hP)⟩
    · exact hended outcome hP hbefore
  | forks htask hrun hc =>
    rcases h _ htask with ⟨outcome, hP, hleave⟩ | ⟨outcome, hP, hbefore⟩
    · rw [hc] at hleave
      cases hleave
    · exact hended outcome hP hbefore
  | stops htask hframes hc hdeed =>
    rcases h _ htask with ⟨outcome, hP, hleave⟩ | ⟨outcome, hP, hbefore⟩
    · have hnone : outcomeOf l.history id = none :=
        horderly.outcomeOf_eq_none htask (by rw [hc]; rfl)
      rw [hc] at hleave
      cases hleave
      refine Or.inr ⟨_, hP, ?_⟩
      rw [outcomeOf_append, hnone, outcomeOf_entries, hdeed]
      split <;> rfl
    · exact hended outcome hP hbefore

/-- What a task is bound to do, it is bound to do after every turn. -/
theorem Scene.Orderly.bound_turn (horderly : Scene.Orderly ⟨m, l⟩) (hplaced : Scene.Placed d ⟨m, l⟩)
    (hdone : ¬ P .done) (hturn : Turn invoker m id deeds m') (hj : m'.tasks[j]? = some task)
    (hlt : j < m.tasks.length)
    (h : ∀ old, m.tasks[j]? = some old → Bound P l.history j old.control) :
    Bound P (l.record id deeds).history j task.control := by
  obtain ⟨trail, -, hhistory⟩ := hplaced.history_record hturn
  rw [hhistory]
  by_cases hne : j = id
  · subst hne
    exact Bound.own horderly hdone (hturn.own hj) h
  · cases hturn.fate hne hj with
    | kept hold => exact (h _ hold).append
    | told hold => exact (h _ hold).told.append
    | born _ _ _ _ hjb => omega

end

/-! ### Tasks that fail -/

/-- Whether a task is on its way to fail, or has failed. -/
def Failing (history : List Entry) (id : Nat) (control : Control) : Prop :=
  (∃ failure, control = .leave (.failed failure)) ∨
    ∃ failure, outcomeOf history id = some (.failed failure)

/-- A task is failing if it is bound to end with a failure. -/
theorem failing_iff :
    Failing history id control ↔ Bound (∃ failure, · = .failed failure) history id control := by
  constructor
  · rintro (⟨failure, hleave⟩ | ⟨failure, hfailed⟩)
    · exact Or.inl ⟨_, ⟨failure, rfl⟩, hleave⟩
    · exact Or.inr ⟨_, ⟨failure, rfl⟩, hfailed⟩
  · rintro (⟨_, ⟨failure, rfl⟩, hleave⟩ | ⟨_, ⟨failure, rfl⟩, hfailed⟩)
    · exact Or.inl ⟨failure, hleave⟩
    · exact Or.inr ⟨failure, hfailed⟩

/-- Without a root, the first task fails when it sets out. -/
theorem Advance.lost_of_none {calls : List Invocation} {run : Progress}
    {frames frames' : List Frame} {control' : Control}
    (h : Advance invoker calls run frames .start deeds frames' control')
    (hroot : run.definition.rootStep? = none) :
    control' = .leave (.failed (.rootNotFound run.definition.root)) := by
  cases h with
  | begin hsome =>
    rw [hroot] at hsome
    cases hsome
  | lost => rfl

/-- A failed step has its task on the way to fail. -/
theorem Advance.finished_failing {calls : List Invocation} {run : Progress}
    {frames frames' : List Frame} {control' : Control} {step : Step}
    (h : Advance invoker calls run frames control deeds frames' control')
    (hmem : Deed.finished step (.failed failure) ∈ deeds) :
    control = .leave (.failed failure) ∧ control' = .leave (.failed failure) ∧
      frames = .finish step :: frames' ∧ deeds = [.finished step (.failed failure)] := by
  cases h <;> simp at hmem
  case finish hdone =>
    obtain ⟨rfl, rfl⟩ := hmem
    exact ⟨rfl, rfl, rfl, rfl⟩

/-- How failed steps and a missing root bear on the tasks. -/
structure Scene.Honest (d : Definition) (x : Scene) : Prop where
  /-- A task with a failed step fails. -/
  failures : ∀ e ∈ x.ledger.history, ∀ step failure, e.deed = .finished step (.failed failure) →
    ∀ task, x.machine.tasks[e.task]? = some task →
      Failing x.ledger.history e.task task.control
  /-- Without a root, the first task fails as soon as it sets out. -/
  root : d.rootStep? = none → ∀ task, x.machine.tasks[0]? = some task →
    task.control = .start ∨ Failing x.ledger.history 0 task.control

namespace Scene

theorem Placed.entry_lt (h : Placed d x) {e : Entry} (he : e ∈ x.ledger.history) :
    e.task < x.machine.tasks.length := (h.entries e he).1

/-- A failing task is failing after every turn. -/
theorem Orderly.failing_turn (horderly : Orderly ⟨m, l⟩) (hplaced : Placed d ⟨m, l⟩)
    (hturn : Turn invoker m id deeds m') (hj : m'.tasks[j]? = some task)
    (hlt : j < m.tasks.length)
    (h : ∀ old, m.tasks[j]? = some old → Failing l.history j old.control) :
    Failing (l.record id deeds).history j task.control :=
  failing_iff.2 (horderly.bound_turn hplaced (by simp) hturn hj hlt fun old hold =>
    failing_iff.1 (h old hold))

/-- A task that finishes a step as a failure is on its way to fail. -/
theorem failing_of_finished (hturn : Turn invoker m id deeds m') (hj : m'.tasks[id]? = some task)
    {step : Step} (hmem : Deed.finished step (.failed failure) ∈ deeds) :
    task.control = .leave (.failed failure) := by
  cases hturn.own hj with
  | idle => cases hmem
  | goes hold hrun hadv => exact (hadv.finished_failing hmem).2.1
  | forks => simp at hmem
  | stops hold hframes hc hdeed =>
    rw [hdeed, List.mem_singleton] at hmem
    split at hmem <;> cases hmem

/-- A task that has not set out stays where it is, or sets out and finds no root. -/
theorem start_turn (hturn : Turn invoker m id deeds m') {old : Task}
    (hold : m.tasks[j]? = some old) (hstart : old.control = .start)
    (hj : m'.tasks[j]? = some task)
    (hlost : ∀ run, m.runs[old.run]? = some run → run.definition.rootStep? = none) :
    task.control = .start ∨ ∃ failure, task.control = .leave (.failed failure) := by
  have hsame : ∀ other, m.tasks[j]? = some other → other = old := fun other hother =>
    Option.some.inj (hother.symm.trans hold)
  by_cases hid : j = id
  · subst hid
    cases hturn.own hj with
    | idle hother =>
      rw [hsame _ hother]
      exact Or.inl hstart
    | goes hother hrun hadv =>
      obtain rfl := hsame _ hother
      rw [hstart] at hadv
      exact Or.inr ⟨_, hadv.lost_of_none (hlost _ hrun)⟩
    | forks hother hrun hc =>
      rw [hsame _ hother, hstart] at hc
      cases hc
    | stops hother hframes hc =>
      rw [hsame _ hother, hstart] at hc
      cases hc
  · cases hturn.fate hid hj with
    | kept hother =>
      rw [hsame _ hother]
      exact Or.inl hstart
    | told hother =>
      refine Or.inl ?_
      show Control.told _ _ = _
      rw [hsame _ hother, hstart]
      rfl
    | born _ _ _ _ hjb =>
      have := lt_of_getElem? hold
      omega

theorem Honest.turn (h : Honest d ⟨m, l⟩) (horderly : Orderly ⟨m, l⟩) (hplaced : Placed d ⟨m, l⟩)
    (hturn : Turn invoker m id deeds m') : Honest d ⟨m', l.record id deeds⟩ := by
  obtain ⟨trail, -, hhistory⟩ := hplaced.history_record hturn
  constructor
  case failures =>
    intro e he step failure hdeed task htask
    dsimp only at he htask ⊢
    rw [hhistory] at he
    rcases List.mem_append.1 he with he | he
    · exact horderly.failing_turn hplaced hturn htask (hplaced.entry_lt he)
        (h.failures e he step failure hdeed)
    · rw [Trail.task_of_mem_entries he] at htask
      have hmem : Deed.finished step (.failed failure) ∈ deeds :=
        Trail.exists_mem_entries.1 ⟨e, he, hdeed⟩
      exact Or.inl ⟨failure, failing_of_finished hturn htask hmem⟩
  case root =>
    intro hroot task htask
    dsimp only at htask ⊢
    obtain ⟨old, hold⟩ := getElem?_of_lt hplaced.first
    -- the first task fails as it sets out, and once it is on its way to fail it stays so
    rcases h.root hroot old hold with hstart | hnow
    · refine (start_turn hturn hold hstart htask fun run hrun => ?_).imp_right Or.inl
      rw [(hplaced.definition_of_getElem? hrun).2, hroot]
    · refine Or.inr (horderly.failing_turn hplaced hturn htask hplaced.first fun other hother => ?_)
      rw [hold] at hother
      cases hother
      exact hnow

end Scene

/-! ### What tasks fail with -/

/-- A failure that is not made up: that of a missing root, or that of a step that has failed. -/
def Blamed (d : Definition) (history : List Entry) (failure : Failure) : Prop :=
  (d.rootStep? = none ∧ failure = .rootNotFound d.root) ∨
    ∃ e ∈ history, ∃ step, e.deed = .finished step (.failed failure)

theorem Blamed.append (h : Blamed d history failure) : Blamed d (history ++ new) failure := by
  rcases h with hroot | ⟨e, he, step, hdeed⟩
  · exact Or.inl hroot
  · exact Or.inr ⟨e, List.mem_append_left _ he, step, hdeed⟩

theorem follow_ne_failed (d : Definition) (target : String) :
    follow d target ≠ .leave (.failed failure) := by
  unfold follow
  split <;> simp

/-- Where the failure comes from that a task leaves with. -/
theorem Advance.leaving {calls : List Invocation} {run : Progress} {frames frames' : List Frame}
    {trail : Trail} (h : Advance invoker calls run frames control deeds frames'
      (.leave (.failed failure)))
    (hplaced : control.Placed d trail frames) :
    (∃ step rest, frames' = .finish step :: rest) ∨
      (run.definition.rootStep? = none ∧ failure = .rootNotFound run.definition.root) ∨
      (∃ step, deeds = [.finished step (.failed failure)]) ∨
      (control = .leave (.failed failure) ∧ ∃ rest, frames = .sequence rest :: frames') := by
  generalize hto : Control.leave (.failed failure) = control' at h
  cases h with
  | lost hroot =>
    cases hto
    exact Or.inr (Or.inl ⟨hroot, rfl⟩)
  | unnamed | missing => exact Or.inl ⟨_, _, rfl⟩
  | choose | next | child => exact absurd hto.symm (follow_ne_failed _ _)
  | finish =>
    cases hto
    exact Or.inr (Or.inr (Or.inl ⟨_, rfl⟩))
  | closed =>
    cases hto
    exact Or.inr (Or.inr (Or.inr ⟨rfl, _, rfl⟩))
  | answer =>
    obtain ⟨⟨rest, rfl⟩, -⟩ := hplaced
    exact Or.inl ⟨_, _, rfl⟩
  | broken =>
    obtain ⟨⟨rest, rfl⟩, -⟩ := hplaced
    exact Or.inl ⟨_, _, rfl⟩
  | _ => cases hto

/-- Every failure of a task has been blamed on something, once the step that it arose in is
over. -/
structure Scene.Traced (d : Definition) (x : Scene) : Prop where
  leaving : ∀ (id : Nat) (task : Task) (failure : Failure), x.machine.tasks[id]? = some task →
    task.control = .leave (.failed failure) →
    (∃ step rest, task.frames = .finish step :: rest) ∨ Blamed d x.ledger.history failure
  endings : ∀ e ∈ x.ledger.history, ∀ failure, e.deed.ending? = some (.failed failure) →
    Blamed d x.ledger.history failure

namespace Scene

theorem Traced.own (h : Traced d ⟨m, l⟩) (hplaced : Placed d ⟨m, l⟩) {trail : Trail}
    (hown : Own invoker m id deeds task) (hleave : task.control = .leave (.failed failure)) :
    (∃ step rest, task.frames = .finish step :: rest) ∨
      Blamed d (l.history ++ trail.entries id deeds) failure := by
  cases hown with
  | idle htask => exact (h.leaving id _ failure htask hleave).imp_right Blamed.append
  | goes htask hrun hadv =>
    obtain ⟨-, trail', -, hcontrol⟩ := hplaced.exists_placed htask
    obtain ⟨-, rfl⟩ := hplaced.definition_of_getElem? hrun
    dsimp only at hleave ⊢
    subst hleave
    rcases hadv.leaving hcontrol with hframes | hroot | ⟨step, rfl⟩ | ⟨hbefore, rest, hframes⟩
    · exact Or.inl hframes
    · exact Or.inr (Or.inl hroot)
    · refine Or.inr (Or.inr ⟨⟨id, trail.inside.headD [], .finished step (.failed failure)⟩, ?_,
        step, rfl⟩)
      exact List.mem_append_right _ (List.mem_singleton_self _)
    · rcases h.leaving id _ failure htask hbefore with ⟨step, other, hfinish⟩ | hblamed
      · rw [hframes] at hfinish
        cases hfinish
      · exact Or.inr hblamed.append
  | forks => cases hleave
  | stops => cases hleave

theorem Traced.turn (h : Traced d ⟨m, l⟩) (hplaced : Placed d ⟨m, l⟩)
    (hturn : Turn invoker m id deeds m') : Traced d ⟨m', l.record id deeds⟩ := by
  obtain ⟨trail, -, hhistory⟩ := hplaced.history_record hturn
  constructor
  case leaving =>
    intro j task failure htask hleave
    dsimp only at htask ⊢
    rw [hhistory]
    by_cases hj : j = id
    · subst hj
      exact h.own hplaced (hturn.own htask) hleave
    · cases hturn.fate hj htask with
      | kept hold => exact (h.leaving j task failure hold hleave).imp_right Blamed.append
      | told hold =>
        exact (h.leaving j _ failure hold (Control.told_eq_leave hleave)).imp_right Blamed.append
      | born => cases hleave
  case endings =>
    intro e he failure hending
    dsimp only at he ⊢
    rw [hhistory] at he ⊢
    rcases List.mem_append.1 he with he | he
    · exact (h.endings e he failure hending).append
    · have hmem : e.deed ∈ deeds := Trail.deed_mem_of_mem_entries he
      rcases hturn.ending_cases with hnone | ⟨old, outcome, hold, hframes, hc, rfl⟩
      · rw [List.findSome?_eq_none_iff.1 hnone e.deed hmem] at hending
        cases hending
      · have houtcome : e.deed.ending? = some outcome := by
          rw [List.mem_singleton.1 hmem]
          split <;> rfl
        rw [houtcome] at hending
        cases hending
        rcases h.leaving id old failure hold hc with ⟨step, rest, hfinish⟩ | hblamed
        · rw [hframes] at hfinish
          cases hfinish
        · exact hblamed.append

/-- **Failures are neither lost nor made up** in scenes that are reached. -/
theorem Reaches.honest (h : Reaches invoker (opening d input) x) : x.Honest d ∧ x.Traced d := by
  refine h.induct ?start ?turn ?same
  case start =>
    refine ⟨⟨?_, fun _ task htask => Or.inl ?_⟩, ⟨?_, ?_⟩⟩
    · rw [history_opening]
      exact List.forall_mem_nil _
    · rw [(task_of_opening htask).2]
    · intro id task failure htask hleave
      rw [(task_of_opening htask).2] at hleave
      cases hleave
    · rw [history_opening]
      exact List.forall_mem_nil _
  case turn =>
    rintro m m' l id deeds hreach ⟨hhonest, htraced⟩ hturn
    exact ⟨hhonest.turn hreach.orderly hreach.placed hturn, htraced.turn hreach.placed hturn⟩
  case same =>
    rintro m m' l htasks - - ⟨⟨hfailures, hroot⟩, ⟨hleaving, hendings⟩⟩
    dsimp only at *
    rw [← htasks] at hfailures hroot hleaving
    exact ⟨⟨hfailures, hroot⟩, ⟨hleaving, hendings⟩⟩

end Scene

end Flowgraph.Run

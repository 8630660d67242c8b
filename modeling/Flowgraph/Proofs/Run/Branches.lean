import Flowgraph.Proofs.Run.Placement

/-!
# Tasks and the branches they wait for

A task that waits for branches keeps count of them; everything else about a branch it learns
when the branch ends. `Scene.Orderly` is the invariant that makes this enough:

* a task is stopped exactly if it has come to an end in the history;
* while a task waits, the branches that are still missing are those that have ended and are not
  taken yet, and those that are alive;
* **a task never gets past its branches unless they have all succeeded**: it waits for them, or
  it is on its way to fail, or they are done (`Control.Accounts`).

The last point holds at every depth of nesting. So once the first task of a run has ended well,
all tasks have (`Orderly.all_done`), and nothing is done any more (`Reaches.still`).
-/

set_option autoImplicit false

namespace Flowgraph.Run

open Machine (follow resolveAll)

/-! ### How tasks end -/

/-- How a task has come to its end in a history, if it has. -/
def outcomeOf (history : List Entry) (id : Nat) : Option Outcome :=
  history.findSome? fun e => if e.task = id then e.deed.ending? else none

section

variable {history new : List Entry} {id j : Nat} {deeds : List Deed} {trail : Trail}

@[simp] theorem outcomeOf_nil : outcomeOf [] id = none := rfl

theorem outcomeOf_append :
    outcomeOf (history ++ new) id = (outcomeOf history id).or (outcomeOf new id) :=
  List.findSome?_append

/-- How a task has ended does not change. -/
theorem outcomeOf_append_of_some {o : Outcome} (h : outcomeOf history id = some o) :
    outcomeOf (history ++ new) id = some o := by
  rw [outcomeOf_append, h, Option.some_or]

theorem outcomeOf_of_forall_ne (h : ∀ e ∈ history, e.task ≠ id) : outcomeOf history id = none := by
  apply List.findSome?_eq_none_iff.2
  intro e he
  rw [if_neg (h e he)]

theorem outcomeOf_entries_ne (hne : j ≠ id) : outcomeOf (trail.entries id deeds) j = none :=
  outcomeOf_of_forall_ne fun e he => by
    rw [Trail.task_of_mem_entries he]
    exact Ne.symm hne

theorem outcomeOf_entries : outcomeOf (trail.entries id deeds) id =
    deeds.findSome? Deed.ending? := by
  induction deeds generalizing trail with
  | nil => rfl
  | cons deed deeds ih =>
    have hcons : outcomeOf (trail.entries id (deed :: deeds)) id =
        (deed.ending?).or (outcomeOf ((trail.record deed).entries id deeds) id) := by
      simp only [outcomeOf, Trail.entries, List.findSome?_cons, if_true]
      cases deed.ending? <;> rfl
    rw [hcons, ih, List.findSome?_cons]
    cases deed.ending? <;> rfl

end

/-- Whether a task has stopped. -/
def Control.isStopped : Control → Bool
  | .stopped => true
  | _ => false

theorem Control.told_eq_join {control : Control} {news : Nat × Outcome} {step : Step}
    {missing : Nat} {ended : List (Nat × Outcome)}
    (h : control.told news = .join step missing ended) :
    ∃ before, control = .join step missing before ∧ ended = before ++ [news] := by
  cases control with
  | join step' missing' before =>
    obtain ⟨rfl, rfl, rfl⟩ := Control.join.inj h
    exact ⟨before, rfl, rfl⟩
  | _ => cases h

@[simp] theorem Control.isStopped_told {control : Control} {news : Nat × Outcome} :
    (control.told news).isStopped = control.isStopped := by
  cases control <;> rfl

theorem Control.eq_stopped {control : Control} (h : control.isStopped = true) :
    control = .stopped := by
  cases control with
  | stopped => rfl
  | _ => cases h

/-! ### Counting branches -/

/-- Whether a task is a branch of another one and has not stopped. -/
def Task.isLiveKid (p : Nat) (task : Task) : Bool :=
  decide (task.parent = some p) && !task.control.isStopped

/-- How many branches of a task have not stopped. -/
def liveKids (tasks : List Task) (p : Nat) : Nat := tasks.countP (Task.isLiveKid p)

section

variable {tasks : List Task} {p id : Nat} {old task : Task}

theorem liveKids_set (hold : tasks[id]? = some old) :
    liveKids (tasks.set id task) p + (if old.isLiveKid p then 1 else 0) =
      liveKids tasks p + (if task.isLiveKid p then 1 else 0) := by
  obtain ⟨hlt, rfl⟩ := List.getElem?_eq_some_iff.1 hold
  have hle : (if tasks[id].isLiveKid p then 1 else 0) ≤ liveKids tasks p := by
    split
    · exact List.countP_pos_iff.2 ⟨_, List.getElem_mem hlt, ‹_›⟩
    · exact Nat.zero_le _
  unfold liveKids at hle ⊢
  rw [List.countP_set hlt]
  omega

theorem liveKids_set_same (hold : tasks[id]? = some old)
    (h : task.isLiveKid p = old.isLiveKid p) :
    liveKids (tasks.set id task) p = liveKids tasks p := by
  have hset : liveKids (tasks.set id task) p + (if old.isLiveKid p then 1 else 0) =
      liveKids tasks p + (if task.isLiveKid p then 1 else 0) := liveKids_set hold
  rw [h] at hset
  omega

/-- Only stopping changes how many branches are alive. -/
theorem liveKids_set_running {run : Nat} {frames : List Frame} {control : Control}
    (hold : tasks[id]? = some old) (h : control.isStopped = old.control.isStopped) :
    liveKids (tasks.set id ⟨run, old.parent, frames, control⟩) p = liveKids tasks p :=
  liveKids_set_same hold (by simp only [Task.isLiveKid, h])

/-- A task that stops is no longer a branch that is alive. -/
theorem liveKids_set_stopped (hold : tasks[id]? = some old)
    (hrunning : old.control.isStopped = false) :
    liveKids (tasks.set id { old with control := .stopped }) p +
      (if old.parent = some p then 1 else 0) = liveKids tasks p := by
  have hset : liveKids (tasks.set id { old with control := .stopped }) p +
      (if old.isLiveKid p then 1 else 0) = liveKids tasks p + 0 := by
    rw [liveKids_set hold]
    simp [Task.isLiveKid, Control.isStopped]
  by_cases hparent : old.parent = some p
  · rw [if_pos hparent]
    simpa [Task.isLiveKid, hrunning, hparent] using hset
  · rw [if_neg hparent]
    simpa [Task.isLiveKid, hparent] using hset

theorem isLiveKid_told {news : Nat × Outcome} :
    (task.told news).isLiveKid p = task.isLiveKid p := by
  show (decide (task.parent = some p) && !(task.control.told news).isStopped) = _
  rw [Control.isStopped_told]
  rfl

theorem liveKids_modify_told {news : Nat × Outcome} {i : Nat} :
    liveKids (tasks.modify i (Task.told news)) p = liveKids tasks p := by
  cases hi : tasks[i]? with
  | none => rw [List.modify_eq_self (List.getElem?_eq_none_iff.1 hi)]
  | some old => rw [modify_eq_set hi, liveKids_set_same hi isLiveKid_told]

theorem liveKids_append {more : List Task} :
    liveKids (tasks ++ more) p = liveKids tasks p + liveKids more p := List.countP_append

theorem exists_liveKid (h : 0 < liveKids tasks p) :
    ∃ (j : Nat) (task : Task), tasks[j]? = some task ∧ task.parent = some p ∧
      task.control.isStopped = false := by
  obtain ⟨task, hmem, hkid⟩ := List.countP_pos_iff.1 h
  obtain ⟨j, hj⟩ := List.mem_iff_getElem?.1 hmem
  simp only [Task.isLiveKid, Bool.and_eq_true, decide_eq_true_eq, Bool.not_eq_true'] at hkid
  exact ⟨j, task, hj, hkid.1, hkid.2⟩

theorem isStopped_of_liveKids_eq_zero (h : liveKids tasks p = 0) {j : Nat}
    (hj : tasks[j]? = some task) (hparent : task.parent = some p) :
    task.control.isStopped = true := by
  have hnot := List.countP_eq_zero.1 h task (List.mem_of_getElem? hj)
  simpa [Task.isLiveKid, hparent] using hnot

end

/-! ### The invariant -/

/-- What the control of a task, and how it has ended, say about one of its branches, the task `j`
with its outcome: unless the task is about to fail or has failed, the branch has succeeded or is
waited for. -/
def Control.Accounts (result : Option Outcome) (j : Nat) (outcome : Option Outcome) :
    Control → Prop
  | .leave (.failed _) => True
  | .stopped => result = some .done → outcome = some .done
  | .join _ _ ended => ∀ o, outcome = some o → o = .done ∨ (j, o) ∈ ended
  | _ => outcome = some .done

/-- How the tasks of a scene, their branches and the history fit together. -/
structure Scene.Orderly (x : Scene) : Prop where
  /-- A task has stopped if and only if it has come to an end in the history. -/
  stopped : ∀ (id : Nat) (task : Task), x.machine.tasks[id]? = some task →
    task.control.isStopped = (outcomeOf x.ledger.history id).isSome
  /-- A task that waits misses the branches that it has not taken and those that are alive. -/
  joins : ∀ (p : Nat) (task : Task) (step : Step) (missing : Nat) (ended : List (Nat × Outcome)),
    x.machine.tasks[p]? = some task → task.control = .join step missing ended →
    missing = ended.length + liveKids x.machine.tasks p ∧ 0 < missing
  /-- A task accounts for its branches. -/
  kids : ∀ (p j : Nat) (parent child : Task), x.machine.tasks[p]? = some parent →
    x.machine.tasks[j]? = some child → child.parent = some p →
    parent.control.Accounts (outcomeOf x.ledger.history p) j (outcomeOf x.ledger.history j)

section

variable {invoker : Invoker} {calls : List Invocation} {run : Progress}
  {frames frames' : List Frame} {control control' : Control} {deeds : List Deed}
  {result result' outcome : Option Outcome} {j : Nat}

theorem isStopped_follow (d : Definition) (target : String) :
    (follow d target).isStopped = false := by
  unfold follow
  split <;> rfl

theorem Advance.running (h : Advance invoker calls run frames control deeds frames' control') :
    control.isStopped = false ∧ control'.isStopped = false := by
  cases h <;> exact ⟨rfl, by first | rfl | exact isStopped_follow _ _⟩

theorem Advance.no_ending (h : Advance invoker calls run frames control deeds frames' control') :
    deeds.findSome? Deed.ending? = none := by
  cases h <;> rfl

/-- A task comes to an end in a turn only by leaving its last frame. -/
theorem Turn.ending_cases {m m' : Machine} {id : Nat} (h : Turn invoker m id deeds m') :
    deeds.findSome? Deed.ending? = none ∨
      ∃ task outcome, m.tasks[id]? = some task ∧ task.frames = [] ∧
        task.control = .leave outcome ∧
        deeds = [if task.parent.isSome then .ended outcome else .returned outcome] := by
  cases h with
  | idle => exact Or.inl rfl
  | goes htask hrun hadv => exact Or.inl hadv.no_ending
  | forks => exact Or.inl rfl
  | ends htask hrun hparent hframes hc =>
    exact Or.inr ⟨_, _, htask, hframes, hc, by rw [hparent]; rfl⟩
  | returns htask hrun hparent hframes hc =>
    exact Or.inr ⟨_, _, htask, hframes, hc, by rw [hparent]; rfl⟩

theorem accounts_follow (d : Definition) (target : String) (h : outcome = some .done) :
    (follow d target).Accounts result j outcome := by
  unfold follow
  split <;> exact h

/-- A task that goes on by itself still accounts for its branches: it gets past them only when
the last one has succeeded. -/
theorem Advance.accounts (h : Advance invoker calls run frames control deeds frames' control')
    (hlast : ∀ step missing first rest, control = .join step missing (first :: rest) →
      missing ≤ 1 → rest = [] ∧ outcome.isSome = true)
    (hacc : control.Accounts result j outcome) : control'.Accounts result' j outcome := by
  cases h with
  | begin | call | sequence | branchless | pass | panic => exact hacc
  | lost | unnamed | missing | broken => trivial
  | choose | next | child => exact accounts_follow _ _ hacc
  | finish | closed =>
    rename_i outcome _
    cases outcome <;> exact hacc
  | answer =>
    split
    · exact hacc
    · trivial
  | joined hmissing =>
    -- no other branch is left, so each has ended, and the one that is taken has succeeded
    obtain ⟨rfl, hsome⟩ := hlast _ _ _ _ rfl hmissing
    obtain ⟨o, rfl⟩ := Option.isSome_iff_exists.1 hsome
    rcases hacc o rfl with rfl | hmem
    · rfl
    · rw [List.mem_singleton] at hmem
      obtain ⟨-, rfl⟩ := Prod.mk.inj hmem
      rfl
  | take hmissing =>
    intro o ho
    rcases hacc o ho with hdone | hmem
    · exact Or.inl hdone
    · rcases List.mem_cons.1 hmem with heq | hmem
      · exact Or.inl (Prod.mk.inj heq).2
      · exact Or.inr hmem

theorem accounts_told {news : Nat × Outcome} (h : control.Accounts result j outcome) :
    (control.told news).Accounts result j outcome := by
  cases control with
  | join step missing ended =>
    intro o ho
    rcases h o ho with hdone | hmem
    · exact Or.inl hdone
    · exact Or.inr (List.mem_append_left _ hmem)
  | leave outcome => cases outcome <;> exact h
  | _ => exact h

/-- What a task knows about a branch that it does not wait for and that has not ended. -/
theorem Control.Accounts.of_none (h : control.Accounts result j none) :
    (∃ failure, control = .leave (.failed failure)) ∨
      (control = .stopped ∧ result ≠ some .done) ∨
      ∃ step missing ended, control = .join step missing ended := by
  cases control with
  | leave outcome =>
    cases outcome with
    | failed failure => exact Or.inl ⟨failure, rfl⟩
    | _ => cases h
  | stopped => exact Or.inr (Or.inl ⟨rfl, fun hdone => by cases h hdone⟩)
  | join step missing ended => exact Or.inr (Or.inr ⟨step, missing, ended, rfl⟩)
  | _ => cases h

/-- A task is told about a branch that has just ended. -/
theorem accounts_told_ended {o : Outcome} (h : control.Accounts result j none) :
    (control.told (j, o)).Accounts result j (some o) := by
  rcases h.of_none with ⟨failure, rfl⟩ | ⟨rfl, hresult⟩ | ⟨step, missing, ended, rfl⟩
  · trivial
  · exact fun hdone => absurd hdone hresult
  · intro o' ho'
    rw [← Option.some.inj ho']
    exact Or.inr (by simp)

end

/-! ### Every turn keeps the invariant -/

theorem liveKids_branches (branches : List Step) (run id p : Nat) :
    liveKids (branches.map fun b => (⟨run, some id, [], .enter b⟩ : Task)) p =
      if p = id then branches.length else 0 := by
  unfold liveKids
  rw [List.countP_map]
  by_cases hp : p = id
  · subst hp
    rw [if_pos rfl]
    exact List.countP_eq_length.2 fun b _ => by simp [Task.isLiveKid, Control.isStopped]
  · rw [if_neg hp]
    exact List.countP_eq_zero.2 fun b _ => by simp [Task.isLiveKid, Ne.symm hp]

/-- A task that waits on has taken one of the branches that have ended. -/
theorem Advance.join_inv {invoker : Invoker} {calls : List Invocation} {run : Progress}
    {frames frames' : List Frame} {control : Control} {deeds : List Deed} {step : Step}
    {missing : Nat} {ended : List (Nat × Outcome)}
    (h : Advance invoker calls run frames control deeds frames' (.join step missing ended)) :
    ∃ branch, control = .join step (missing + 1) ((branch, .done) :: ended) ∧ 0 < missing ∧
      deeds = [] := by
  generalize hto : Control.join step missing ended = control' at h
  have hfollow : ∀ target, Control.join step missing ended ≠ follow run.definition target := by
    intro target
    unfold follow
    split <;> simp
  cases h with
  | @take _ _ before branch _ hmissing =>
    obtain ⟨rfl, rfl, rfl⟩ := Control.join.inj hto
    refine ⟨branch, ?_, by omega, rfl⟩
    rw [Nat.sub_add_cancel (by omega)]
  | choose | next | child => exact absurd hto (hfollow _)
  | _ => cases hto

/-- A task after a turn is one from before, with the same parent, or a branch that has just been
started. -/
theorem Turn.task_cases {invoker : Invoker} {m m' : Machine} {id j : Nat} {deeds : List Deed}
    {task : Task} (h : Turn invoker m id deeds m') (hj : m'.tasks[j]? = some task) :
    (∃ old, m.tasks[j]? = some old ∧ task.parent = old.parent ∧
        (task.control.isStopped = false → old.control.isStopped = false)) ∨
      (m.tasks.length ≤ j ∧ task.parent = some id ∧
        ∃ step kids, deeds = [.entered step, .forked step kids]) := by
  by_cases hne : j = id
  · subst hne
    refine Or.inl ?_
    cases h.own hj with
    | idle htask => exact ⟨_, htask, rfl, fun hrunning => hrunning⟩
    | goes htask hrun hadv => exact ⟨_, htask, rfl, fun _ => hadv.running.1⟩
    | forks htask hrun hc => exact ⟨_, htask, rfl, fun _ => by rw [hc]; rfl⟩
    | stops htask hframes hc => exact ⟨_, htask, rfl, fun _ => by rw [hc]; rfl⟩
  · cases h.fate hne hj with
    | kept hold => exact Or.inl ⟨_, hold, rfl, fun hrunning => hrunning⟩
    | told hold =>
      refine Or.inl ⟨_, hold, rfl, fun hrunning => ?_⟩
      rw [← hrunning]
      exact Control.isStopped_told.symm
    | born hold hc hdeeds hb hjb => exact Or.inr ⟨by omega, rfl, _, _, hdeeds⟩

/-- All tasks keep their parents in a turn. -/
theorem Turn.parents {invoker : Invoker} {m m' : Machine} {id : Nat} {deeds : List Deed}
    (h : Turn invoker m id deeds m') : ∀ (i : Nat) (task : Task), m.tasks[i]? = some task →
      ∃ task', m'.tasks[i]? = some task' ∧ task'.parent = task.parent := by
  intro i task htask
  have hlt := lt_of_getElem? htask
  obtain ⟨task', htask'⟩ := getElem?_of_lt (Nat.lt_of_lt_of_le hlt h.length_tasks_le)
  rcases h.task_cases htask' with ⟨old, hold, hparent, -⟩ | ⟨hle, -, -⟩
  · rw [htask] at hold
    cases hold
    exact ⟨task', htask', hparent⟩
  · omega

/-- Starting branches adds a task for each. -/
theorem Turn.length_tasks_forked {invoker : Invoker} {m m' : Machine} {id : Nat} {step : Step}
    {kids : List Nat} (h : Turn invoker m id [.entered step, .forked step kids] m') :
    m'.tasks.length = m.tasks.length + kids.length := by
  cases h with
  | goes htask hrun hadv =>
    exact absurd rfl (hadv.ne_forked (.forked step kids) (by simp) step kids)
  | forks => simp

namespace Scene.Orderly

variable {invoker : Invoker} {d : Definition} {x : Scene} {m m' : Machine} {l : Ledger}
  {id j : Nat} {deeds : List Deed} {task : Task}

/-- A task that has not stopped has not ended. -/
theorem outcomeOf_eq_none (h : x.Orderly) (htask : x.machine.tasks[id]? = some task)
    (hrunning : task.control.isStopped = false) : outcomeOf x.ledger.history id = none := by
  have hstopped := h.stopped id task htask
  rw [hrunning] at hstopped
  exact Option.isNone_iff_eq_none.1 (by simpa using hstopped.symm)

/-- A task that has ended has stopped. -/
theorem stopped_of_outcomeOf (h : x.Orderly) (htask : x.machine.tasks[id]? = some task)
    {outcome : Outcome} (houtcome : outcomeOf x.ledger.history id = some outcome) :
    task.control = .stopped := by
  have hstopped := h.stopped id task htask
  rw [houtcome, Option.isSome_some] at hstopped
  exact Control.eq_stopped hstopped

/-- The branches of a task that has succeeded have succeeded. -/
theorem done_of_parent (h : x.Orderly) {parent : Task} {p : Nat}
    (hp : x.machine.tasks[p]? = some parent) (htask : x.machine.tasks[id]? = some task)
    (hparent : task.parent = some p) (hdone : outcomeOf x.ledger.history p = some .done) :
    outcomeOf x.ledger.history id = some .done := by
  have hacc := h.kids p id parent task hp htask hparent
  rw [h.stopped_of_outcomeOf hp hdone] at hacc
  exact hacc hdone

theorem stopped_turn (h : Scene.Orderly ⟨m, l⟩) (hplaced : Scene.Placed d ⟨m, l⟩)
    (hturn : Turn invoker m id deeds m') (hj : m'.tasks[j]? = some task) :
    task.control.isStopped = (outcomeOf (l.record id deeds).history j).isSome := by
  obtain ⟨trail, -, hhistory⟩ := hplaced.history_record hturn
  rw [hhistory, outcomeOf_append]
  by_cases hne : j = id
  · subst hne
    rw [outcomeOf_entries]
    cases hturn.own hj with
    | idle htask => simpa using h.stopped j task htask
    | goes htask hrun hadv =>
      rw [h.outcomeOf_eq_none htask hadv.running.1, hadv.no_ending]
      exact hadv.running.2
    | forks htask hrun hc =>
      rw [h.outcomeOf_eq_none htask (by rw [hc]; rfl)]
      rfl
    | stops htask hframes hc hdeed =>
      rw [h.outcomeOf_eq_none htask (by rw [hc]; rfl), hdeed]
      split <;> rfl
  · rw [outcomeOf_entries_ne hne, Option.or_none]
    cases hturn.fate hne hj with
    | kept hold => exact h.stopped j task hold
    | told hold =>
      rw [← h.stopped j _ hold]
      exact Control.isStopped_told
    | born hold hc hdeeds hb hjb =>
      rw [outcomeOf_of_forall_ne fun e he heq => ?_]
      · rfl
      · have hlt : e.task < m.tasks.length := (hplaced.entries e he).1
        omega

/-- A task that begins a step has no branch that is alive. -/
theorem liveKids_eq_zero (h : x.Orderly) (htask : x.machine.tasks[id]? = some task) {step : Step}
    (hc : task.control = .enter step) : liveKids x.machine.tasks id = 0 := by
  by_contra hne
  obtain ⟨j, child, hchild, hparent, hrunning⟩ := exists_liveKid (Nat.pos_of_ne_zero hne)
  have hacc := h.kids id j task child htask hchild hparent
  rw [hc, h.outcomeOf_eq_none hchild hrunning] at hacc
  cases hacc

theorem joins_turn (h : Scene.Orderly ⟨m, l⟩) (hturn : Turn invoker m id deeds m') {step : Step}
    {missing : Nat} {ended : List (Nat × Outcome)} (hj : m'.tasks[j]? = some task)
    (hc : task.control = .join step missing ended) :
    missing = ended.length + liveKids m'.tasks j ∧ 0 < missing := by
  cases hturn with
  | idle => exact h.joins j task step missing ended hj hc
  | goes htask hrun hadv =>
    dsimp only at hj ⊢
    rw [liveKids_set_running htask (by rw [hadv.running.1, hadv.running.2])]
    rcases getElem?_set_cases hj with ⟨rfl, rfl⟩ | ⟨-, hold⟩
    · dsimp only at hc
      subst hc
      obtain ⟨branch, hbefore, hpos, -⟩ := hadv.join_inv
      have hjoin := h.joins j _ _ _ _ htask hbefore
      rw [List.length_cons] at hjoin
      dsimp only at hjoin
      omega
    · exact h.joins j task step missing ended hold hc
  | forks htask hrun hcontrol hwork hall hne =>
    dsimp only at hj ⊢
    rw [liveKids_append, liveKids_branches, liveKids_set_running htask (by rw [hcontrol]; rfl)]
    rcases getElem?_append_cases hj with hj | ⟨-, hj⟩
    · rcases getElem?_set_cases hj with ⟨rfl, rfl⟩ | ⟨hother, hold⟩
      · -- the task has no branches that are alive but the new ones
        obtain ⟨rfl, rfl, rfl⟩ := Control.join.inj hc
        have hzero := h.liveKids_eq_zero htask hcontrol
        dsimp only at hzero
        rw [if_pos rfl, hzero]
        exact ⟨by simp, List.length_pos_iff.2 hne⟩
      · rw [if_neg hother]
        exact h.joins j task step missing ended hold hc
    · rw [List.getElem?_map] at hj
      obtain ⟨b, -, rfl⟩ := Option.map_eq_some_iff.1 hj
      cases hc
  | @ends child _ _ parent _ htask hrun hparent hframes hcontrol =>
    dsimp only at hj ⊢
    rw [liveKids_modify_told]
    have hcount : liveKids (m.tasks.set id { child with control := .stopped }) j +
        (if child.parent = some j then 1 else 0) = liveKids m.tasks j :=
      liveKids_set_stopped htask (by rw [hcontrol]; rfl)
    obtain ⟨old, hold, hnew⟩ := getElem?_modify_cases hj
    rcases getElem?_set_cases hold with ⟨rfl, rfl⟩ | ⟨-, hold⟩
    · rcases hnew with ⟨-, rfl⟩ | ⟨-, rfl⟩ <;> cases hc
    · rcases hnew with ⟨hother, rfl⟩ | ⟨rfl, rfl⟩
      · have hne : child.parent ≠ some j := by
          rw [hparent]
          exact fun heq => hother (Option.some.inj heq).symm
        rw [if_neg hne] at hcount
        rw [← Nat.add_zero (liveKids (m.tasks.set id _) j), hcount]
        exact h.joins j _ step missing ended hold hc
      · -- one branch fewer is alive, and one more has ended
        obtain ⟨before, hbefore, rfl⟩ := Control.told_eq_join hc
        have hjoin := h.joins j old step missing before hold hbefore
        rw [if_pos hparent] at hcount
        rw [List.length_append, List.length_singleton]
        dsimp only at hjoin
        omega
  | @returns child _ _ htask hrun hparent hframes hcontrol =>
    dsimp only at hj ⊢
    rw [liveKids_set_same htask (by simp [Task.isLiveKid, hparent])]
    rcases getElem?_set_cases hj with ⟨rfl, rfl⟩ | ⟨-, hold⟩
    · cases hc
    · exact h.joins j task step missing ended hold hc

/-- The last branch that a task takes: no other is alive, or has ended without being taken. -/
theorem last_join (h : x.Orderly) (htask : x.machine.tasks[id]? = some task) {step : Step}
    {missing : Nat} {first : Nat × Outcome} {rest : List (Nat × Outcome)}
    (hc : task.control = .join step missing (first :: rest)) (hmissing : missing ≤ 1)
    {child : Task} (hchild : x.machine.tasks[j]? = some child) (hparent : child.parent = some id) :
    rest = [] ∧ (outcomeOf x.ledger.history j).isSome = true := by
  obtain ⟨hcount, -⟩ := h.joins id task step missing (first :: rest) htask hc
  rw [List.length_cons] at hcount
  refine ⟨List.length_eq_zero_iff.1 (by omega), ?_⟩
  rw [← h.stopped j child hchild]
  exact isStopped_of_liveKids_eq_zero (by omega) hchild hparent

/-- The task whose turn it is accounts for a branch that it has had before. -/
theorem own_kids (h : Scene.Orderly ⟨m, l⟩) {parent child : Task} {trail : Trail}
    (hown : Own invoker m id deeds parent) (hchild : m.tasks[j]? = some child)
    (hparent : child.parent = some id) :
    parent.control.Accounts
      ((outcomeOf l.history id).or (outcomeOf (trail.entries id deeds) id)) j
      (outcomeOf l.history j) := by
  cases hown with
  | idle htask => simpa [Trail.entries] using h.kids id j _ child htask hchild hparent
  | goes htask hrun hadv =>
    have hacc := h.kids id j _ child htask hchild hparent
    exact hadv.accounts (fun step missing first rest hc hmissing =>
      h.last_join htask hc hmissing hchild hparent) hacc
  | forks htask hrun hc =>
    have hacc := h.kids id j _ child htask hchild hparent
    rw [hc] at hacc
    intro o ho
    exact Or.inl (Option.some.inj (ho.symm.trans hacc))
  | @stops old outcome deed htask hframes hc hdeed =>
    have hacc := h.kids id j _ child htask hchild hparent
    have hnone : outcomeOf l.history id = none := h.outcomeOf_eq_none htask (by rw [hc]; rfl)
    have hsome : [deed].findSome? Deed.ending? = some outcome := by
      rw [hdeed]
      split <;> rfl
    rw [hc] at hacc
    intro hdone
    rw [hnone, outcomeOf_entries, hsome] at hdone
    cases hdone
    exact hacc

/-- A task accounts for a branch of it whose turn it is. -/
theorem kids_own (h : Scene.Orderly ⟨m, l⟩) {parent child : Task} {trail : Trail} {p : Nat}
    (hown : Own invoker m id deeds child) (hparent : child.parent = some p)
    (hold : m.tasks[p]? = some parent ∧ (∀ child outcome, m.tasks[id]? = some child →
      deeds = [.ended outcome] → child.parent ≠ some p) ∨ ∃ old outcome,
        m.tasks[p]? = some old ∧ deeds = [.ended outcome] ∧ parent = old.told (id, outcome)) :
    parent.control.Accounts (outcomeOf l.history p) id
      ((outcomeOf l.history id).or (outcomeOf (trail.entries id deeds) id)) := by
  -- unless the branch ends in its turn, its outcome stays what it was
  have hsame : ∀ old, m.tasks[id]? = some old → old.parent = some p →
      outcomeOf (trail.entries id deeds) id = none →
      parent.control.Accounts (outcomeOf l.history p) id
        ((outcomeOf l.history id).or (outcomeOf (trail.entries id deeds) id)) := by
    intro old hchild hparent hnone
    rw [hnone, Option.or_none]
    rcases hold with ⟨hold, -⟩ | ⟨before, outcome, hold, -, rfl⟩
    · exact h.kids p id _ old hold hchild hparent
    · exact accounts_told (h.kids p id _ old hold hchild hparent)
  cases hown with
  | idle htask => exact hsame _ htask hparent rfl
  | goes htask hrun hadv =>
    exact hsame _ htask hparent (by rw [outcomeOf_entries, hadv.no_ending])
  | forks htask hrun hc => exact hsame _ htask hparent (by rw [outcomeOf_entries]; rfl)
  | @stops old outcome deed htask hframes hc hdeed =>
    dsimp only at hparent
    rw [hparent, Option.isSome_some, if_pos rfl] at hdeed
    subst hdeed
    have hnone : outcomeOf l.history id = none := h.outcomeOf_eq_none htask (by rw [hc]; rfl)
    rcases hold with ⟨-, hkept⟩ | ⟨before, other, hold, heq, rfl⟩
    · exact absurd hparent (hkept old outcome htask rfl)
    · obtain rfl : outcome = other := by simpa using heq
      have hacc := h.kids p id _ old hold htask hparent
      dsimp only at hacc
      rw [hnone] at hacc ⊢
      rw [outcomeOf_entries]
      exact accounts_told_ended hacc

theorem kids_turn (h : Scene.Orderly ⟨m, l⟩) (hplaced : Scene.Placed d ⟨m, l⟩)
    (hturn : Turn invoker m id deeds m') {p : Nat} {parent child : Task}
    (hp : m'.tasks[p]? = some parent) (hj : m'.tasks[j]? = some child)
    (hparent : child.parent = some p) :
    parent.control.Accounts (outcomeOf (l.record id deeds).history p) j
      (outcomeOf (l.record id deeds).history j) := by
  obtain ⟨trail, -, hhistory⟩ := hplaced.history_record hturn
  have hlt : p < j := ((hplaced.turn hturn).parents j child hj).2 p hparent
  have hnew : ∀ n, m.tasks.length ≤ n → outcomeOf l.history n = none := fun n hn =>
    outcomeOf_of_forall_ne fun e he heq => by
      have hlt : e.task < m.tasks.length := (hplaced.entries e he).1
      omega
  rw [hhistory, outcomeOf_append, outcomeOf_append]
  -- the turn is that of the branch, that of its parent, or that of another task
  by_cases hjid : j = id
  · subst hjid
    have hpne : p ≠ j := Nat.ne_of_lt hlt
    obtain ⟨old, hold⟩ := (hturn.own hj).exists_task
    rw [outcomeOf_entries_ne hpne, Option.or_none]
    refine h.kids_own (hturn.own hj) hparent ?_
    cases hturn.fate hpne hp with
    | kept hkept hnot => exact Or.inl ⟨hkept, hnot⟩
    | told htold hid hpar hdeeds => exact Or.inr ⟨_, _, htold, hdeeds, rfl⟩
    | born hold' hc hdeeds hb hpb =>
      have := lt_of_getElem? hold
      omega
  · rw [outcomeOf_entries_ne hjid, Option.or_none]
    by_cases hpid : p = id
    · subst hpid
      cases hturn.fate hjid hj with
      | kept hold => exact h.own_kids (hturn.own hp) hold hparent
      | told hold => exact h.own_kids (hturn.own hp) hold hparent
      | @born _ step _ branches _ hold hc hdeeds hb hjb =>
        rw [hnew j (by omega)]
        cases hturn.own hp with
        | idle => cases hdeeds
        | goes htask hrun hadv =>
          have hmem : Deed.forked step (List.range' m.tasks.length branches.length) ∈ deeds := by
            simp [hdeeds]
          exact absurd rfl (hadv.ne_forked _ hmem _ _)
        | forks => exact fun o ho => by cases ho
        | stops => cases hdeeds
    · rw [outcomeOf_entries_ne hpid, Option.or_none]
      have hkid : ∀ old, m.tasks[j]? = some old → old.parent = some p →
          parent.control.Accounts (outcomeOf l.history p) j (outcomeOf l.history j) := by
        intro old hold hpar
        cases hturn.fate hpid hp with
        | kept hkept => exact h.kids p j _ old hkept hold hpar
        | told htold => exact accounts_told (h.kids p j _ old htold hold hpar)
        | born _ _ _ _ hpb =>
          have := lt_of_getElem? hold
          omega
      cases hturn.fate hjid hj with
      | kept hold => exact hkid _ hold hparent
      | told hold => exact hkid _ hold hparent
      | born => exact absurd (Option.some.inj hparent).symm hpid

end Scene.Orderly

/-- **Tasks and branches fit together** in every scene that is reached. -/
theorem Scene.Reaches.orderly {invoker : Invoker} {d : Definition} {input : Store} {x : Scene}
    (h : Scene.Reaches invoker (Scene.opening d input) x) : x.Orderly := by
  refine h.induct ?start ?turn ?same
  case start =>
    refine ⟨fun id task htask => ?_, fun p task step missing ended htask hc => ?_,
      fun p j parent child hp hj hparent => ?_⟩
    · rw [(Scene.task_of_opening htask).2, Scene.history_opening]
      rfl
    · rw [(Scene.task_of_opening htask).2] at hc
      cases hc
    · rw [(Scene.task_of_opening hj).2] at hparent
      cases hparent
  case turn =>
    intro m m' l id deeds hreach horderly hturn
    exact ⟨fun j task hj => horderly.stopped_turn hreach.placed hturn hj,
      fun j task step missing ended hj hc => horderly.joins_turn hturn hj hc,
      fun p j parent child hp hj hparent => horderly.kids_turn hreach.placed hturn hp hj hparent⟩
  case same =>
    rintro m m' l htasks - - ⟨hstopped, hjoins, hkids⟩
    dsimp only at *
    rw [← htasks] at hstopped hjoins hkids
    exact ⟨hstopped, hjoins, hkids⟩

/-! ### Branches of branches -/

/-- Whether a task is a branch of another one, or of a task that is under it. -/
inductive Under (tasks : List Task) (p : Nat) : Nat → Prop
  | kid {j : Nat} {task : Task} : tasks[j]? = some task → task.parent = some p → Under tasks p j
  | deeper {q j : Nat} {task : Task} : Under tasks p q → tasks[j]? = some task →
      task.parent = some q → Under tasks p j

section

variable {x : Scene} {tasks tasks' : List Task} {p j : Nat}

theorem Under.exists_task (h : Under tasks p j) : ∃ task, tasks[j]? = some task := by
  cases h <;> exact ⟨_, ‹_›⟩

/-- Tasks stay under each other as long as they keep their parents. -/
theorem Under.mono (h : Under tasks p j) (hparents : ∀ (i : Nat) (task : Task),
    tasks[i]? = some task → ∃ task', tasks'[i]? = some task' ∧ task'.parent = task.parent) :
    Under tasks' p j := by
  induction h with
  | kid htask hparent =>
    obtain ⟨task', htask', hsame⟩ := hparents _ _ htask
    exact .kid htask' (by rw [hsame, hparent])
  | deeper _ htask hparent ih =>
    obtain ⟨task', htask', hsame⟩ := hparents _ _ htask
    exact .deeper ih htask' (by rw [hsame, hparent])

/-- If all branches of a task have succeeded, so have all tasks under it. -/
theorem Scene.Orderly.under_done (h : x.Orderly)
    (hkids : ∀ (i : Nat) (child : Task), x.machine.tasks[i]? = some child →
      child.parent = some p → outcomeOf x.ledger.history i = some .done)
    (hunder : Under x.machine.tasks p j) : outcomeOf x.ledger.history j = some .done := by
  induction hunder with
  | kid hj hparent => exact hkids _ _ hj hparent
  | deeper hunder hj hparent ih =>
    obtain ⟨between, hq⟩ := hunder.exists_task
    exact h.done_of_parent hq hj hparent ih

end

/-! ### Once the first task has succeeded -/

namespace Scene

variable {invoker : Invoker} {d : Definition} {x y : Scene}

/-- **If the first task of a run has succeeded, all tasks have**, since each accounts for its
branches. -/
theorem Orderly.all_done (h : x.Orderly) (hplaced : x.Placed d)
    (hdone : outcomeOf x.ledger.history 0 = some .done) {id : Nat} {task : Task}
    (htask : x.machine.tasks[id]? = some task) :
    outcomeOf x.ledger.history id = some .done := by
  -- a branch has a greater number than its parent
  induction id using Nat.strongRecOn generalizing task with
  | _ id ih =>
    obtain ⟨hfirst, hbefore⟩ := hplaced.parents id task htask
    cases hparent : task.parent with
    | none =>
      rw [hfirst.1 hparent]
      exact hdone
    | some p =>
      have hlt : p < id := hbefore p hparent
      obtain ⟨parent, hp⟩ := getElem?_of_lt (Nat.lt_trans hlt (lt_of_getElem? htask))
      exact h.done_of_parent hp htask hparent (ih p hlt hp)

/-- Whether all tasks have stopped. -/
def Still (x : Scene) : Prop := ∀ task ∈ x.machine.tasks, task.control = .stopped

theorem Orderly.still (h : x.Orderly) (hplaced : x.Placed d)
    (hdone : outcomeOf x.ledger.history 0 = some .done) : x.Still := by
  intro task hmem
  obtain ⟨id, htask⟩ := List.mem_iff_getElem?.1 hmem
  exact h.stopped_of_outcomeOf htask (h.all_done hplaced hdone htask)

/-- A task that has stopped can only be idle. -/
theorem Still.turn {m m' : Machine} {l : Ledger} {id : Nat} {deeds : List Deed}
    (h : Still ⟨m, l⟩) (hturn : Turn invoker m id deeds m') : deeds = [] ∧ m' = m.pause := by
  have hnot : ∀ task, m.tasks[id]? = some task → task.control = .stopped := fun task htask =>
    h task (List.mem_of_getElem? htask)
  cases hturn with
  | idle => exact ⟨rfl, rfl⟩
  | goes htask hrun hadv =>
    have hrunning := hadv.running.1
    rw [hnot _ htask] at hrunning
    cases hrunning
  | forks htask hrun hc =>
    rw [hnot _ htask] at hc
    cases hc
  | ends htask hrun hparent hframes hc =>
    rw [hnot _ htask] at hc
    cases hc
  | returns htask hrun hparent hframes hc =>
    rw [hnot _ htask] at hc
    cases hc

/-- **Nothing is done any more once all tasks have stopped.** -/
theorem Reaches.still (h : Reaches invoker x y) (hstill : x.Still) :
    y.machine.tasks = x.machine.tasks ∧ y.machine.runs = x.machine.runs ∧
      y.machine.calls = x.machine.calls ∧ y.ledger = x.ledger := by
  refine h.induct ⟨rfl, rfl, rfl, rfl⟩ ?turn ?same
  case turn =>
    rintro m m' l id deeds - ⟨htasks, hruns, hcalls, hledger⟩ hturn
    have hnow : Still ⟨m, l⟩ := by
      intro task hmem
      dsimp only at htasks hmem
      rw [htasks] at hmem
      exact hstill task hmem
    obtain ⟨rfl, rfl⟩ := hnow.turn hturn
    exact ⟨htasks, hruns, hcalls, hledger⟩
  case same =>
    rintro m m' l htasks hruns hcalls ⟨htasks', hruns', hcalls', hledger⟩
    dsimp only at *
    rw [htasks, hruns, hcalls]
    exact ⟨htasks', hruns', hcalls', hledger⟩

end Scene

end Flowgraph.Run

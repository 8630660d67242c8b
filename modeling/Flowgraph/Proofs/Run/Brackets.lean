import Flowgraph.Proofs.Run.Branches
import Flowgraph.Proofs.Run.Once

/-!
# Runs without parallel branches

Where no step has more than one branch, a task that has started a branch waits until the branch has
ended. So at any time **only the last of the tasks that have not stopped has anything to do**
(`Scene.InLine`), and the steps that are under way are the ones that this task and those before it
are inside of, the innermost last. They begin and end like brackets open and close
(`Reaches.nested_of_still`).
-/

set_option autoImplicit false

namespace Flowgraph

/-- Whether no step has more than one branch. -/
def Definition.Narrow (d : Definition) : Prop :=
  ∀ step ∈ d.steps, ∀ ids, step.work = .parallel ids → ids.length ≤ 1

namespace Run

open Machine (follow resolveAll)

/-! ### Brackets -/

/-- Beginnings and ends of steps that are nested like brackets. -/
inductive Nested : List Deed → Prop
  | nil : Nested []
  | wrap {step : Step} {outcome : Outcome} {inner rest : List Deed} : Nested inner → Nested rest →
      Nested (.entered step :: inner ++ .finished step outcome :: rest)

/-- Beginnings and ends of steps of which some steps are still open, the innermost first. -/
inductive Opened : List Deed → List Step → Prop
  | closed {deeds : List Deed} : Nested deeds → Opened deeds []
  | inside {deeds inner : List Deed} {steps : List Step} {step : Step} : Opened deeds steps →
      Nested inner → Opened (deeds ++ .entered step :: inner) (step :: steps)

section

variable {deeds more : List Deed} {steps : List Step} {step : Step} {outcome : Outcome}

theorem Nested.append (h : Nested deeds) (hmore : Nested more) : Nested (deeds ++ more) := by
  induction h with
  | nil => exact hmore
  | @wrap step outcome inner rest hinner hrest _ ih =>
    have hwrap : Nested (.entered step :: inner ++ .finished step outcome :: (rest ++ more)) :=
      .wrap hinner ih
    simpa using hwrap

theorem Opened.append (h : Opened deeds steps) (hmore : Nested more) :
    Opened (deeds ++ more) steps := by
  cases h with
  | closed hnested => exact .closed (hnested.append hmore)
  | inside hopened hinner =>
    rw [List.append_assoc, List.cons_append]
    exact .inside hopened (hinner.append hmore)

theorem Opened.nested (h : Opened deeds []) : Nested deeds := by
  cases h with
  | closed hnested => exact hnested

theorem Opened.enter (h : Opened deeds steps) : Opened (deeds ++ [.entered step]) (step :: steps) :=
  .inside h .nil

theorem Opened.finish (h : Opened deeds (step :: steps)) :
    Opened (deeds ++ [.finished step outcome]) steps := by
  cases h with
  | inside hopened hinner =>
    rw [List.append_assoc]
    exact hopened.append (.wrap hinner .nil)

end

/-! ### Steps that are under way -/

/-- The step whose end a task comes back to with a frame. -/
def Frame.step? : Frame → Option Step
  | .finish step => some step
  | .sequence _ => none

/-- The steps that some tasks are inside of, those of the last task first. -/
def working (tasks : List Task) : List Step :=
  (tasks.map fun task => task.frames.filterMap Frame.step?).reverse.flatten

variable {d : Definition} {invoker : Invoker} {calls : List Invocation} {run : Progress}
  {frames frames' : List Frame} {control control' : Control} {deeds before : List Deed}
  {steps : List Step} {tasks tasks' : List Task}

theorem working_append : working (tasks ++ tasks') = working tasks' ++ working tasks := by
  simp [working]

theorem working_of_nil (h : ∀ task ∈ tasks, task.frames = []) : working tasks = [] := by
  rw [working, List.flatten_eq_nil_iff]
  intro steps hsteps
  obtain ⟨task, hmem, rfl⟩ := List.mem_map.1 (List.mem_reverse.1 hsteps)
  rw [h task hmem]
  rfl

/-- The last task that is inside of anything changes. -/
theorem working_set {id : Nat} {task task' : Task} (hid : tasks[id]? = some task)
    (hlater : ∀ (j : Nat) (b : Task), id < j → tasks[j]? = some b → b.frames = []) :
    working (tasks.set id task') =
      task'.frames.filterMap Frame.step? ++ working (tasks.take id) := by
  have hnone : working (tasks.drop (id + 1)) = [] := by
    refine working_of_nil fun b hb => ?_
    obtain ⟨k, hk⟩ := List.mem_iff_getElem?.1 hb
    rw [List.getElem?_drop] at hk
    exact hlater _ b (by omega) hk
  have hcons : working (task' :: tasks.drop (id + 1)) =
      working (tasks.drop (id + 1)) ++ task'.frames.filterMap Frame.step? := by simp [working]
  rw [List.set_eq_take_append_cons_drop, if_pos (lt_of_getElem? hid), working_append, hcons, hnone,
    List.nil_append]

theorem working_told {news : Nat × Outcome} {parent : Nat} :
    working (tasks.modify parent (Task.told news)) = working tasks := by
  have hmap : (tasks.modify parent (Task.told news)).map
      (fun task => task.frames.filterMap Frame.step?) =
      (tasks.map fun task => task.frames.filterMap Frame.step?).modify parent id :=
    map_modify fun _ => rfl
  rw [working, hmap, List.modify_id, working]

/-- A task opens the steps that it goes into, and closes those that it comes back from. -/
theorem Advance.opened (h : Advance invoker calls run frames control deeds frames' control')
    (hopened : Opened before (frames.filterMap Frame.step? ++ steps)) :
    Opened (before ++ deeds.filter Deed.Marks) (frames'.filterMap Frame.step? ++ steps) := by
  cases h with
  | unnamed | sequence | missing | branchless | pass | call | choose =>
    simpa [Deed.Marks, Deed.Begins, Deed.Finishes, Frame.step?, List.filterMap_cons] using
      hopened.enter
  | next | finish =>
    simp only [List.filterMap_cons, Frame.step?, List.cons_append] at hopened
    exact hopened.finish
  | _ =>
    simpa [Deed.Marks, Deed.Begins, Deed.Finishes, Frame.step?, List.filterMap_cons] using hopened

theorem getElem?_snoc_cases {α : Type} {l : List α} {i j : Nat} {a b c : α} (hlt : i < j)
    (hi : (l ++ [c])[i]? = some a) (hj : (l ++ [c])[j]? = some b) :
    l[i]? = some a ∧ (l[j]? = some b ∨ b = c) := by
  have hlength := lt_of_getElem? hj
  rw [List.length_append, List.length_singleton] at hlength
  rw [List.getElem?_append_left (by omega)] at hi
  refine ⟨hi, ?_⟩
  rcases getElem?_append_cases hj with hj | ⟨-, hj⟩
  · exact Or.inl hj
  · exact Or.inr (List.mem_singleton.1 (List.mem_of_getElem? hj))

theorem getElem?_told_cases {news : Nat × Outcome} {parent j : Nat} {b : Task}
    (h : (tasks.modify parent (Task.told news))[j]? = some b) :
    ∃ old, tasks[j]? = some old ∧ b.parent = old.parent ∧
      (b.control = .stopped ↔ old.control = .stopped) ∧ (j ≠ parent → b = old) := by
  obtain ⟨old, hold, ⟨-, rfl⟩ | ⟨rfl, rfl⟩⟩ := getElem?_modify_cases h
  · exact ⟨_, hold, rfl, Iff.rfl, fun _ => rfl⟩
  · refine ⟨old, hold, rfl, ?_, fun hne => absurd rfl hne⟩
    obtain ⟨run, grand, frames, control⟩ := old
    cases control <;> simp [Task.told, Control.told]

theorem Advance.not_idle (h : Advance invoker calls run frames control deeds frames' control') :
    ¬ control.Idle := by
  cases h <;> simp [Control.Idle]

namespace Scene

/-! ### Tasks in line -/

/-- Whether only the last of the tasks that have not stopped has anything to do. -/
structure InLine (tasks : List Task) : Prop where
  /-- What comes before a task that has not stopped is idle. -/
  idle : ∀ (i j : Nat) (a b : Task), i < j → tasks[i]? = some a → tasks[j]? = some b →
    b.control ≠ .stopped → a.control.Idle
  /-- What comes between a branch that has not stopped and the task that waits for it has
  stopped. -/
  between : ∀ (p i j : Nat) (a b : Task), p < i → i < j → tasks[i]? = some a →
    tasks[j]? = some b → b.control ≠ .stopped → b.parent = some p → a.control = .stopped

variable {x : Scene} {m m' : Machine} {l : Ledger} {input : Store} {id i j : Nat}
  {task a b : Task}

/-- All tasks after one that has something to do have stopped. -/
theorem InLine.later (h : InLine tasks) (hid : tasks[id]? = some task) (hbusy : ¬ task.control.Idle)
    (hj : tasks[j]? = some b) (hlt : id < j) : b.control = .stopped := by
  by_contra hrunning
  exact hbusy (h.idle id j task b hlt hid hj hrunning)

/-- The task that has something to do changes, or stops. -/
theorem InLine.set (h : InLine tasks) (frames : List Frame) (control : Control)
    (hid : tasks[id]? = some task) (hbusy : ¬ task.control.Idle)
    (hrunning : task.control ≠ .stopped) :
    InLine (tasks.set id ⟨task.run, task.parent, frames, control⟩) := by
  constructor
  · intro i j a b hlt hi hj hb
    rcases getElem?_set_cases hj with ⟨rfl, rfl⟩ | ⟨-, hold⟩
    · rcases getElem?_set_cases hi with ⟨rfl, -⟩ | ⟨-, hi⟩
      · omega
      · exact h.idle i j a task hlt hi hid hrunning
    · rcases getElem?_set_cases hi with ⟨rfl, rfl⟩ | ⟨-, hi⟩
      · exact absurd (h.later hid hbusy hold hlt) hb
      · exact h.idle i j a b hlt hi hold hb
  · intro p i j a b hp hlt hi hj hb hparent
    rcases getElem?_set_cases hj with ⟨rfl, rfl⟩ | ⟨-, hold⟩
    · rcases getElem?_set_cases hi with ⟨rfl, -⟩ | ⟨-, hi⟩
      · omega
      · exact h.between p i j a task hp hlt hi hid hrunning hparent
    · rcases getElem?_set_cases hi with ⟨rfl, rfl⟩ | ⟨-, hi⟩
      · exact absurd (h.later hid hbusy hold hlt) hb
      · exact h.between p i j a b hp hlt hi hold hb hparent

/-- The task that has something to do starts a branch and waits for it. -/
theorem InLine.fork (h : InLine tasks) (hid : tasks[id]? = some task) (hbusy : ¬ task.control.Idle)
    (hrunning : task.control ≠ .stopped) {step t : Step} :
    InLine (tasks.set id ⟨task.run, task.parent, frames, .join step 1 []⟩ ++
      [⟨task.run, some id, [], .enter t⟩]) := by
  have hset := h.set frames (.join step 1 []) hid hbusy hrunning
  -- up to the task itself all wait, and after it all have stopped
  have hbefore : ∀ {i : Nat} {a : Task},
      (tasks.set id ⟨task.run, task.parent, frames, .join step 1 []⟩)[i]? = some a →
      (i ≤ id ∧ a.control.Idle) ∨ a.control = .stopped := by
    intro i a hi
    rcases getElem?_set_cases hi with ⟨rfl, rfl⟩ | ⟨hne, hi⟩
    · exact Or.inl ⟨Nat.le_refl _, rfl⟩
    · rcases Nat.lt_or_gt_of_ne hne with hlt | hlt
      · exact Or.inl ⟨Nat.le_of_lt hlt, h.idle i id a task hlt hi hid hrunning⟩
      · exact Or.inr (h.later hid hbusy hi hlt)
  constructor
  · intro i j a b hlt hi hj hb
    obtain ⟨hi, hj | rfl⟩ := getElem?_snoc_cases hlt hi hj
    · exact hset.idle i j a b hlt hi hj hb
    · rcases hbefore hi with ⟨-, hidle⟩ | hstopped
      · exact hidle
      · rw [hstopped]
        trivial
  · intro p i j a b hp hlt hi hj hb hparent
    obtain ⟨hi, hj | rfl⟩ := getElem?_snoc_cases hlt hi hj
    · exact hset.between p i j a b hp hlt hi hj hb hparent
    · cases hparent
      rcases hbefore hi with ⟨hle, -⟩ | hstopped
      · omega
      · exact hstopped

/-- A branch has stopped, and the task that waits for it is told. -/
theorem InLine.told (h : InLine tasks) {parent : Nat} {news : Nat × Outcome}
    (hlater : ∀ (j : Nat) (b : Task), parent < j → tasks[j]? = some b → b.control = .stopped) :
    InLine (tasks.modify parent (Task.told news)) := by
  constructor
  · intro i j a b hlt hi hj hb
    obtain ⟨a₀, hi, -, -, hsame⟩ := getElem?_told_cases hi
    obtain ⟨b₀, hj, -, hstopped, -⟩ := getElem?_told_cases hj
    rw [ne_eq, hstopped] at hb
    by_cases hip : i = parent
    · exact absurd (hlater j b₀ (hip ▸ hlt) hj) hb
    · rw [hsame hip]
      exact h.idle i j a₀ b₀ hlt hi hj hb
  · intro p i j a b hp hlt hi hj hb hparent
    obtain ⟨a₀, hi, -, hstopped, -⟩ := getElem?_told_cases hi
    obtain ⟨b₀, hj, hsame, hstopped', -⟩ := getElem?_told_cases hj
    rw [ne_eq, hstopped'] at hb
    exact hstopped.2 (h.between p i j a₀ b₀ hp hlt hi hj hb (hsame ▸ hparent))

/-- **Tasks stay in line in every turn.** -/
theorem InLine.turn (h : InLine m.tasks) (hnarrow : d.Narrow) (hplaced : Placed d ⟨m, l⟩)
    (hturn : Turn invoker m id deeds m') : InLine m'.tasks := by
  cases hturn with
  | idle => exact h
  | goes htask hrun hadv =>
    refine h.set _ _ htask hadv.not_idle fun hstopped => ?_
    have hrunning := hadv.running.1
    rw [hstopped] at hrunning
    cases hrunning
  | @forks task run step ids branches htask hrun hc hwork hall hne =>
    obtain ⟨-, trail, -, hcontrol⟩ := hplaced.exists_placed htask
    rw [hc] at hcontrol
    have hbranches : branches.length ≤ 1 := by
      have hids := hnarrow step (Definition.at?_mem hcontrol.1) ids hwork
      rwa [length_resolveAll hall]
    cases branches with
    | nil => exact absurd rfl hne
    | cons t rest =>
      obtain rfl : rest = [] := by simpa using hbranches
      exact h.fork htask (by rw [hc]; exact fun hidle => hidle) (by rw [hc]; nofun)
  | @ends task run outcome parent ready htask hrun hparent hframes hc hready hwoken =>
    have hbusy : ¬ task.control.Idle := by rw [hc]; exact fun hidle => hidle
    have hrunning : task.control ≠ .stopped := by rw [hc]; nofun
    refine (h.set _ _ htask hbusy hrunning).told fun j b hlt hj => ?_
    rcases getElem?_set_cases hj with ⟨rfl, rfl⟩ | ⟨hne, hj⟩
    · rfl
    · rcases Nat.lt_or_gt_of_ne hne with hbefore | hafter
      · exact h.between parent j id b task hlt hbefore hj htask hrunning hparent
      · exact h.later htask hbusy hj hafter
  | @returns task run outcome htask hrun hparent hframes hc =>
    exact h.set _ _ htask (by rw [hc]; exact fun hidle => hidle) (by rw [hc]; nofun)

/-! ### Nested events -/

theorem filter_marks_append (history : List Entry) (trail : Trail) (id : Nat) (deeds : List Deed) :
    ((history ++ trail.entries id deeds).map (·.deed)).filter Deed.Marks =
      (history.map (·.deed)).filter Deed.Marks ++ deeds.filter Deed.Marks := by
  rw [List.map_append, List.filter_append, Trail.map_deed_entries]

/-- A turn opens the steps that its task goes into, and closes those that it comes back from. -/
theorem InLine.opened (h : InLine m.tasks) (hplaced : Placed d ⟨m, l⟩)
    (hturn : Turn invoker m id deeds m') (hopened : Opened before (working m.tasks)) :
    Opened (before ++ deeds.filter Deed.Marks) (working m'.tasks) := by
  -- what comes after the task whose turn it is, is inside of nothing
  have hset : ∀ (task : Task), m.tasks[id]? = some task → ¬ task.control.Idle → ∀ task' : Task,
      working (m.tasks.set id task') =
        task'.frames.filterMap Frame.step? ++ working (m.tasks.take id) := by
    intro task htask hbusy task'
    refine working_set htask fun j b hlt hj => ?_
    exact hplaced.frames_of_stopped hj (h.later htask hbusy hj hlt)
  have hself : ∀ (task : Task), m.tasks[id]? = some task → ¬ task.control.Idle →
      working m.tasks = task.frames.filterMap Frame.step? ++ working (m.tasks.take id) := by
    intro task htask hbusy
    rw [← hset task htask hbusy, set_self htask]
  cases hturn with
  | idle => simpa [Machine.pause] using hopened
  | goes htask hrun hadv =>
    rw [hself _ htask hadv.not_idle] at hopened
    rw [hset _ htask hadv.not_idle]
    exact hadv.opened hopened
  | @forks task run step ids branches htask hrun hc hwork hall hne =>
    have hbusy : ¬ task.control.Idle := by rw [hc]; exact fun hidle => hidle
    have hkids : working (branches.map fun b => (⟨task.run, some id, [], .enter b⟩ : Task)) = [] :=
      working_of_nil fun kid hkid => by
        obtain ⟨b, -, rfl⟩ := List.mem_map.1 hkid
        rfl
    rw [hself _ htask hbusy] at hopened
    rw [working_append, hkids, hset _ htask hbusy]
    exact hopened.enter
  | @ends task run outcome parent ready htask hrun hparent hframes hc hready hwoken =>
    have hbusy : ¬ task.control.Idle := by rw [hc]; exact fun hidle => hidle
    rw [hself _ htask hbusy, hframes] at hopened
    rw [working_told, hset _ htask hbusy]
    simpa [hframes, Deed.Marks, Deed.Begins, Deed.Finishes] using hopened
  | @returns task run outcome htask hrun hparent hframes hc =>
    have hbusy : ¬ task.control.Idle := by rw [hc]; exact fun hidle => hidle
    rw [hself _ htask hbusy, hframes] at hopened
    rw [hset _ htask hbusy]
    simpa [hframes, Deed.Marks, Deed.Begins, Deed.Finishes] using hopened

/-- **Tasks are in line, and the steps that are under way are those that have been opened.** -/
theorem Reaches.opened (hnarrow : d.Narrow) (h : Reaches invoker (opening d input) x) :
    InLine x.machine.tasks ∧
      Opened ((x.ledger.history.map (·.deed)).filter Deed.Marks) (working x.machine.tasks) := by
  refine h.induct ?start ?turn ?same
  case start =>
    refine ⟨⟨fun i j a b hlt hi hj => ?_, fun p i j a b hp hlt hi hj hb hparent => ?_⟩, ?_⟩
    · obtain ⟨rfl, -⟩ := task_of_opening hi
      obtain ⟨rfl, -⟩ := task_of_opening hj
      omega
    · obtain ⟨rfl, -⟩ := task_of_opening hi
      omega
    · exact .closed .nil
  case turn =>
    intro m m' l id deeds hreach ih hturn
    obtain ⟨hline, hopened⟩ := ih
    obtain ⟨trail, -, hhistory⟩ := hreach.placed.history_record hturn
    dsimp only at hline hopened ⊢
    rw [hhistory, filter_marks_append]
    exact ⟨hline.turn hnarrow hreach.placed hturn, hline.opened hreach.placed hturn hopened⟩
  case same =>
    intro m m' l htasks hruns hcalls ih
    dsimp only at ih ⊢
    rwa [htasks]

/-- **Steps begin and end like brackets** in a run whose tasks have all stopped. -/
theorem Reaches.nested_of_still (hnarrow : d.Narrow) (h : Reaches invoker (opening d input) x)
    (hstill : x.Still) : Nested ((x.ledger.history.map (·.deed)).filter Deed.Marks) := by
  have hnone : working x.machine.tasks = [] := by
    refine working_of_nil fun task hmem => ?_
    obtain ⟨j, hj⟩ := List.mem_iff_getElem?.1 hmem
    exact h.placed.frames_of_stopped hj (hstill task hmem)
  have hopened := (h.opened hnarrow).2
  rw [hnone] at hopened
  exact hopened.nested

end Scene

end Run

end Flowgraph

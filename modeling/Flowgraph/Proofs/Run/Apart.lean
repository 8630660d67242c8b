import Flowgraph.Proofs.Run.Branches
import Flowgraph.Proofs.Run.Residual

/-!
# Tasks that keep out of each other's way

Of two tasks, the later one may be under the other, as a branch of it or of one of its branches.
Then the earlier one waits for it, or has given up. **All other pairs of tasks keep to
variables of their own**, if the branches of every step do (`Reaches.apart`): two tasks that are
not under each other come from different branches of the same step, and tasks lead to nothing that
the branches they come from do not lead to.
-/

set_option autoImplicit false

namespace Flowgraph.Run

open Machine (follow resolveAll)

variable {d : Definition} {invoker : Invoker} {input : Store} {x : Scene} {m m' : Machine}
  {l : Ledger} {id i j p : Nat} {deeds : List Deed} {tasks tasks' : List Task}
  {task a b a' b' : Task}

/-- **While a task acts, all tasks under it have succeeded.** -/
theorem Scene.Orderly.done_of_under (h : x.Orderly) (htask : x.machine.tasks[p]? = some task)
    (hacts : task.control.Acts) (hunder : Under x.machine.tasks p j) :
    outcomeOf x.ledger.history j = some .done := by
  refine h.under_done (fun i child hi hparent => ?_) hunder
  have hacc := h.kids p i task child htask hi hparent
  revert hacc
  cases hc : task.control with
  | enter step => exact fun hdone => hdone
  | receive step c ending => exact fun hdone => hdone
  | _ =>
    rw [hc] at hacts
    exact hacts.elim

/-! ### Tasks with their own variables -/

/-- Whether two tasks have only variables in common that both read. -/
structure Task.Clear (d : Definition) (a b : Task) : Prop where
  left : ∀ key ∈ a.writes d, key ∉ b.writes d ∧ key ∉ b.reads d
  right : ∀ key ∈ b.writes d, key ∉ a.writes d ∧ key ∉ a.reads d

theorem Task.Clear.symm (h : a.Clear d b) : b.Clear d a := ⟨h.right, h.left⟩

/-- Whether a task has nothing before it but what another one leads to. -/
def Task.Follows (d : Definition) (a b : Task) : Prop :=
  ∀ t ∈ a.upcoming d, ∃ s ∈ b.upcoming d, d.Leads s t

theorem Task.Follows.refl : a.Follows d a := fun t ht => ⟨t, ht, .refl⟩

theorem Task.Follows.writes_subset (h : a.Follows d b) : a.writes d ⊆ b.writes d := by
  rintro key ⟨t, ht, hkey⟩
  obtain ⟨s, hs, hleads⟩ := h t ht
  exact ⟨s, hs, hleads.writes_subset hkey⟩

theorem Task.Follows.reads_subset (h : a.Follows d b) : a.reads d ⊆ b.reads d := by
  rintro key ⟨t, ht, hkey⟩
  obtain ⟨s, hs, hleads⟩ := h t ht
  exact ⟨s, hs, hleads.reads_subset hkey⟩

theorem Task.Clear.mono (h : a.Clear d b) (ha : a'.Follows d a) (hb : b'.Follows d b) :
    a'.Clear d b' where
  left key hkey := (h.left key (ha.writes_subset hkey)).imp
    (fun hnot hmem => hnot (hb.writes_subset hmem)) (fun hnot hmem => hnot (hb.reads_subset hmem))
  right key hkey := (h.right key (hb.writes_subset hkey)).imp
    (fun hnot hmem => hnot (ha.writes_subset hmem)) (fun hnot hmem => hnot (ha.reads_subset hmem))

/-- A task that has nothing before it is in nobody's way. -/
theorem Task.clear_of_upcoming (h : a.upcoming d = []) : a.Clear d b where
  left key := by
    rintro ⟨t, ht, -⟩
    rw [h] at ht
    cases ht
  right key _ := by
    constructor <;>
    · rintro ⟨t, ht, -⟩
      rw [h] at ht
      cases ht

theorem upcoming_told {news : Nat × Outcome} : (task.told news).upcoming d = task.upcoming d := by
  obtain ⟨run, parent, frames, control⟩ := task
  cases control <;> rfl

/-- **A turn makes no task lead to anything new**, and leaves its parent as it is. -/
theorem Turn.follows (hturn : Turn invoker m id deeds m') (hplaced : Scene.Placed d ⟨m, l⟩)
    (htask : m'.tasks[i]? = some task) (hlt : i < m.tasks.length) :
    ∃ old, m.tasks[i]? = some old ∧ task.parent = old.parent ∧ task.Follows d old := by
  by_cases hi : i = id
  · subst hi
    cases hturn.own htask with
    | idle hold => exact ⟨_, hold, rfl, .refl⟩
    | goes hold hrun hadv =>
      exact ⟨_, hold, rfl, hadv.upcoming (hplaced.definition_of_getElem? hrun).2⟩
    | @forks old run step ids branches hold hrun hc =>
      refine ⟨_, hold, rfl, fun t ht => ?_⟩
      simp only [Task.upcoming, Control.upcoming, List.nil_append, List.flatMap_cons,
        List.mem_append] at ht
      rcases ht with ht | ht
      · refine ⟨step, ?_, .single (mem_upcoming_finish ht)⟩
        simp [Task.upcoming, hc, Control.upcoming]
      · exact ⟨t, List.mem_append_right _ ht, .refl⟩
    | stops hold hframes hc =>
      refine ⟨_, hold, rfl, fun t ht => ?_⟩
      simp [Task.upcoming, Control.upcoming, hframes] at ht
  · cases hturn.fate hi htask with
    | kept hold => exact ⟨_, hold, rfl, .refl⟩
    | @told old child outcome hold =>
      refine ⟨_, hold, rfl, fun t ht => ?_⟩
      rw [upcoming_told] at ht
      exact ⟨t, ht, .refl⟩
    | born _ _ _ _ hjb => omega

/-- Whether any two tasks are under each other or keep to variables of their own. -/
def Scene.Apart (d : Definition) (x : Scene) : Prop :=
  ∀ (i j : Nat) (a b : Task), i < j → x.machine.tasks[i]? = some a →
    x.machine.tasks[j]? = some b → Under x.machine.tasks i j ∨ a.Clear d b

/-- A task that is new is the branch of a step that the task whose turn it was has entered. -/
theorem Turn.new_task (hturn : Turn invoker m id deeds m') (hplaced : Scene.Placed d ⟨m, l⟩)
    (htask : m'.tasks[j]? = some task) (hle : m.tasks.length ≤ j) :
    ∃ (parent : Task) (step : Step) (ids : List String) (n : Nat) (t : Step),
      m.tasks[id]? = some parent ∧ parent.control = .enter step ∧ step ∈ d.steps ∧
        step.work = .parallel ids ∧ ids[n]?.bind d.find? = some t ∧ j = m.tasks.length + n ∧
          task = ⟨parent.run, some id, [], .enter t⟩ := by
  have hlength : m'.tasks.length ≠ m.tasks.length := by
    have := lt_of_getElem? htask
    omega
  cases hturn with
  | @forks parent run step ids branches hparent hrun hc hwork hall =>
    rw [(hplaced.definition_of_getElem? hrun).2] at hall
    obtain ⟨-, trail, -, hcontrol⟩ := hplaced.exists_placed hparent
    rw [hc] at hcontrol
    rcases getElem?_append_cases htask with hold | ⟨-, hnew⟩
    · have := lt_of_getElem? hold
      rw [List.length_set] at this
      omega
    · rw [List.length_set, List.getElem?_map] at hnew
      obtain ⟨t, ht, rfl⟩ := Option.map_eq_some_iff.1 hnew
      obtain ⟨target, htarget, hfind⟩ := resolveAll_getElem? hall ht
      refine ⟨parent, step, ids, j - m.tasks.length, t, hparent, hc, Definition.at?_mem hcontrol.1,
        hwork, ?_, by omega, rfl⟩
      rw [htarget, Option.bind_some, hfind]
  | _ => simp [Machine.pause] at hlength

/-- A new task leads to nothing that its parent did not lead to. -/
theorem follows_of_branch {parent : Task} {step t : Step} {ids : List String} {n : Nat}
    (hc : parent.control = .enter step) (hwork : step.work = .parallel ids)
    (ht : ids[n]?.bind d.find? = some t) :
    Task.Follows d ⟨parent.run, some id, [], .enter t⟩ parent := by
  intro u hu
  obtain rfl : u = t := by simpa [Task.upcoming, Control.upcoming] using hu
  obtain ⟨target, hn, hfind⟩ := Option.bind_eq_some_iff.1 ht
  have hreference := Step.exists_reference_branches hwork (List.mem_of_getElem? hn)
  refine ⟨step, ?_, .single (Definition.refers_of_find? hreference hfind)⟩
  simp [Task.upcoming, hc, Control.upcoming]

/-- Branches of one step are clear of each other. -/
theorem clear_of_branches (hseparate : d.Separate) {parent : Task} {step s t : Step}
    {ids : List String} {n k : Nat} (hstep : step ∈ d.steps) (hwork : step.work = .parallel ids)
    (hne : n ≠ k) (hs : ids[n]?.bind d.find? = some s) (ht : ids[k]?.bind d.find? = some t) :
    Task.Clear d ⟨parent.run, some id, [], .enter s⟩ ⟨parent.run, some id, [], .enter t⟩ := by
  have hwrites : ∀ u : Step,
      Task.writes d ⟨parent.run, some id, [], .enter u⟩ = d.writes u := by
    intro u
    ext key
    simp [Task.writes, Task.upcoming, Control.upcoming]
  have hreads : ∀ u : Step, Task.reads d ⟨parent.run, some id, [], .enter u⟩ = d.reads u := by
    intro u
    ext key
    simp [Task.reads, Task.upcoming, Control.upcoming]
  constructor
  · rw [hwrites, hwrites, hreads]
    exact hseparate step hstep ids hwork n k s t hne hs ht
  · rw [hwrites, hwrites, hreads]
    exact hseparate step hstep ids hwork k n t s (Ne.symm hne) ht hs

namespace Scene

/-- Two tasks that were there before a turn. -/
theorem Apart.old (h : Apart d ⟨m, l⟩) (hplaced : Placed d ⟨m, l⟩)
    (hturn : Turn invoker m id deeds m') (hij : i < j) (hj : j < m.tasks.length)
    (ha : m'.tasks[i]? = some a) (hb : m'.tasks[j]? = some b) :
    Under m'.tasks i j ∨ a.Clear d b := by
  obtain ⟨a₀, ha₀, -, hfollows⟩ := hturn.follows hplaced ha (by omega)
  obtain ⟨b₀, hb₀, -, hfollows'⟩ := hturn.follows hplaced hb hj
  exact (h i j a₀ b₀ hij ha₀ hb₀).imp (·.mono (hturn.parents)) (·.mono hfollows hfollows')

/-- A branch that has just been started, and any task before it. -/
theorem Apart.new (h : Apart d ⟨m, l⟩) (hplaced : Placed d ⟨m, l⟩) (horderly : Orderly ⟨m, l⟩)
    (hseparate : d.Separate) (hturn : Turn invoker m id deeds m') (hij : i < j)
    (hj : m.tasks.length ≤ j) (ha : m'.tasks[i]? = some a) (hb : m'.tasks[j]? = some b) :
    Under m'.tasks i j ∨ a.Clear d b := by
  obtain ⟨parent, step, ids, n, t, hparent, hc, hstep, hwork, ht, rfl, rfl⟩ :=
    hturn.new_task hplaced hb hj
  have hbranch : Task.Follows d ⟨parent.run, some id, [], .enter t⟩ parent :=
    follows_of_branch hc hwork ht
  by_cases hi : i < m.tasks.length
  · obtain ⟨a₀, ha₀, -, hfollows⟩ := hturn.follows hplaced ha hi
    rcases Nat.lt_trichotomy i id with hlt | rfl | hgt
    · -- a task that the parent is under, or clear of
      rcases h i id a₀ parent hlt ha₀ hparent with hunder | hclear
      · exact Or.inl (.deeper (hunder.mono (hturn.parents)) hb rfl)
      · exact Or.inr (hclear.mono hfollows hbranch)
    · exact Or.inl (.kid hb rfl)
    · -- a task that is over already if it is under the parent
      rcases h id i parent a₀ hgt hparent ha₀ with hunder | hclear
      · have hdone := horderly.done_of_under hparent (by rw [hc]; trivial) hunder
        have hcontrol := horderly.stopped_of_outcomeOf ha₀ hdone
        have hframes := hplaced.frames_of_stopped ha₀ hcontrol
        have hnothing : a₀.upcoming d = [] := by
          simp [Task.upcoming, hcontrol, hframes, Control.upcoming]
        exact Or.inr ((Task.clear_of_upcoming hnothing).mono hfollows .refl)
      · exact Or.inr (hclear.symm.mono hfollows hbranch)
  · -- another branch of the same step
    obtain ⟨parent', step', ids', k, s, hparent', hc', -, hwork', hs, rfl, rfl⟩ :=
      hturn.new_task hplaced ha (by omega)
    rw [hparent] at hparent'
    cases hparent'
    rw [hc] at hc'
    cases hc'
    rw [hwork] at hwork'
    cases hwork'
    exact Or.inr (clear_of_branches hseparate hstep hwork (by omega) hs ht)

/-- **Tasks keep out of each other's way** in scenes that are reached. -/
theorem Reaches.apart (hseparate : d.Separate) (h : Reaches invoker (opening d input) x) :
    x.Apart d := by
  refine h.induct ?start ?turn ?same
  case start =>
    intro i j a b hij ha hb
    obtain ⟨rfl, -⟩ := task_of_opening ha
    obtain ⟨rfl, -⟩ := task_of_opening hb
    omega
  case turn =>
    intro m m' l id deeds hreach hapart hturn i j a b hij ha hb
    by_cases hj : j < m.tasks.length
    · exact hapart.old hreach.placed hturn hij hj ha hb
    · exact hapart.new hreach.placed hreach.orderly hseparate hturn hij (by omega) ha hb
  case same =>
    intro m m' l htasks _ _ hapart
    unfold Apart at hapart ⊢
    dsimp only at hapart ⊢
    rwa [htasks]

end Scene

end Flowgraph.Run

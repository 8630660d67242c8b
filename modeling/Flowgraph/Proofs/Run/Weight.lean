import Flowgraph.Proofs.Run.Placement
import Mathlib.Algebra.GroupWithZero.Nat
import Mathlib.Algebra.Order.BigOperators.Group.List
import Mathlib.Algebra.Order.Group.Nat

/-!
# How much work is left

In a sound definition the references lead forward, so the steps can be given weights by which a
step outweighs everything that it refers to (`Definition.Weighed`, `Sound.exists_weight`). From
these the tasks get theirs: a task weighs as much as what it does next and what it comes back to.

**Every small step makes the machine lighter** (`Turn.weight_lt`): what a task turns to is paid
for by the step that it comes from, and the branches that it starts are as well. Waiting does not
make it heavier. So there is a bound on the small steps of a run, for whatever schedule
(`Scene.Takes.weight_le`).
-/

set_option autoImplicit false

namespace Flowgraph

open Run Run.Machine

/-! ### The weights of steps -/

namespace Definition

variable {d : Definition} {w : Step → Nat} {s : Step}

/-- What it takes to follow a reference, if steps weigh so much. -/
def toll (d : Definition) (w : Step → Nat) (target : String) : Nat :=
  3 + ((d.find? target).map w).getD 0

/-- Whether every step outweighs what it refers to. -/
def Weighed (d : Definition) (w : Step → Nat) : Prop :=
  ∀ s ∈ d.steps, 8 + (s.references.map fun r => d.toll w r.target).sum ≤ w s

/-- What a step takes with everything that it refers to, down to some depth. -/
def cost (d : Definition) : Nat → Step → Nat
  | 0, _ => 0
  | depth + 1, s => 8 + (s.references.map fun r => d.toll (d.cost depth) r.target).sum

theorem toll_congr {w' : Step → Nat} {target : String}
    (h : ∀ s ∈ d.steps, s.id = target → w s = w' s) :
    d.toll w target = d.toll w' target := by
  unfold toll
  cases hfind : d.find? target with
  | none => rfl
  | some t =>
    have ht := h t (find?_mem hfind) (find?_id hfind)
    simp [ht]

/-- Looking deeper than the row of the ids is long changes nothing. -/
theorem cost_succ {row : List String}
    (hrow : ∀ s ∈ d.steps, ∀ r ∈ s.references, row.idxOf s.id < row.idxOf r.target)
    {depth : Nat} (hs : s ∈ d.steps) (hdepth : row.length < depth + row.idxOf s.id) :
    d.cost (depth + 1) s = d.cost depth s := by
  -- a step that is looked at to a depth has at most as many ids after it in the row
  induction depth generalizing s with
  | zero =>
    have hle : row.idxOf s.id ≤ row.length := List.idxOf_le_length
    omega
  | succ depth ih =>
    rw [cost, cost]
    congr 2
    apply List.map_congr_left
    intro r hr
    apply toll_congr
    intro t ht hid
    apply ih ht
    have hlt := hrow s hs r hr
    rw [hid]
    omega

theorem Sound.exists_weight (h : d.Sound) : ∃ w, d.Weighed w := by
  obtain ⟨row, hrow⟩ := h.exists_row
  -- every reference leads forward in the row, so this depth is enough for all steps
  refine ⟨d.cost (row.length + 1), fun s hs => Nat.le_of_eq ?_⟩
  exact cost_succ hrow hs (by omega)

end Definition

namespace Run

/-! ### The weights of tasks -/

variable {d : Definition} {w : Step → Nat} {target : String} {step : Step}

/-- The weight of a frame: of what comes next in it. -/
def Frame.weight (d : Definition) (w : Step → Nat) : Frame → Nat
  | .finish step => 2 + (step.next.toList.map (d.toll w)).sum
  | .sequence rest => 2 + (rest.map (d.toll w)).sum

/-- The weight of what a task does next. -/
def Control.weight (d : Definition) (w : Step → Nat) : Control → Nat
  | .start => d.toll w d.root
  | .enter step => w step
  | .leave _ => 1
  | .receive .. => 3
  | .join _ missing _ => 3 + 2 * missing
  | .stopped => 0

/-- The weight of a task. -/
def Task.weight (d : Definition) (w : Step → Nat) (task : Task) : Nat :=
  (task.frames.map (Frame.weight d w)).sum + task.control.weight d w

/-- The weight of a machine. A timer weighs as much as two places in the line, so that letting time
pass makes the machine lighter when a task is due. -/
def Machine.weight (d : Definition) (w : Step → Nat) (m : Machine) : Nat :=
  (m.tasks.map (Task.weight d w)).sum + m.ready.length + 2 * m.timers.length

@[simp] theorem Control.weight_start : Control.start.weight d w = d.toll w d.root := rfl

@[simp] theorem Control.weight_enter : (Control.enter step).weight d w = w step := rfl

@[simp] theorem Control.weight_leave {outcome : Outcome} :
    (Control.leave outcome).weight d w = 1 := rfl

@[simp] theorem Control.weight_receive {c : Call} {ending : Ending} :
    (Control.receive step c ending).weight d w = 3 := rfl

@[simp] theorem Control.weight_join {missing : Nat} {ended : List (Nat × Outcome)} :
    (Control.join step missing ended).weight d w = 3 + 2 * missing := rfl

@[simp] theorem Control.weight_stopped : Control.stopped.weight d w = 0 := rfl

theorem weight_follow (d : Definition) (w : Step → Nat) (target : String) :
    (follow d target).weight d w + 2 ≤ d.toll w target := by
  unfold follow Definition.toll
  cases d.find? target with
  | none => exact Nat.le_refl 3
  | some step =>
    simp only [Control.weight, Option.map_some, Option.getD_some]
    omega

/-- The weight of a step pays for its work and for its frame. -/
theorem weight_finish_le (h : d.Weighed w) (hs : step ∈ d.steps) :
    6 + (step.work.references.map fun r => d.toll w r.target).sum +
      (Frame.finish step).weight d w ≤ w step := by
  have hle := h step hs
  have hnext : (step.next.map (⟨.next, ·⟩ : String → Reference)).toList.map
      (fun r => d.toll w r.target) = step.next.toList.map (d.toll w) := by
    cases step.next <;> rfl
  rw [Step.references, List.map_append, List.sum_append, hnext] at hle
  show 6 + _ + (2 + (step.next.toList.map (d.toll w)).sum) ≤ _
  omega

/-- Where a condition leads is one of the places that its references lead to. -/
theorem le_sum_choice {choice : Choice} (f : String → Nat) (hwork : step.work = .condition choice)
    {holds : Bool} (hto : (if holds then choice.onSuccess else choice.onFailure) = some target) :
    f target ≤ (step.work.references.map fun r => f r.target).sum := by
  obtain ⟨r, hr, rfl⟩ := Step.exists_reference_choice_work hwork hto
  exact List.le_sum_of_mem (List.mem_map.2 ⟨r, hr, rfl⟩)

/-- The branches of a step weigh what the references to them take. -/
theorem sum_branches {ids : List String} {branches : List Step}
    (h : resolveAll d ids = .ok branches) :
    (ids.map (d.toll w)).sum = 3 * branches.length + (branches.map w).sum := by
  have htolls : ids.map (d.toll w) = branches.map (3 + w ·) := by
    have hmap := congrArg (List.map fun t => 3 + (Option.map w t).getD 0) (resolveAll_map h)
    rw [List.map_map, List.map_map] at hmap
    exact hmap
  rw [htolls, List.sum_map_add, List.map_const', List.sum_replicate]
  exact congrArg (· + (branches.map w).sum) (Nat.mul_comm ..)

/-- **A task that goes on by itself gets lighter.** -/
theorem Advance.weight_le {invoker : Invoker} {calls : List Invocation} {run : Progress}
    {frames frames' : List Frame} {control control' : Control} {deeds : List Deed} {trail : Trail}
    (h : Advance invoker calls run frames control deeds frames' control')
    (hweight : d.Weighed w) (hd : run.definition = d)
    (hplaced : control.Placed d trail frames) :
    (frames'.map (Frame.weight d w)).sum + control'.weight d w + 2 ≤
      (frames.map (Frame.weight d w)).sum + control.weight d w := by
  subst hd
  have hstep : ∀ step, control = .enter step → 6 +
      (step.work.references.map fun r => run.definition.toll w r.target).sum +
        (Frame.finish step).weight run.definition w ≤ w step := by
    rintro step rfl
    exact weight_finish_le hweight (Definition.at?_mem hplaced.1)
  cases h with
  | begin hroot =>
    have hroot : run.definition.find? run.definition.root = some _ := hroot
    simp only [Control.weight_start, Control.weight_enter, Definition.toll, hroot,
      Option.map_some, Option.getD_some]
    omega
  | lost =>
    simp only [Control.weight_start, Control.weight_leave, Definition.toll]
    omega
  | unnamed | missing | branchless | pass | call =>
    have hle := hstep _ rfl
    simp only [List.map_cons, List.sum_cons, Control.weight_enter, Control.weight_leave,
      Control.weight_receive]
    omega
  | sequence hwork =>
    have hle := hstep _ rfl
    have hsame : (fun r : Reference => run.definition.toll w r.target) ∘
        (⟨.steps, ·⟩ : String → Reference) = run.definition.toll w := rfl
    rw [hwork, Work.references, List.map_map, hsame] at hle
    simp only [List.map_cons, List.sum_cons, Control.weight_enter, Control.weight_leave,
      Frame.weight] at hle ⊢
    omega
  | @choose _ _ _ target _ hwork hto =>
    have hle := hstep _ rfl
    have htoll := le_sum_choice (run.definition.toll w) hwork hto
    have hfollow := weight_follow run.definition w target
    simp only [List.map_cons, List.sum_cons, Control.weight_enter]
    omega
  | @next _ _ target hnext =>
    have hfollow := weight_follow run.definition w target
    simp only [List.map_cons, List.sum_cons, Frame.weight, hnext, Control.weight_leave,
      Option.toList_some, List.map_nil, List.sum_nil]
    omega
  | finish | closed =>
    simp only [List.map_cons, List.sum_cons, Frame.weight, Control.weight_leave]
    omega
  | @child _ target =>
    have hfollow := weight_follow run.definition w target
    simp only [List.map_cons, List.sum_cons, Frame.weight, Control.weight_leave]
    omega
  | answer | panic | joined | broken | take =>
    simp only [Control.weight_receive, Control.weight_join, Control.weight_leave]
    omega

/-! ### The weights of machines -/

theorem sum_map_set {α : Type} {l : List α} {i : Nat} {a : α} (f : α → Nat) (b : α)
    (h : l[i]? = some a) : ((l.set i b).map f).sum + f a = (l.map f).sum + f b := by
  induction l generalizing i with
  | nil => cases h
  | cons c l ih =>
    cases i with
    | zero =>
      obtain rfl : c = a := Option.some.inj h
      simp only [List.set_cons_zero, List.map_cons, List.sum_cons]
      omega
    | succ i =>
      have hrest := ih h
      simp only [List.set_cons_succ, List.map_cons, List.sum_cons]
      omega

/-- What a task learns about a branch weighs nothing. -/
theorem weight_told {news : Nat × Outcome} {task : Task} :
    (task.told news).weight d w = task.weight d w := by
  obtain ⟨run, parent, frames, control⟩ := task
  cases control <;> rfl

/-- A change that the summands do not see. -/
theorem sum_map_modify {α : Type} {l : List α} {i : Nat} {f : α → Nat} {g : α → α}
    (h : ∀ a, f (g a) = f a) : ((l.modify i g).map f).sum = (l.map f).sum := by
  have hmap : (l.modify i g).map f = (l.map f).modify i id := map_modify h
  rw [hmap, List.modify_id]

/-- New branches weigh as much as their steps. -/
theorem sum_kids {run id : Nat} {branches : List Step} :
    ((branches.map fun b => (⟨run, some id, [], .enter b⟩ : Task)).map (Task.weight d w)).sum =
      (branches.map w).sum := by
  rw [List.map_map]
  congr 2
  funext b
  exact Nat.zero_add _

variable {invoker : Invoker} {input : Store} {x y : Scene} {m m' : Machine} {l : Ledger}
  {id : Nat} {deeds : List Deed}

/-- **Every turn makes the machine lighter.** -/
theorem Turn.weight_lt (hturn : Turn invoker m id deeds m') (hweight : d.Weighed w)
    (hplaced : Scene.Placed d ⟨m, l⟩) {rest : List Nat} (hready : m.ready = id :: rest) :
    m'.weight d w < m.weight d w := by
  -- what a turn does to the sum of the tasks, if one task changes
  have hset : ∀ (task : Task) (new : Task), m.tasks[id]? = some task →
      ((m.tasks.set id new).map (Task.weight d w)).sum + task.weight d w =
        (m.tasks.map (Task.weight d w)).sum + new.weight d w := fun task new htask =>
    sum_map_set _ new htask
  cases hturn with
  | idle =>
    simp only [Machine.weight, Machine.pause, hready, List.tail_cons, List.length_cons]
    omega
  | @goes task run deeds frames control ready timers htask hrun hadv hline =>
    obtain ⟨-, trail, -, hcontrol⟩ := hplaced.exists_placed htask
    have hle := hadv.weight_le hweight (hplaced.definition_of_getElem? hrun).2 hcontrol
    have hsum := hset task ⟨task.run, task.parent, frames, control⟩ htask
    -- a task that waits for an activity gives its place in the line for a timer
    have hlength : ready.length + 2 * timers.length ≤
        m.ready.length + 2 * m.timers.length + 1 := by
      rcases hline with ⟨rfl, rfl⟩ | ⟨_, _, _, time, -, rfl, rfl⟩
      · omega
      · simp only [hready, List.tail_cons, List.length_cons, List.length_append, List.length_nil]
        omega
    simp only [Machine.weight, Task.weight] at hsum hle ⊢
    omega
  | @forks task run step ids branches htask hrun hc hwork hall =>
    obtain ⟨-, trail, -, hcontrol⟩ := hplaced.exists_placed htask
    obtain ⟨-, hd⟩ := hplaced.definition_of_getElem? hrun
    rw [hc] at hcontrol
    rw [hd] at hall
    have hle := weight_finish_le hweight (Definition.at?_mem hcontrol.1)
    have hids : step.work.references.map (fun r => d.toll w r.target) = ids.map (d.toll w) := by
      rw [hwork, Work.references, List.map_map]
      rfl
    rw [hids, sum_branches hall] at hle
    -- the toll of a branch pays for its step and for its place in the line
    have hsum := hset task
      ⟨task.run, task.parent, .finish step :: task.frames, .join step branches.length []⟩ htask
    simp only [Machine.weight, List.map_append, List.sum_append, sum_kids, hready, List.tail_cons,
      List.length_append, List.length_cons, List.length_nil, List.length_range']
    simp only [Task.weight, hc, List.map_cons, List.sum_cons, Control.weight_join,
      Control.weight_enter] at hsum
    omega
  | @ends task run outcome parent ready htask hrun hparent hframes hc hline =>
    have hsum := hset task { task with control := .stopped } htask
    have hlength : ready.length ≤ m.ready.length := by
      rcases hline with rfl | rfl
      · simp
      · simp [hready]
    simp only [Machine.weight, sum_map_modify fun _ => weight_told]
    simp only [Task.weight, hc, Control.weight_stopped, Control.weight_leave] at hsum
    omega
  | @returns task run outcome htask hrun hparent hframes hc =>
    have hsum := hset task { task with control := .stopped } htask
    simp only [Machine.weight, hready, List.tail_cons, List.length_cons]
    simp only [Task.weight, hc, Control.weight_stopped, Control.weight_leave] at hsum
    omega

/-- A task that is due loses weight when the time comes. -/
theorem weight_passTo (time : Nat) :
    (m.passTo time).weight d w + (m.timers.filter (·.1 ≤ time)).length = m.weight d w := by
  have hsplit : (m.timers.filter (·.1 ≤ time)).length + (m.timers.filter (time < ·.1)).length =
      m.timers.length := by
    rw [List.length_eq_length_filter_add (l := m.timers) (·.1 ≤ time)]
    congr 2
    apply List.filter_congr
    intro timer _
    rw [← decide_not, decide_eq_decide]
    exact Nat.not_le.symm
  simp only [Machine.weight, Machine.passTo, List.length_append, List.length_map]
  omega

/-! ### Runs take a bounded number of steps -/

namespace Scene

/-- **A small step makes the machine lighter**, in every scene that is reached. -/
theorem Reaches.weight_step (h : Reaches invoker (opening d input) ⟨m, l⟩) (hweight : d.Weighed w)
    (hstep : m.step invoker = some m') : m'.weight d w < m.weight d w := by
  obtain ⟨rest, hready, hturn⟩ := step_turn hstep
  exact hturn.weight_lt hweight h.placed hready

/-- Moves from scene to scene with a number of small steps among them. -/
inductive Takes (invoker : Invoker) (x : Scene) : Nat → Scene → Prop
  | none : Takes invoker x 0 x
  | work {n : Nat} {m m' : Machine} {l : Ledger} : Takes invoker x n ⟨m, l⟩ →
      m.step invoker = some m' →
      Takes invoker x (n + 1) ⟨m', l.record (m.deeds invoker).1 (m.deeds invoker).2⟩
  | wait {n : Nat} {m : Machine} {l : Ledger} (time : Nat) : Takes invoker x n ⟨m, l⟩ →
      Takes invoker x n ⟨m.passTo time, l⟩
  | reorder {n : Nat} {m : Machine} {l : Ledger} {ready : List Nat} :
      Takes invoker x n ⟨m, l⟩ → ready.Perm m.ready →
      Takes invoker x n ⟨{ m with ready := ready }, l⟩

theorem Takes.reaches {n : Nat} (h : Takes invoker x n y) : Reaches invoker x y := by
  induction h with
  | none => exact .refl
  | work _ hstep ih => exact ih.trans (Moves.work hstep).reaches
  | wait time _ ih => exact ih.trans (Moves.wait time).reaches
  | reorder _ hperm ih => exact ih.trans (Moves.reorder hperm).reaches

/-- **A run takes no more small steps than its beginning weighs.** -/
theorem Takes.weight_le {n : Nat} (h : Takes invoker (opening d input) n y)
    (hweight : d.Weighed w) :
    n + y.machine.weight d w ≤ (opening d input).machine.weight d w := by
  induction h with
  | none => exact Nat.le_of_eq (Nat.zero_add _)
  | work hbefore hstep ih =>
    have hlt := hbefore.reaches.weight_step hweight hstep
    dsimp only at ih ⊢
    omega
  | @wait n m l time _ ih =>
    have heq := weight_passTo (d := d) (w := w) (m := m) time
    dsimp only at ih ⊢
    omega
  | reorder _ hperm ih =>
    have hlength := hperm.length_eq
    simp only [Machine.weight] at ih ⊢
    omega

end Scene

end Run

end Flowgraph

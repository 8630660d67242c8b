import Flowgraph.Proofs.Run.Numbering

/-!
# A run on a machine of its own

The tasks of one run, with their place in the line and their timers, can be looked at as if the
machine had no other runs. A machine `m₀` of one run `Mirrors` the run `r` of a machine `m` if it
is just that: its tasks are those of the run, numbered in the same order, its line and its timers
are those of `m` without the tasks of other runs, and its clock began when the run was launched.

**What a task of the run does is done by the mirrored machine as well** (`Working.act`), part for
part: the parts of a small step are gone through one by one, as the machine has them. The invoker
must not look at the calls before (`Invoker.Memoryless`), for there are those of other runs among
them.
-/

set_option autoImplicit false

namespace Flowgraph.Run

open Machine (follow resolveAll)

variable {invoker : Invoker} {m m' m₀ : Machine} {r id start : Nat} {task task₀ : Task}

/-- Controls that only differ in the numbers of branches: either both wait for branches, or they are
the same. -/
theorem Control.plain_cases {control control₀ : Control} (h : control₀.plain = control.plain) :
    (∃ step missing ended₀ ended, control₀ = .join step missing ended₀ ∧
        control = .join step missing ended ∧ ended₀.map unnumbered = ended.map unnumbered) ∨
      (control₀ = control ∧ ∀ step missing ended, control ≠ .join step missing ended) := by
  by_cases hjoin : ∃ step missing ended, control = .join step missing ended
  · obtain ⟨step, missing, ended, rfl⟩ := hjoin
    cases control₀ with
    | join step₀ missing₀ ended₀ =>
      obtain ⟨rfl, rfl, hended⟩ := Control.join.inj h
      exact Or.inl ⟨_, _, _, _, rfl, rfl, hended⟩
    | _ => cases h
  · have hplain : control.plain = control := by
      unfold Control.plain
      split
      · exact absurd ⟨_, _, _, rfl⟩ hjoin
      · rfl
    refine Or.inr ⟨?_, fun step missing ended hsame => hjoin ⟨step, missing, ended, hsame⟩⟩
    rw [hplain] at h
    cases control₀ with
    | join => exact absurd ⟨_, _, _, h.symm⟩ hjoin
    | _ => exact h

/-- Whether an invoker replies to a call by its name and arguments alone, whatever was called
before. -/
def Invoker.Memoryless (invoker : Invoker) : Prop :=
  ∀ earlier earlier' call, invoker earlier call = invoker earlier' call

/-- A machine is one run of another machine, whose clock is ahead by `start`. -/
structure Mirrors (r start : Nat) (m m₀ : Machine) : Prop where
  runs : m₀.runs = m.runs[r]?.toList
  tasks : m₀.tasks.map Task.plain = m.soloTasks r
  ready : m₀.ready = m.soloLine r m.ready
  timers : m₀.timers.map (fun timer => (timer.1 + start, timer.2)) = m.soloTimers r

namespace Mirrors

/-- What is known of the counterpart of a task. -/
structure Counterpart (place : Nat → Nat) (task task₀ : Task) : Prop where
  run : task₀.run = 0
  parent : task₀.parent = task.parent.map place
  frames : task₀.frames = task.frames
  control : task₀.control.plain = task.control.plain

theorem counterpart (h : Mirrors r start m m₀) (htask : m.tasks[id]? = some task)
    (hrun : task.run = r) :
    ∃ task₀, m₀.tasks[m.place r id]? = some task₀ ∧ Counterpart (m.place r) task task₀ := by
  have hsolo : (m.soloTasks r)[m.place r id]? = some (task.solo (m.place r)) := by
    unfold Machine.soloTasks
    rw [List.getElem?_map, Machine.place_eq_countP,
      getElem?_filter_countP htask (by simpa using hrun)]
    rfl
  rw [← h.tasks, List.getElem?_map] at hsolo
  obtain ⟨task₀, htask₀, heq⟩ := Option.map_eq_some_iff.1 hsolo
  have hfields := Task.mk.inj heq
  exact ⟨task₀, htask₀, hfields.1, hfields.2.1, hfields.2.2.1, hfields.2.2.2⟩

theorem getElem?_runs (h : Mirrors r start m m₀) : m₀.runs[0]? = m.runs[r]? := by
  rw [h.runs]
  cases m.runs[r]? <;> rfl

theorem outcome? (h : Mirrors r start m m₀) : m₀.outcome? 0 = m.outcome? r := by
  rw [Machine.outcome?, h.getElem?_runs, Machine.outcome?]

/-- Nothing is left to do for a run when nothing is left to do at all. -/
theorem quiet (h : Mirrors r start m m₀) (hquiet : m.Quiet) : m₀.Quiet := by
  constructor
  · rw [h.ready, hquiet.1]
    rfl
  · have htimers := h.timers
    rw [Machine.soloTimers, hquiet.2] at htimers
    exact List.map_eq_nil_iff.1 htimers

/-! ### The parts of a small step -/

theorem onRun (h : Mirrors r start m m₀) (f : Progress → Progress) :
    Mirrors r start { m with runs := m.runs.modify r f }
      { m₀ with runs := m₀.runs.modify 0 f } where
  runs := by
    dsimp only
    rw [h.runs, List.getElem?_modify]
    cases m.runs[r]? <;> simp
  tasks := h.tasks
  ready := h.ready
  timers := h.timers

theorem emit (h : Mirrors r start m m₀) (event : Event Unit) :
    Mirrors r start (m.emit r event) (m₀.emit 0 event) := h.onRun _

theorem update (h : Mirrors r start m m₀) (f : Store → Store) :
    Mirrors r start (m.update r f) (m₀.update 0 f) := h.onRun _

/-- A change of a task of the run, and the same change of its counterpart. -/
theorem onTask (h : Mirrors r start m m₀) (htask : m.tasks[id]? = some task)
    (hrun : task.run = r) {f f₀ : Task → Task} (hf : ∀ t, (f t).run = t.run)
    (hboth : ∀ t₀ t : Task, t₀.plain = t.solo (m.place r) →
      (f₀ t₀).plain = (f t).solo (m.place r)) :
    Mirrors r start { m with tasks := m.tasks.modify id f }
      { m₀ with tasks := m₀.tasks.modify (m.place r id) f₀ } := by
  have hworkers : ({ m with tasks := m.tasks.modify id f } : Machine).workers = m.workers :=
    workers_modify hf
  refine ⟨h.runs, ?_, ?_, ?_⟩
  · have hp : (task.run == r) = true := by simpa using hrun
    have hfp : ((f task).run == r) = true := by rw [hf]; exact hp
    unfold Machine.soloTasks
    rw [place_congr hworkers]
    dsimp only
    rw [filter_modify htask hp hfp, ← Machine.place_eq_countP]
    exact map_modify_congr h.tasks hboth
  · rw [soloLine_congr hworkers]
    exact h.ready
  · rw [soloTimers_congr hworkers rfl]
    exact h.timers

theorem goInto (h : Mirrors r start m m₀) (htask : m.tasks[id]? = some task) (hrun : task.run = r)
    (frames : List Frame) {control control₀ : Control} (hcontrol : control₀.plain = control.plain) :
    Mirrors r start (m.goInto id frames control) (m₀.goInto (m.place r id) frames control₀) := by
  refine h.onTask htask hrun (fun _ => rfl) fun t₀ t hsame => ?_
  have hfields := Task.mk.inj hsame
  simp only [Task.plain, Task.solo, Task.mk.injEq]
  exact ⟨hfields.1, hfields.2.1, trivial, hcontrol⟩

theorem goOn (h : Mirrors r start m m₀) (htask : m.tasks[id]? = some task) (hrun : task.run = r)
    {control control₀ : Control} (hcontrol : control₀.plain = control.plain) :
    Mirrors r start (m.goOn id control) (m₀.goOn (m.place r id) control₀) := by
  refine h.onTask htask hrun (fun _ => rfl) fun t₀ t hsame => ?_
  have hfields := Task.mk.inj hsame
  simp only [Task.plain, Task.solo, Task.mk.injEq]
  exact ⟨hfields.1, hfields.2.1, hfields.2.2.1, hcontrol⟩

/-- A task of the run leaves the head of the line. -/
theorem pause (h : Mirrors r start m m₀) {rest : List Nat} (hready : m.ready = id :: rest)
    (howns : m.owns r id = true) : Mirrors r start m.pause m₀.pause := by
  refine ⟨h.runs, h.tasks, ?_, h.timers⟩
  show m₀.ready.tail = m.soloLine r m.ready.tail
  rw [h.ready, hready]
  simp [Machine.soloLine, howns]

/-- A task of the run is in the line just when its counterpart is. -/
theorem mem_ready (h : Mirrors r start m m₀) (howns : m.owns r id = true) :
    m.place r id ∈ m₀.ready ↔ id ∈ m.ready := by
  rw [h.ready, Machine.soloLine, List.mem_map]
  constructor
  · rintro ⟨j, hj, hplace⟩
    obtain ⟨hmem, hj⟩ := List.mem_filter.1 hj
    rwa [(place_inj hj howns).1 hplace] at hmem
  · intro hmem
    exact ⟨id, List.mem_filter.2 ⟨hmem, howns⟩, rfl⟩

theorem wake (h : Mirrors r start m m₀) (howns : m.owns r id = true) {id₀ : Nat}
    (hplace : m.place r id = id₀) : Mirrors r start (m.wake id) (m₀.wake id₀) := by
  subst hplace
  unfold Machine.wake
  by_cases hmem : id ∈ m.ready
  · rw [if_pos hmem, if_pos ((h.mem_ready howns).2 hmem)]
    exact h
  · rw [if_neg hmem, if_neg fun hmem₀ => hmem ((h.mem_ready howns).1 hmem₀)]
    refine ⟨h.runs, h.tasks, ?_, h.timers⟩
    show m₀.ready ++ [m.place r id] = m.soloLine r (m.ready ++ [id])
    rw [h.ready]
    simp [Machine.soloLine, howns]

/-- A branch of the run has ended, and the task that waits for it is told. -/
theorem notify (h : Mirrors r start m m₀) {parent parent₀ : Nat}
    (howns : m.owns r parent = true) (hplace : m.place r parent = parent₀)
    (branch branch₀ : Nat) (outcome : Outcome) :
    Mirrors r start (m.notify parent branch outcome) (m₀.notify parent₀ branch₀ outcome) := by
  subst hplace
  obtain ⟨other, hother, hrun⟩ := exists_task_of_owns howns
  obtain ⟨other₀, hother₀, hc⟩ := h.counterpart hother hrun
  unfold Machine.notify
  rw [hother, hother₀]
  have hcontrol := hc.control
  obtain ⟨run, grand, frames, control⟩ := other
  obtain ⟨run₀, grand₀, frames₀, control₀⟩ := other₀
  rcases Control.plain_cases hcontrol with
    ⟨step, missing, ended₀, ended, rfl, rfl, hended⟩ | ⟨rfl, hjoin⟩
  · have hworkers : (m.goOn parent (.join step missing (ended ++ [(branch, outcome)]))).workers =
        m.workers := workers_modify fun _ => rfl
    have hplain : (Control.join step missing (ended₀ ++ [(branch₀, outcome)])).plain =
        (Control.join step missing (ended ++ [(branch, outcome)])).plain := by
      simp [Control.plain, hended, unnumbered]
    exact (h.goOn hother hrun hplain).wake ((congrFun (owns_congr hworkers) _).trans howns)
      (congrFun (place_congr hworkers) _)
  · cases control₀ with
    | join step missing ended => exact absurd rfl (hjoin step missing ended)
    | _ => exact h

/-- The calls of a machine do not matter. -/
theorem calls (h : Mirrors r start m m₀) (calls calls₀ : List Invocation) :
    Mirrors r start { m with calls := calls } { m₀ with calls := calls₀ } :=
  ⟨h.runs, h.tasks, h.ready, h.timers⟩

/-- A task of the run waits from now on. -/
theorem sleep (h : Mirrors r start m m₀) (howns : m.owns r id = true) {id₀ : Nat}
    (hplace : m.place r id = id₀) (hnow : m.now = m₀.now + start) (delay : Nat) :
    Mirrors r start { m with timers := m.timers ++ [(m.now + delay, id)] }
      { m₀ with timers := m₀.timers ++ [(m₀.now + delay, id₀)] } := by
  refine ⟨h.runs, h.tasks, h.ready, ?_⟩
  show (m₀.timers ++ [(m₀.now + delay, id₀)]).map _ =
    ((m.timers ++ [(m.now + delay, id)]).filter fun timer => m.owns r timer.2).map
      fun timer => (timer.1, m.place r timer.2)
  rw [List.map_append, h.timers, List.filter_append, List.map_append]
  refine congrArg (m.soloTimers r ++ ·) ?_
  have htime : m₀.now + delay + start = m.now + delay := by omega
  simp [howns, htime, hplace]

end Mirrors

/-- A fork adds a task for each branch. -/
theorem workers_fork (id : Nat) (task : Task) (step : Step) (branches : List Step) :
    (m.fork id task step branches).workers =
      m.workers ++ List.replicate branches.length task.run := by
  have hsame : (m.goInto id (.finish step :: task.frames)
      (.join step branches.length [])).workers = m.workers := workers_modify fun _ => rfl
  rw [← hsame]
  simp [Machine.fork, Machine.workers, Machine.pause, Machine.goInto, Function.comp_def]

/-! ### What a task of the run does -/

/-- A task of the run that is at the head of the line, its counterpart, and the clocks of the two
machines. -/
structure Working (r start id : Nat) (m m₀ : Machine) (task task₀ : Task) : Prop where
  mirrors : Mirrors r start m m₀
  located : m.tasks[id]? = some task
  run : task.run = r
  counterpart : Mirrors.Counterpart (m.place r) task task₀
  ready : ∃ rest, m.ready = id :: rest
  now : m.now = m₀.now + start

namespace Working

theorem owns (h : Working r start id m m₀ task task₀) : m.owns r id = true :=
  h.run ▸ owns_of_task h.located

theorem emit (h : Working r start id m m₀ task task₀) (event : Event Unit) :
    Working r start id (m.emit r event) (m₀.emit 0 event) task task₀ :=
  ⟨h.mirrors.emit event, h.located, h.run, h.counterpart, h.ready, h.now⟩

theorem goInto (h : Working r start id m m₀ task task₀) (frames : List Frame)
    {control control₀ : Control} (hcontrol : control₀.plain = control.plain) :
    Mirrors r start (m.goInto id frames control) (m₀.goInto (m.place r id) frames control₀) :=
  h.mirrors.goInto h.located h.run frames hcontrol

theorem goOn (h : Working r start id m m₀ task task₀) {control control₀ : Control}
    (hcontrol : control₀.plain = control.plain) :
    Mirrors r start (m.goOn id control) (m₀.goOn (m.place r id) control₀) :=
  h.mirrors.goOn h.located h.run hcontrol

theorem begin (h : Working r start id m m₀ task task₀) (run : Progress) :
    Mirrors r start (m.begin id task run) (m₀.begin (m.place r id) task₀ run) := by
  unfold Machine.begin
  rw [h.run, h.counterpart.run]
  exact (h.emit _).goOn rfl

theorem call (h : Working r start id m m₀ task task₀) (hfree : invoker.Memoryless)
    (store : Store) (step : Step) (c : Call) :
    Mirrors r start (m.call invoker id task store step c)
      (m₀.call invoker (m.place r id) task₀ store step c) := by
  unfold Machine.call
  dsimp only
  rw [hfree m₀.calls m.calls, h.counterpart.frames]
  generalize invoker m.calls ⟨c.activity, c.arguments.resolve store⟩ = reply
  have hgo := (h.mirrors.calls (m.calls ++ [⟨c.activity, c.arguments.resolve store⟩])
    (m₀.calls ++ [⟨c.activity, c.arguments.resolve store⟩])).goInto h.located h.run
    (.finish step :: task.frames) (rfl : (Control.receive step c reply.ending).plain = _)
  split
  · exact hgo
  · obtain ⟨rest, hready⟩ := h.ready
    have hworkers : (({ m with calls := m.calls ++
        [⟨c.activity, c.arguments.resolve store⟩] } : Machine).goInto id
          (.finish step :: task.frames) (.receive step c reply.ending)).workers = m.workers :=
      workers_modify fun _ => rfl
    have howns := (congrFun (owns_congr hworkers) id).trans h.owns
    exact (hgo.pause hready howns).sleep howns (congrFun (place_congr hworkers) id) h.now _

/-- The tasks of branches come to the tasks of the run in both machines. -/
theorem fork_tasks (h : Working r start id m m₀ task task₀) (hhoused : m.Housed) (step : Step)
    (branches : List Step) :
    (m₀.fork (m.place r id) task₀ step branches).tasks.map Task.plain =
      (m.fork id task step branches).soloTasks r := by
  -- the task waits, and new tasks come to those that there are then
  have hwaits := h.goInto (.finish step :: task.frames)
    (rfl : (Control.join step branches.length []).plain = _)
  have hparents : ∀ parent, some parent ∈ (m.goInto id (.finish step :: task.frames)
      (.join step branches.length [])).tasks.map (·.parent) →
      parent < (m.goInto id (.finish step :: task.frames)
        (.join step branches.length [])).tasks.length := by
    have hsame : (m.goInto id (.finish step :: task.frames)
        (.join step branches.length [])).tasks.map (·.parent) = m.tasks.map (·.parent) :=
      parents_modify fun _ => rfl
    rw [hsame]
    simpa [Machine.goInto] using hhoused.parent_lt
  have hgrown : (m.fork id task step branches).workers =
      (m.goInto id (.finish step :: task.frames) (.join step branches.length [])).workers ++
        List.replicate branches.length task.run := by
    simp [Machine.workers, Machine.fork, Machine.pause, Machine.goInto, Function.comp_def]
  have hid : (m.fork id task step branches).place r id = m.place r id :=
    place_grow (workers_fork id task step branches) (Nat.le_of_lt (lt_of_owns h.owns))
  have hkids : ((branches.map fun b => (⟨task.run, some id, [], .enter b⟩ : Task)).filter
      (·.run == r)).map (Task.solo ((m.fork id task step branches).place r)) =
      (branches.map fun b => (⟨task₀.run, some (m.place r id), [], .enter b⟩ : Task)).map
        Task.plain := by
    rw [List.filter_eq_self.2 (by simp [h.run]), List.map_map, List.map_map]
    refine List.map_congr_left fun b _ => ?_
    simp [Task.solo, Task.plain, hid, h.counterpart.run]
  rw [soloTasks_grow hgrown rfl hparents, hkids, ← hwaits.tasks, ← List.map_append,
    h.counterpart.frames.symm]
  rfl

/-- The tasks of branches line up in both machines, and the task that waits after them. -/
theorem fork_ready (h : Working r start id m m₀ task task₀) (hhoused : m.Housed) (step : Step)
    (branches : List Step) :
    (m₀.fork (m.place r id) task₀ step branches).ready =
      (m.fork id task step branches).soloLine r (m.fork id task step branches).ready := by
  obtain ⟨rest, hready⟩ := h.ready
  have hgrown := workers_fork id task step branches (m := m)
  rw [h.run] at hgrown
  have hrest : ∀ j ∈ rest, j < m.tasks.length := fun j hj =>
    hhoused.ready j (hready ▸ List.mem_cons_of_mem _ hj)
  have hid : (m.fork id task step branches).place r id = m.place r id :=
    place_grow hgrown (Nat.le_of_lt (lt_of_owns h.owns))
  have howns : (m.fork id task step branches).owns r id = true :=
    (owns_grow hgrown (lt_of_owns h.owns)).trans h.owns
  have hline : m₀.ready = m.place r id :: m.soloLine r rest := by
    rw [h.mirrors.ready, hready]
    simp [Machine.soloLine, h.owns]
  have hlength₀ : m₀.tasks.length = m.place r m.tasks.length := by
    rw [← length_soloTasks, ← h.mirrors.tasks, List.length_map]
  show m₀.ready.tail ++ List.range' m₀.tasks.length branches.length ++ [m.place r id] =
    (m.fork id task step branches).soloLine r
      (m.ready.tail ++ List.range' m.tasks.length branches.length ++ [id])
  rw [soloLine_append, soloLine_append, soloLine_range' hgrown, hready, hlength₀,
    List.tail_cons, soloLine_grow hgrown hrest, hline]
  simp [Machine.soloLine, howns, hid]

theorem fork (h : Working r start id m m₀ task task₀) (hhoused : m.Housed) (step : Step)
    (branches : List Step) :
    Mirrors r start (m.fork id task step branches)
      (m₀.fork (m.place r id) task₀ step branches) := by
  refine ⟨h.mirrors.runs, h.fork_tasks hhoused step branches,
    h.fork_ready hhoused step branches, ?_⟩
  rw [soloTimers_grow (workers_fork id task step branches) rfl hhoused.timers]
  exact h.mirrors.timers

theorem enter (h : Working r start id m m₀ task task₀) (hfree : invoker.Memoryless)
    (hhoused : m.Housed) (run : Progress) (step : Step) :
    Mirrors r start (m.enter invoker id task run step)
      (m₀.enter invoker (m.place r id) task₀ run step) := by
  have hemit := h.emit (.stepStarted step.id step.work.kind)
  unfold Machine.enter
  dsimp only
  rw [h.run, h.counterpart.run, h.counterpart.frames]
  split
  · split
    · exact hemit.goInto _ rfl
    · exact hemit.call hfree _ _ _
  · exact hemit.goInto _ rfl
  · split
    · exact hemit.goInto _ rfl
    · exact hemit.goInto _ rfl
    · exact hemit.fork ⟨hhoused.parents, hhoused.ready, hhoused.timers⟩ _ _
  · exact hemit.goInto _ rfl

theorem receive (h : Working r start id m m₀ task task₀) (step : Step) (c : Call)
    (ending : Ending) :
    Mirrors r start (m.receive id task step c ending)
      (m₀.receive (m.place r id) task₀ step c ending) := by
  cases ending with
  | panic payload => exact h.goOn rfl
  | result result =>
    dsimp only [Machine.receive]
    rw [h.run, h.counterpart.run]
    exact (h.mirrors.update _).goOn h.located h.run rfl

/-- The numbers of branches do not matter as long as no branch has panicked. -/
theorem join (h : Working r start id m m₀ task task₀) (step : Step) (missing : Nat)
    {ended ended₀ : List (Nat × Outcome)} (hended : ended₀.map unnumbered = ended.map unnumbered)
    (hcalm : ∀ news ∈ ended, news.2.Within fun _ => True) :
    Mirrors r start (m.join id step missing ended)
      (m₀.join (m.place r id) step missing ended₀) := by
  cases ended with
  | nil =>
    obtain rfl : ended₀ = [] := by simpa using hended
    obtain ⟨rest, hready⟩ := h.ready
    exact h.mirrors.pause hready h.owns
  | cons news ended =>
    cases ended₀ with
    | nil => cases hended
    | cons news₀ ended₀ =>
      have hnews : unnumbered news₀ = unnumbered news := (List.cons.inj hended).1
      have hrest : ended₀.map unnumbered = ended.map unnumbered := (List.cons.inj hended).2
      obtain ⟨branch, outcome⟩ := news
      obtain ⟨branch₀, outcome₀⟩ := news₀
      obtain rfl : outcome₀ = outcome := congrArg Prod.snd hnews
      cases outcome₀ with
      | done =>
        refine h.goOn ?_
        split
        · rfl
        · simp [Control.plain, hrest]
      | failed failure => exact h.goOn rfl
      | panicked payload => exact (hcalm _ (List.mem_cons_self ..)).elim

theorem stop (h : Working r start id m m₀ task task₀) (hhoused : m.Housed) (outcome : Outcome) :
    Mirrors r start (m.stop id task outcome) (m₀.stop (m.place r id) task₀ outcome) := by
  obtain ⟨rest, hready⟩ := h.ready
  have hworkers : ((m.goOn id .stopped).pause).workers = m.workers := workers_modify fun _ => rfl
  have howns : ∀ other, (m.goOn id .stopped).owns r other = m.owns r other :=
    fun other => congrFun (owns_congr hworkers) other
  have hstopped : Mirrors r start ((m.goOn id .stopped).pause)
      ((m₀.goOn (m.place r id) .stopped).pause) :=
    (h.goOn rfl).pause hready ((howns id).trans h.owns)
  unfold Machine.stop
  rw [h.counterpart.parent]
  cases hparent : task.parent with
  | some parent =>
    have hmine := hhoused.parents id task parent h.located hparent
    rw [h.run] at hmine
    exact hstopped.notify ((howns parent).trans hmine)
      (congrFun (place_congr hworkers) parent) _ _ _
  | none =>
    dsimp only [Option.map_none]
    rw [h.run, h.counterpart.run]
    cases Machine.finalEvent outcome with
    | none => exact hstopped.onRun _
    | some event => exact (hstopped.emit event).onRun _

theorem leave (h : Working r start id m m₀ task task₀) (hhoused : m.Housed) (run : Progress)
    (outcome : Outcome) :
    Mirrors r start (m.leave id task run outcome)
      (m₀.leave (m.place r id) task₀ run outcome) := by
  unfold Machine.leave
  dsimp only
  rw [h.run, h.counterpart.run, h.counterpart.frames]
  split
  · exact h.stop hhoused _
  · exact (h.emit _).goInto _ rfl
  · exact (h.emit _).goInto _ rfl
  · exact h.goInto _ rfl
  · exact h.goInto _ rfl

/-- **What a task of the run does is done by the mirrored machine as well.** -/
theorem act (h : Working r start id m m₀ task task₀) (hfree : invoker.Memoryless)
    (hhoused : m.Housed) (hcalm : task.control.Within fun _ => True) (run : Progress) :
    Mirrors r start (m.act invoker id task run)
      (m₀.act invoker (m.place r id) task₀ run) := by
  unfold Machine.act
  rcases Control.plain_cases h.counterpart.control with
    ⟨step, missing, ended₀, ended, hjoin₀, hjoin, hended⟩ | ⟨hsame, hjoin⟩
  · rw [hjoin] at hcalm
    rw [hjoin, hjoin₀]
    exact h.join step missing hended hcalm
  · rw [hsame]
    cases hc : task.control with
    | start => exact h.begin run
    | enter step => exact h.enter hfree hhoused run step
    | leave outcome => exact h.leave hhoused run outcome
    | receive step c ending => exact h.receive step c ending
    | join step missing ended => exact absurd hc (hjoin step missing ended)
    | stopped =>
      obtain ⟨rest, hready⟩ := h.ready
      exact h.mirrors.pause hready h.owns

end Working

/-- **A small step of a task of the run is a small step of the mirrored machine.** -/
theorem Mirrors.step_own (h : Mirrors r start m m₀) (hfree : invoker.Memoryless)
    (hhoused : m.Housed) (hcalm : m.Unshaken) {rest : List Nat} (hready : m.ready = id :: rest)
    (howns : m.owns r id = true) (hrun : r < m.runs.length) (hnow : m.now = m₀.now + start)
    (hstep : m.step invoker = some m') :
    ∃ m₀', m₀.step invoker = some m₀' ∧ Mirrors r start m' m₀' := by
  obtain ⟨task, htask, rfl⟩ := exists_task_of_owns howns
  obtain ⟨task₀, htask₀, hcounterpart⟩ := h.counterpart htask rfl
  obtain ⟨run, hprogress⟩ := getElem?_of_lt hrun
  have hline : m₀.ready = m.place task.run id :: m.soloLine task.run rest := by
    rw [h.ready, hready]
    simp [Machine.soloLine, howns]
  have hprogress₀ : m₀.runs[task₀.run]? = some run := by
    rw [hcounterpart.run, h.getElem?_runs, hprogress]
  have hworking : Working task.run start id m m₀ task task₀ :=
    ⟨h, htask, rfl, hcounterpart, ⟨rest, hready⟩, hnow⟩
  refine ⟨m₀.act invoker (m.place task.run id) task₀ run, ?_, ?_⟩
  · simp only [Machine.step, hline, htask₀, hprogress₀]
  · have hact : m.step invoker = some (m.act invoker id task run) := by
      simp only [Machine.step, hready, htask, hprogress]
    rw [hact] at hstep
    cases hstep
    exact hworking.act hfree hhoused (hcalm.controls id task htask) run

end Flowgraph.Run

import Flowgraph.Proofs.Run.Line
import Flowgraph.Proofs.Run.Lookup
import Flowgraph.Proofs.Run.Recast
import Flowgraph.Proofs.Run.Shadow

/-!
# Machines that watch deadlines

`Invoker.within` says at the time of a call what comes of it under a deadline. What happens under
a deadline is less direct: the activity goes on, and next to it a second timer runs. Whenever one
of the timers wakes the task, it looks at its activity first and then at the deadline, and with
the first that is over it drops the other, together with its timer. `Watched` is a machine that
works so: each call that takes time has a `Watch` with two timers, and nobody knows beforehand
which of them will count.

`Watched.settled` is the machine in which every race between an activity and its deadline is
decided in advance. **A small step of a watched machine is one of the settled machine**, on the
invoker with a deadline (`Watched.settled_step`). The invariant is `Watched.Fair`: the timers are
those of the calls that are still open, no watch is overdue, and whoever has been woken is in the
line, so nobody is woken for nothing.
-/

set_option autoImplicit false

namespace Flowgraph.Run

open Machine (resolveAll)

/-! ### Machines with deadlines -/

/-- A call that is watched: which task has made it, when its activity is over, and when its deadline
is. -/
structure Watch where
  task : Nat
  due : Nat
  limit : Nat

namespace Watch

/-- The timers of a watch, the one of the activity first. -/
def timers (watch : Watch) : List (Nat × Nat) :=
  [(watch.due, watch.task), (watch.limit, watch.task)]

/-- When the task is woken for the first time. -/
def first (watch : Watch) : Nat := min watch.due watch.limit

end Watch

/-- A machine on which calls are watched. -/
structure Watched where
  machine : Machine
  watches : List Watch := []

/-- A task that takes the notice that its activity has been cut off. -/
def Task.cutOff (deadline : Nat) (task : Task) : Task :=
  match task.control with
  | .receive step c _ =>
    { task with control := .receive step c (.result (timedOut c.activity deadline)) }
  | _ => task

namespace Watched

/-- Drops the watch of a task with its timers. -/
def drop (w : Watched) (id : Nat) : Watched where
  machine := { w.machine with timers := w.machine.timers.filter (·.2 ≠ id) }
  watches := w.watches.filter (·.task ≠ id)

/-- Waits for an activity under a deadline. -/
def await (w : Watched) (watch : Watch) : Watched where
  machine := { w.machine.pause with timers := w.machine.timers ++ watch.timers }
  watches := w.watches ++ [watch]

/-- Calls the activity of a step. The activity is looked at first, so one that takes no time is not
watched; neither is one whose deadline is over at once. -/
def call (w : Watched) (inner : Invoker) (deadline : Nat) (id : Nat) (task : Task) (store : Store)
    (step : Step) (c : Call) : Watched :=
  let invocation : Invocation := ⟨c.activity, c.arguments.resolve store⟩
  let reply := inner w.machine.calls invocation
  let m := { w.machine with calls := w.machine.calls ++ [invocation] }
  let receive (ending : Ending) : Watched :=
    { w with machine := m.goInto id (.finish step :: task.frames) (.receive step c ending) }
  if reply.delay = 0 then receive reply.ending
  else if sleepLength deadline = 0 then receive (.result (timedOut c.activity deadline))
  else (receive reply.ending).await ⟨id, m.now + reply.delay, m.now + sleepLength deadline⟩

/-- One small step of a task. Only calls are not those of the machine. -/
def act (w : Watched) (inner : Invoker) (deadline : Nat) (id : Nat) (task : Task) (run : Progress) :
    Watched :=
  match task.control with
  | .enter step =>
    match step.work with
    | .activity c =>
      if Text.blank c.activity then { w with machine := w.machine.act inner id task run }
      else
        let m := w.machine.emit task.run (.stepStarted step.id step.work.kind)
        { w with machine := m }.call inner deadline id task run.store step c
    | _ => { w with machine := w.machine.act inner id task run }
  | _ => { w with machine := w.machine.act inner id task run }

/-- One small step of the task at the head of the line. A task whose call is watched looks at its
activity and then at the deadline; if neither is over, it goes on waiting. -/
def step (w : Watched) (inner : Invoker) (deadline : Nat) : Option Watched :=
  match w.machine.ready with
  | [] => none
  | id :: _ =>
    match w.machine.tasks[id]? with
    | none => some { w with machine := w.machine.pause }
    | some task =>
      match w.machine.runs[task.run]? with
      | none => some { w with machine := w.machine.pause }
      | some run =>
        match w.watches.find? (·.task = id) with
        | none => some (w.act inner deadline id task run)
        | some watch =>
          if watch.due ≤ w.machine.now then some ((w.drop id).act inner deadline id task run)
          else if watch.limit ≤ w.machine.now then
            some ((w.drop id).act inner deadline id (task.cutOff deadline) run)
          else some { w with machine := w.machine.pause }

/-- Lets the time pass and lines up the tasks that a timer wakes, each once. -/
def passTo (w : Watched) (time : Nat) : Watched :=
  let due := (w.machine.timers.filter (·.1 ≤ time)).map (·.2)
  let m := { w.machine with
    now := max w.machine.now time
    timers := w.machine.timers.filter (time < ·.1) }
  { w with machine := due.foldl Machine.wake m }

/-- What comes of a machine when no task can work, as in `Machine.lull`. -/
def lull (wanted : Machine → Bool) (limit : Option Nat) (w : Watched) : Watched ⊕ Watched :=
  if wanted w.machine then .inl w
  else match w.machine.nextTime?, limit with
    | some time, some limit =>
      if time ≤ limit then .inr (w.passTo time) else .inl (w.passTo limit)
    | some time, none => .inr (w.passTo time)
    | none, some limit => .inl (w.passTo limit)
    | none, none => .inl w

/-- Works, and lets time pass up to a limit if there is one, as `Machine.run` does. -/
def run (inner : Invoker) (deadline : Nat) (wanted : Machine → Bool) (limit : Option Nat) :
    Nat → Watched → Option Watched
  | 0, _ => none
  | fuel + 1, w =>
    match w.step inner deadline with
    | some w => run inner deadline wanted limit fuel w
    | none => (w.lull wanted limit).elim some (run inner deadline wanted limit fuel)

/-- What is seen of the run of a definition whose calls are watched. -/
def seen (inner : Invoker) (deadline : Nat) (d : Definition) (input : Store) (stop : Bool)
    (limit : Option Nat) (fuel : Nat) : Option View :=
  (run inner deadline (Machine.wanted stop) limit fuel ⟨({} : Machine).launch d input, []⟩).map
    (·.machine.view)

/-! ### Deciding in advance -/

/-- Whether the call of a task is going to be cut off. -/
def late (watches : List Watch) (id : Nat) : Bool :=
  watches.any fun watch => watch.task = id && watch.limit < watch.due

/-- What the tasks are going to be told. -/
def verdict (watches : List Watch) (deadline : Nat) (id : Nat) (task : Task) : Task :=
  if late watches id then task.cutOff deadline else task

/-- The timers of the calls that are still open, one for each. -/
def firsts (watches : List Watch) (now : Nat) : List (Nat × Nat) :=
  (watches.filter (now < ·.first)).map fun watch => (watch.first, watch.task)

/-- The machine on which the calls that are watched have been decided. -/
def settled (w : Watched) (deadline : Nat) : Machine :=
  w.machine.recast (verdict w.watches deadline) (firsts w.watches w.machine.now)

variable {w : Watched} {deadline id : Nat} {watch : Watch} {watches : List Watch} {task : Task}

theorem late_eq_false (h : ∀ watch ∈ watches, watch.task ≠ id) : late watches id = false := by
  rw [late, List.any_eq_false]
  intro watch hwatch hlate
  exact h watch hwatch (of_decide_eq_true (Bool.and_elim_left hlate))

theorem late_append (id : Nat) : late (watches ++ [watch]) id =
    (late watches id || (watch.task = id && watch.limit < watch.due : Bool)) := by
  rw [late, List.any_append, List.any_cons, List.any_nil, Bool.or_false]
  rfl

/-- A task without a watch is left alone. -/
theorem verdict_eq_self (h : ∀ watch ∈ watches, watch.task ≠ id) (task : Task) :
    verdict watches deadline id task = task := by
  rw [verdict, late_eq_false h]
  rfl

theorem recasts_verdict (watches : List Watch) (deadline : Nat) :
    Recasts (verdict watches deadline) where
  control i task control := by
    unfold verdict Task.cutOff
    split
    · split <;> rfl
    · rfl
  waits i task hwaits := by
    unfold verdict Task.cutOff
    split
    · split
      · trivial
      · exact hwaits
    · exact hwaits
  others i task hwaits := by
    unfold verdict Task.cutOff
    split
    · split
      · rename_i hc
        rw [hc] at hwaits
        exact absurd trivial hwaits
      · rfl
    · rfl

/-- Which run a task works on does not depend on what it is going to be told. -/
theorem run_verdict (watches : List Watch) (deadline id : Nat) (task : Task) :
    (verdict watches deadline id task).run = task.run := by
  have hsame := congrArg Task.run ((recasts_verdict watches deadline).control id task .start)
  exact hsame

/-- The first timer of a new watch is the one that is going to count. -/
theorem firsts_append {now : Nat} (hdue : now < watch.due) (hlimit : now < watch.limit) :
    firsts (watches ++ [watch]) now = firsts watches now ++ [(watch.first, watch.task)] := by
  have hopen : [watch].filter (fun watch => now < watch.first) = [watch] :=
    List.filter_cons_of_pos (decide_eq_true (Nat.lt_min.2 ⟨hdue, hlimit⟩))
  rw [firsts, List.filter_append, List.map_append, hopen]
  rfl

/-! ### Watches that keep order -/

/-- Whether watches and timers are in order. -/
structure Fair (w : Watched) : Prop where
  /-- No task has two watches. -/
  once : (w.watches.map (·.task)).Nodup
  /-- A task with a watch waits for its activity. -/
  waits : ∀ watch ∈ w.watches, ∃ task,
    w.machine.tasks[watch.task]? = some task ∧ task.control.Waits
  /-- No watch is overdue. -/
  ahead : ∀ watch ∈ w.watches, w.machine.now ≤ watch.first
  /-- Whoever has been woken is in the line. -/
  woken : ∀ watch ∈ w.watches, watch.first = w.machine.now → watch.task ∈ w.machine.ready
  /-- The timers are those of the watches. -/
  timers : w.machine.timers =
    w.watches.flatMap fun watch => watch.timers.filter (w.machine.now < ·.1)

namespace Fair

variable {m' : Machine}

/-- A change of the machine that wakes nobody and leaves watched tasks waiting. -/
theorem keep (h : w.Fair) (hnow : m'.now = w.machine.now) (htimers : m'.timers = w.machine.timers)
    (hready : ∀ watch ∈ w.watches, watch.task ∈ w.machine.ready → watch.task ∈ m'.ready)
    (htasks : ∀ watch ∈ w.watches, ∀ task, w.machine.tasks[watch.task]? = some task →
      task.control.Waits → ∃ task', m'.tasks[watch.task]? = some task' ∧ task'.control.Waits) :
    Fair { w with machine := m' } where
  once := h.once
  waits watch hwatch := by
    obtain ⟨task, htask, hwaits⟩ := h.waits watch hwatch
    exact htasks watch hwatch task htask hwaits
  ahead watch hwatch := hnow.symm ▸ h.ahead watch hwatch
  woken watch hwatch hfirst := hready watch hwatch (h.woken watch hwatch (hfirst.trans hnow))
  timers := by
    rw [htimers, hnow]
    exact h.timers

/-- The watch of a task is the only one. -/
theorem eq_of_task (h : w.Fair) {watch' : Watch} (hwatch : watch ∈ w.watches)
    (hwatch' : watch' ∈ w.watches) (htask : watch.task = watch'.task) : watch = watch' :=
  List.inj_on_of_nodup_map h.once hwatch hwatch' htask

theorem timers_drop (watches : List Watch) (now : Nat) :
    (watches.flatMap fun watch => watch.timers.filter (now < ·.1)).filter (·.2 ≠ id) =
      (watches.filter (·.task ≠ id)).flatMap fun watch => watch.timers.filter (now < ·.1) := by
  induction watches with
  | nil => rfl
  | cons watch rest ih =>
    rw [List.flatMap_cons, List.filter_append, ih]
    by_cases htask : watch.task = id
    · have hnone : (watch.timers.filter (now < ·.1)).filter (·.2 ≠ id) = [] := by
        rw [List.filter_eq_nil_iff]
        intro timer htimer
        have hmem := List.mem_of_mem_filter htimer
        simp only [Watch.timers, List.mem_cons, List.not_mem_nil, or_false] at hmem
        rcases hmem with rfl | rfl <;> simp [htask]
      rw [hnone, List.filter_cons_of_neg (by simpa using htask), List.nil_append]
    · have hall : (watch.timers.filter (now < ·.1)).filter (·.2 ≠ id) =
          watch.timers.filter (now < ·.1) := by
        rw [List.filter_eq_self]
        intro timer htimer
        have hmem := List.mem_of_mem_filter htimer
        simp only [Watch.timers, List.mem_cons, List.not_mem_nil, or_false] at hmem
        rcases hmem with rfl | rfl <;> simpa using htask
      rw [hall, List.filter_cons_of_pos (by simpa using htask), List.flatMap_cons]

theorem drop (h : w.Fair) (id : Nat) : (w.drop id).Fair where
  once := h.once.sublist (List.filter_sublist.map _)
  waits watch hwatch := h.waits watch (List.mem_of_mem_filter hwatch)
  ahead watch hwatch := h.ahead watch (List.mem_of_mem_filter hwatch)
  woken watch hwatch := h.woken watch (List.mem_of_mem_filter hwatch)
  timers := by
    show w.machine.timers.filter (·.2 ≠ id) = _
    rw [h.timers]
    exact timers_drop w.watches w.machine.now

/-- A change of a task that is not watched. -/
theorem modify (h : w.Fair) (hleft : ∀ watch ∈ w.watches, watch.task ≠ id) (f : Task → Task)
    (hnow : m'.now = w.machine.now) (hready : m'.ready = w.machine.ready)
    (htasks : m'.tasks = w.machine.tasks.modify id f) (htimers : m'.timers = w.machine.timers) :
    Fair { w with machine := m' } := by
  refine h.keep hnow htimers (fun _ _ hmem => hready ▸ hmem) ?_
  intro watch hwatch task htask hwaits
  exact ⟨task, by rw [htasks, List.getElem?_modify_ne _ _ (Ne.symm (hleft watch hwatch)), htask],
    hwaits⟩

/-- A task takes an ending. -/
theorem receive (h : w.Fair) (hleft : ∀ watch ∈ w.watches, watch.task ≠ id) (task : Task)
    (step : Step) (c : Call) (ending : Ending) :
    Fair { w with machine := w.machine.receive id task step c ending } := by
  cases ending <;> exact h.modify hleft _ rfl rfl rfl rfl

/-- The task at the head of the line begins to wait. -/
theorem await (h : w.Fair) (hleft : ∀ other ∈ w.watches, other.task ≠ watch.task)
    {rest : List Nat} (hready : w.machine.ready = watch.task :: rest)
    (htask : w.machine.tasks[watch.task]? = some task) (hwaits : task.control.Waits)
    (hdue : w.machine.now < watch.due) (hlimit : w.machine.now < watch.limit) :
    (w.await watch).Fair where
  once := by
    show ((w.watches ++ [watch]).map (·.task)).Nodup
    rw [List.map_append, List.nodup_append']
    refine ⟨h.once, List.nodup_singleton _, ?_⟩
    rw [List.map_singleton, List.disjoint_singleton]
    intro hmem
    obtain ⟨other, hother, heq⟩ := List.mem_map.1 hmem
    exact hleft other hother heq
  waits other hother := by
    rcases List.mem_append.1 hother with hother | hother
    · exact h.waits other hother
    · rw [List.mem_singleton.1 hother]
      exact ⟨task, htask, hwaits⟩
  ahead other hother := by
    rcases List.mem_append.1 hother with hother | hother
    · exact h.ahead other hother
    · rw [List.mem_singleton.1 hother]
      exact Nat.le_min.2 ⟨hdue.le, hlimit.le⟩
  woken other hother hfirst := by
    rcases List.mem_append.1 hother with hother | hother
    · have hmem := h.woken other hother hfirst
      rw [hready] at hmem
      show other.task ∈ w.machine.ready.tail
      rw [hready]
      exact (List.mem_cons.1 hmem).resolve_left (hleft other hother)
    · rw [List.mem_singleton.1 hother] at hfirst
      exact absurd hfirst (Nat.ne_of_gt (Nat.lt_min.2 ⟨hdue, hlimit⟩))
  timers := by
    show w.machine.timers ++ watch.timers = (w.watches ++ [watch]).flatMap _
    rw [List.flatMap_append, List.flatMap_singleton, h.timers]
    refine congrArg (_ ++ ·) ?_
    show watch.timers = watch.timers.filter (w.machine.now < ·.1)
    symm
    rw [List.filter_eq_self]
    simp [Watch.timers, hdue, hlimit]

end Fair

theorem ne_of_mem_drop (hwatch : watch ∈ (w.drop id).watches) : watch.task ≠ id :=
  of_decide_eq_true (List.mem_filter.1 hwatch).2

/-! ### A task whose call is over -/

theorem late_of_mem (h : w.Fair) (hwatch : watch ∈ w.watches) :
    late w.watches watch.task = decide (watch.limit < watch.due) := by
  by_cases hlate : watch.limit < watch.due
  · rw [decide_eq_true hlate, late, List.any_eq_true]
    exact ⟨watch, hwatch, by simpa using hlate⟩
  · rw [decide_eq_false hlate, late, List.any_eq_false]
    intro other hother hboth
    simp only [Bool.and_eq_true, decide_eq_true_eq] at hboth
    obtain ⟨htask, hother'⟩ := hboth
    rw [h.eq_of_task hother hwatch htask] at hother'
    exact hlate hother'

theorem verdict_drop {i : Nat} (hne : i ≠ id) :
    verdict (w.drop id).watches deadline i = verdict w.watches deadline i := by
  have hlate : late (w.drop id).watches i = late w.watches i := by
    unfold late drop
    dsimp only
    rw [List.any_filter]
    refine congrArg (List.any w.watches) (funext fun watch => ?_)
    by_cases htask : watch.task = i
    · simp [htask, hne]
    · simp [htask]
  funext task
  rw [verdict, verdict, hlate]

/-- A watch that has woken its task has no timer on the settled machine. -/
theorem firsts_drop (h : w.Fair) (hwatch : watch ∈ w.watches)
    (hfirst : watch.first = w.machine.now) :
    firsts (w.drop watch.task).watches w.machine.now = firsts w.watches w.machine.now := by
  refine congrArg (List.map _) ?_
  unfold drop
  dsimp only
  rw [List.filter_filter]
  refine List.filter_congr fun other hother => ?_
  by_cases htask : other.task = watch.task
  · rw [h.eq_of_task hother hwatch htask]
    simp [hfirst]
  · simp [htask]

/-- Taking an ending after the watch has been dropped. -/
theorem settled_receive (h : w.Fair) (hwatch : watch ∈ w.watches)
    (hfirst : watch.first = w.machine.now) (task : Task) (step : Step) (c : Call)
    (ending : Ending) :
    ({ w.drop watch.task with
        machine := (w.drop watch.task).machine.receive watch.task task step c ending } :
      Watched).settled deadline = (w.settled deadline).receive watch.task task step c ending := by
  have hnow : ((w.drop watch.task).machine.receive watch.task task step c ending).now =
      w.machine.now := by
    cases ending <;> rfl
  unfold settled
  dsimp only
  rw [hnow, firsts_drop h hwatch hfirst]
  exact recast_receive (recasts_verdict w.watches deadline)
    (verdict_eq_self fun _ => ne_of_mem_drop) (fun _ => verdict_drop) task step c ending

/-! ### A task that is not watched -/

variable {inner : Invoker} {run : Progress}

theorem act_of_quiet (hquiet : ¬ task.control.Calls) :
    w.act inner deadline id task run = { w with machine := w.machine.act inner id task run } := by
  unfold act
  cases hc : task.control with
  | enter step =>
    dsimp only
    cases hwork : step.work with
    | activity c =>
      dsimp only
      by_cases hname : Text.blank c.activity = true
      · rw [if_pos hname]
      · exact absurd ⟨step, c, hc, hwork, Bool.not_eq_true _ ▸ hname⟩ hquiet
    | _ => rfl
  | _ => rfl

end Watched

/-- Only a call sets a timer. -/
theorem Machine.act_timers {m : Machine} {invoker : Invoker} {id : Nat} {task : Task}
    {run : Progress} (hquiet : ¬ task.control.Calls) :
    (m.act invoker id task run).timers = m.timers := by
  unfold Machine.act
  cases hc : task.control with
  | start => rfl
  | enter step =>
    unfold Machine.enter
    dsimp only
    cases hwork : step.work with
    | activity c =>
      dsimp only
      by_cases hname : Text.blank c.activity = true
      · rw [if_pos hname]
        rfl
      · exact absurd ⟨step, c, hc, hwork, Bool.not_eq_true _ ▸ hname⟩ hquiet
    | parallel branches =>
      dsimp only
      rcases resolveAll run.definition branches with missing | _ | ⟨first, rest⟩ <;> rfl
    | _ => rfl
  | leave outcome => exact leave_timers _ _ _
  | receive step c ending => cases ending <;> rfl
  | join step missing ended => rcases ended with _ | ⟨⟨_, _ | _ | _⟩, _⟩ <;> rfl
  | stopped => rfl

/-- Tasks in the line stay there until it is their turn. -/
theorem Turn.mem_ready {invoker : Invoker} {m m' : Machine} {id j : Nat} {rest : List Nat}
    {deeds : List Deed} (h : Turn invoker m id deeds m') (hready : m.ready = id :: rest)
    (hj : j ∈ m.ready) (hne : j ≠ id) : j ∈ m'.ready := by
  have htail : j ∈ m.ready.tail := by
    rw [hready] at hj ⊢
    exact (List.mem_cons.1 hj).resolve_left hne
  cases h with
  | idle => exact htail
  | goes _ _ _ hline =>
    rcases hline with ⟨rfl, -⟩ | ⟨_, _, _, _, -, rfl, -⟩
    · exact hj
    · exact htail
  | forks =>
    exact List.mem_append_left _ (List.mem_append_left _ htail)
  | ends _ _ _ _ _ hline =>
    rcases hline with rfl | rfl
    · exact htail
    · exact List.mem_append_left _ htail
  | returns => exact htail

/-- A task that waits for an activity goes on waiting in the turn of another. -/
theorem Turn.waits_of_ne {invoker : Invoker} {m m' : Machine} {id j : Nat} {deeds : List Deed}
    {task : Task} (h : Turn invoker m id deeds m') (hne : j ≠ id) (hj : m.tasks[j]? = some task)
    (hwaits : task.control.Waits) : ∃ task', m'.tasks[j]? = some task' ∧ task'.control.Waits := by
  obtain ⟨task', htask'⟩ := getElem?_of_lt
    (Nat.lt_of_lt_of_le (lt_of_getElem? hj) h.length_tasks_le)
  refine ⟨task', htask', ?_⟩
  cases h.fate hne htask' with
  | kept hold =>
    rw [hj] at hold
    cases hold
    exact hwaits
  | @told old _ _ hold =>
    rw [hj] at hold
    cases hold
    show (task.control.told _).Waits
    cases hc : task.control <;> first | trivial | (rw [hc] at hwaits; exact hwaits.elim)
  | born _ _ _ _ hnew =>
    have := lt_of_getElem? hj
    omega

namespace Watched

variable {w : Watched} {deadline id : Nat} {watch : Watch} {task : Task} {inner : Invoker}
  {run : Progress} {rest : List Nat}

/-- A small step of a task that neither is watched nor calls an activity. -/
theorem settled_quiet (hleft : ∀ watch ∈ w.watches, watch.task ≠ id)
    (hquiet : ¬ task.control.Calls) (htask : w.machine.tasks[id]? = some task)
    (hrun : w.machine.runs[task.run]? = some run) :
    ({ w with machine := w.machine.act inner id task run } : Watched).settled deadline =
      (w.settled deadline).act (inner.within deadline) id task run := by
  unfold settled
  dsimp only
  rw [(act_turn htask hrun).now_eq]
  exact (recast_act (recasts_verdict w.watches deadline) (verdict_eq_self hleft) inner task run
    hquiet).trans (Machine.act_of_quiet hquiet)

theorem Fair.quiet (h : w.Fair) (hleft : ∀ watch ∈ w.watches, watch.task ≠ id)
    (hquiet : ¬ task.control.Calls) (hready : w.machine.ready = id :: rest)
    (htask : w.machine.tasks[id]? = some task) (hrun : w.machine.runs[task.run]? = some run) :
    Fair { w with machine := w.machine.act inner id task run } := by
  have hturn : Turn inner w.machine id _ (w.machine.act inner id task run) :=
    act_turn htask hrun
  exact h.keep hturn.now_eq (Machine.act_timers hquiet)
    (fun watch hwatch hmem => hturn.mem_ready hready hmem (hleft watch hwatch))
    (fun watch hwatch _ hj hwaits => hturn.waits_of_ne (hleft watch hwatch) hj hwaits)

/-! ### A task that calls an activity -/

/-- What comes of a call under a deadline, whichever of the two is over first. -/
theorem within_eq (inner : Invoker) (deadline : Nat) (calls : List Invocation)
    (invocation : Invocation) :
    inner.within deadline calls invocation =
      ⟨min (inner calls invocation).delay (sleepLength deadline),
        if sleepLength deadline < (inner calls invocation).delay
        then .result (timedOut invocation.name deadline) else (inner calls invocation).ending⟩ := by
  unfold Invoker.within
  by_cases hdelay : (inner calls invocation).delay ≤ sleepLength deadline
  · rw [if_pos hdelay, if_neg (Nat.not_lt.2 hdelay), Nat.min_eq_left hdelay]
  · have hlt := Nat.lt_of_not_le hdelay
    rw [if_neg hdelay, if_pos hlt, Nat.min_eq_right hlt.le]

/-- **A call gets its watch**, and the settled machine sets the timer that is going to count. -/
theorem settled_await (hleft : ∀ watch ∈ w.watches, watch.task ≠ id) {due limit : Nat}
    (hdue : w.machine.now < due) (hlimit : w.machine.now < limit) (frames : List Frame)
    (step : Step) (c : Call) (ending : Ending) :
    (({ w with machine := w.machine.goInto id frames (.receive step c ending) } : Watched).await
        ⟨id, due, limit⟩).settled deadline =
      let m := ((w.settled deadline).goInto id frames (.receive step c
        (if limit < due then .result (timedOut c.activity deadline) else ending))).pause
      { m with timers := m.timers ++ [(min due limit, id)] } := by
  have hnow : (w.machine.goInto id frames (.receive step c ending)).pause.now = w.machine.now := rfl
  have hfirsts : firsts (w.watches ++ [⟨id, due, limit⟩]) w.machine.now =
      firsts w.watches w.machine.now ++ [(min due limit, id)] := firsts_append hdue hlimit
  unfold settled await
  dsimp only
  rw [hnow, hfirsts]
  refine congrArg (fun tasks : List Task =>
    { w.machine.pause with
      tasks
      timers := firsts w.watches w.machine.now ++ [(min due limit, id)] })
    (mapIdx_modify (fun other => ?told) fun i hi => ?others)
  case told =>
    -- what the task is going to be told is what the truncated call says
    rw [verdict_eq_self hleft, verdict, late_append, late_eq_false hleft]
    by_cases hcut : limit < due
    · rw [if_pos hcut, if_pos (by simpa using hcut)]
      rfl
    · rw [if_neg hcut, if_neg (by simpa using hcut)]
  case others =>
    funext other
    rw [verdict, verdict, late_append]
    simp [Ne.symm hi]

theorem settled_call (hleft : ∀ watch ∈ w.watches, watch.task ≠ id) (store : Store)
    (step : Step) (c : Call) :
    (w.call inner deadline id task store step c).settled deadline =
      (w.settled deadline).call (inner.within deadline) id task store step c := by
  have hcalls : (w.settled deadline).calls = w.machine.calls := rfl
  unfold call Machine.call
  dsimp only
  rw [hcalls, within_eq]
  dsimp only
  generalize inner w.machine.calls ⟨c.activity, c.arguments.resolve store⟩ = reply
  by_cases hzero : reply.delay = 0
  · rw [if_pos hzero, if_pos (by omega), if_neg (by omega)]
    exact (recasts_verdict w.watches deadline).goInto (verdict_eq_self hleft) (fun _ _ => rfl) _ _
  by_cases hlength : sleepLength deadline = 0
  · rw [if_neg hzero, if_pos hlength, if_pos (by omega), if_pos (by omega)]
    exact (recasts_verdict w.watches deadline).goInto (verdict_eq_self hleft) (fun _ _ => rfl) _ _
  have hdue : w.machine.now < w.machine.now + reply.delay := by omega
  have hlimit : w.machine.now < w.machine.now + sleepLength deadline := by omega
  have hcut : sleepLength deadline < reply.delay ↔
      w.machine.now + sleepLength deadline < w.machine.now + reply.delay := by omega
  let called : Watched := { w with machine := { w.machine with
    calls := w.machine.calls ++ [⟨c.activity, c.arguments.resolve store⟩] } }
  rw [if_neg hzero, if_neg hlength, if_neg (by omega)]
  simp only [hcut]
  refine (settled_await (w := called) hleft hdue hlimit (.finish step :: task.frames) step c
    reply.ending).trans ?_
  rw [Nat.add_min_add_left]
  rfl

theorem Fair.call (h : w.Fair) (hleft : ∀ watch ∈ w.watches, watch.task ≠ id)
    (hready : w.machine.ready = id :: rest) {old : Task} (hold : w.machine.tasks[id]? = some old)
    (store : Store) (step : Step) (c : Call) :
    (w.call inner deadline id task store step c).Fair := by
  unfold Watched.call
  dsimp only
  generalize inner w.machine.calls ⟨c.activity, c.arguments.resolve store⟩ = reply
  split
  case isTrue => exact h.modify hleft _ rfl rfl rfl rfl
  case isFalse hzero =>
  split
  case isTrue => exact h.modify hleft _ rfl rfl rfl rfl
  case isFalse hlength =>
  have hcalled : Fair { w with
      machine := { w.machine with
        calls := w.machine.calls ++ [(⟨c.activity, c.arguments.resolve store⟩ : Invocation)]
      }.goInto id (.finish step :: task.frames) (.receive step c reply.ending) } :=
    h.modify hleft _ rfl rfl rfl rfl
  have hwaiting : (w.machine.tasks.modify id fun t =>
      { t with
        frames := .finish step :: task.frames
        control := .receive step c reply.ending })[id]? =
        some { old with
          frames := .finish step :: task.frames
          control := .receive step c reply.ending } := by
    rw [List.getElem?_modify_eq, hold]
    rfl
  exact hcalled.await hleft hready hwaiting trivial
    (Nat.lt_add_of_pos_right (Nat.pos_of_ne_zero hzero))
    (Nat.lt_add_of_pos_right (Nat.pos_of_ne_zero hlength))

/-! ### One small step -/

variable {d : Definition} {input : Store} {l : Ledger} {w' : Watched}

/-- The task at the head of the line is there, and so is its run. -/
theorem exists_head (hreach : Scene.Reaches (inner.within deadline) (Scene.opening d input)
    ⟨w.settled deadline, l⟩) (hready : w.machine.ready = id :: rest) :
    ∃ task run, w.machine.tasks[id]? = some task ∧ w.machine.runs[task.run]? = some run := by
  have hid : id ∈ (w.settled deadline).ready := by
    show id ∈ w.machine.ready
    rw [hready]
    exact List.mem_cons_self ..
  have hknown := hreach.queued.known id (List.mem_append_left _ hid)
  obtain ⟨task, htask⟩ := getElem?_of_lt
    (hknown.trans_eq List.length_mapIdx : id < w.machine.tasks.length)
  obtain ⟨run, hruns, -⟩ := hreach.placed.run
  have hsettled : (w.settled deadline).tasks[id]? =
      some (verdict w.watches deadline id task) := by
    rw [settled, getElem?_recast, htask]
    rfl
  have hzero := (hreach.placed.exists_placed hsettled).1
  rw [run_verdict] at hzero
  refine ⟨task, run, htask, ?_⟩
  rw [hzero, show w.machine.runs = [run] from hruns]
  rfl

/-- A watched task in the line has been woken by the first of its timers. -/
theorem first_eq_now (hreach : Scene.Reaches (inner.within deadline) (Scene.opening d input)
    ⟨w.settled deadline, l⟩) (h : w.Fair) (hwatch : watch ∈ w.watches)
    (hready : w.machine.ready = watch.task :: rest) : watch.first = w.machine.now := by
  by_contra hfirst
  -- a task in the line has no timer
  have hopen : (watch.first, watch.task) ∈ (w.settled deadline).timers :=
    List.mem_map.2 ⟨watch, List.mem_filter.2 ⟨hwatch,
      decide_eq_true (Nat.lt_of_le_of_ne (h.ahead watch hwatch) (Ne.symm hfirst))⟩, rfl⟩
  exact (hreach.queued.head hready).1
    (List.mem_append_right _ (List.mem_map.2 ⟨_, hopen, rfl⟩))

/-- **One small step of a task without a watch.** -/
theorem settled_act (h : w.Fair) (hleft : ∀ watch ∈ w.watches, watch.task ≠ id)
    (hready : w.machine.ready = id :: rest) (htask : w.machine.tasks[id]? = some task)
    (hrun : w.machine.runs[task.run]? = some run) :
    (w.act inner deadline id task run).settled deadline =
        (w.settled deadline).act (inner.within deadline) id task run ∧
      (w.act inner deadline id task run).Fair := by
  by_cases hcalls : task.control.Calls
  case neg =>
    rw [act_of_quiet hcalls]
    exact ⟨settled_quiet hleft hcalls htask hrun, h.quiet hleft hcalls hready htask hrun⟩
  case pos =>
    obtain ⟨step, c, hc, hwork, hname⟩ := hcalls
    have hemit : Fair { w with
        machine := w.machine.emit task.run (.stepStarted step.id step.work.kind) } :=
      h.keep rfl rfl (fun _ _ hmem => hmem) fun _ _ task htask hwaits => ⟨task, htask, hwaits⟩
    have hact : w.act inner deadline id task run = Watched.call { w with
        machine := w.machine.emit task.run (.stepStarted step.id step.work.kind) }
          inner deadline id task run.store step c := by
      unfold act
      rw [hc]
      dsimp only
      rw [hwork]
      dsimp only
      rw [hname]
      rfl
    rw [hact]
    refine ⟨?_, hemit.call hleft hready htask run.store step c⟩
    refine (settled_call (w := { w with
      machine := w.machine.emit task.run (.stepStarted step.id step.work.kind) }) hleft run.store
        step c).trans ?_
    rw [Machine.act_of_call hc hwork hname]
    rfl

theorem act_of_receive {step : Step} {c : Call} {ending : Ending}
    (hc : task.control = .receive step c ending) :
    w.act inner deadline id task run =
      { w with machine := w.machine.receive id task step c ending } := by
  rw [act, hc]
  dsimp only
  rw [Machine.act, hc]

/-- **One small step of a task with a watch**: the first of the two that is over counts. -/
theorem step_of_watch (hreach : Scene.Reaches (inner.within deadline) (Scene.opening d input)
    ⟨w.settled deadline, l⟩) (h : w.Fair) (hwatch : watch ∈ w.watches)
    (hready : w.machine.ready = watch.task :: rest)
    (htask : w.machine.tasks[watch.task]? = some task)
    (hrun : w.machine.runs[task.run]? = some run) :
    ∃ w', w.step inner deadline = some w' ∧ w'.Fair ∧
      w'.settled deadline = (w.settled deadline).act (inner.within deadline) watch.task
        (verdict w.watches deadline watch.task task) run := by
  have hfirst := first_eq_now hreach h hwatch hready
  obtain ⟨other, hother, hwaits⟩ := h.waits watch hwatch
  rw [htask] at hother
  obtain rfl := Option.some.inj hother
  obtain ⟨step, c, ending, hc⟩ : ∃ step c ending, task.control = .receive step c ending := by
    cases hc : task.control <;> rw [hc] at hwaits <;>
      first | exact hwaits.elim | exact ⟨_, _, _, rfl⟩
  have hfind : w.watches.find? (·.task = watch.task) = some watch := by
    cases hfound : w.watches.find? (·.task = watch.task) with
    | none => exact absurd (decide_eq_true rfl) (List.find?_eq_none.1 hfound watch hwatch)
    | some found =>
      have htask : found.task = watch.task := by simpa using List.find?_some hfound
      rw [h.eq_of_task (List.mem_of_find?_eq_some hfound) hwatch htask]
  have hstep : w.step inner deadline =
      if watch.due ≤ w.machine.now then
        some ((w.drop watch.task).act inner deadline watch.task task run)
      else if watch.limit ≤ w.machine.now then
        some ((w.drop watch.task).act inner deadline watch.task (task.cutOff deadline) run)
      else some { w with machine := w.machine.pause } := by
    unfold Watched.step
    rw [hready]
    dsimp only
    rw [htask]
    dsimp only
    rw [hrun, hfind]
  have hfair := (h.drop watch.task).receive fun _ => ne_of_mem_drop
  have hnow : min watch.due watch.limit = w.machine.now := hfirst
  rw [hstep, verdict, late_of_mem h hwatch]
  by_cases hdue : watch.due ≤ w.machine.now
  case pos =>
    have hintime : ¬ watch.limit < watch.due := by omega
    rw [if_pos hdue, act_of_receive hc, decide_eq_false hintime, if_neg Bool.false_ne_true]
    refine ⟨_, rfl, hfair task step c ending, ?_⟩
    rw [settled_receive h hwatch hfirst]
    simp only [Machine.act, hc]
  case neg =>
    have hlimit : watch.limit ≤ w.machine.now := by omega
    have hlate : watch.limit < watch.due := by omega
    have hcut : (task.cutOff deadline).control =
        .receive step c (.result (timedOut c.activity deadline)) := by rw [Task.cutOff, hc]
    rw [if_neg hdue, if_pos hlimit, act_of_receive hcut, decide_eq_true hlate, if_pos rfl]
    refine ⟨_, rfl, hfair (task.cutOff deadline) step c _, ?_⟩
    rw [settled_receive h hwatch hfirst]
    simp only [Machine.act, hcut]

/-- **A small step of a watched machine is one of the settled machine**, and keeps the watches in
order. -/
theorem settled_step (hreach : Scene.Reaches (inner.within deadline) (Scene.opening d input)
    ⟨w.settled deadline, l⟩) (h : w.Fair) :
    (w.settled deadline).step (inner.within deadline) =
        (w.step inner deadline).map (settled · deadline) ∧
      ∀ w', w.step inner deadline = some w' → w'.Fair := by
  have hline : (w.settled deadline).ready = w.machine.ready := rfl
  cases hready : w.machine.ready with
  | nil =>
    have hstep : w.step inner deadline = none := by rw [Watched.step, hready]
    have hstep' : (w.settled deadline).step (inner.within deadline) = none := by
      rw [Machine.step, hline, hready]
    rw [hstep, hstep']
    exact ⟨rfl, fun w' hnone => (Option.some_ne_none w' hnone.symm).elim⟩
  | cons id rest =>
    obtain ⟨task, run, htask, hrun⟩ := exists_head hreach hready
    have htasks : (w.settled deadline).tasks[id]? =
        some (verdict w.watches deadline id task) := by
      rw [settled, getElem?_recast, htask]
      rfl
    have hruns : (w.settled deadline).runs[(verdict w.watches deadline id task).run]? =
        some run := by
      rw [run_verdict]
      exact hrun
    have hstep' : (w.settled deadline).step (inner.within deadline) =
        some ((w.settled deadline).act (inner.within deadline) id
          (verdict w.watches deadline id task) run) := by
      rw [Machine.step, hline, hready]
      dsimp only
      rw [htasks]
      dsimp only
      rw [hruns]
    by_cases hwatched : ∃ watch ∈ w.watches, watch.task = id
    case pos =>
      obtain ⟨watch, hwatch, rfl⟩ := hwatched
      obtain ⟨w', hstep, hfair, hsettled⟩ := step_of_watch hreach h hwatch hready htask hrun
      rw [hstep', hstep, ← hsettled]
      exact ⟨rfl, fun _ hsome => Option.some.inj hsome ▸ hfair⟩
    case neg =>
      have hleft : ∀ watch ∈ w.watches, watch.task ≠ id :=
        fun watch hwatch heq => hwatched ⟨watch, hwatch, heq⟩
      have hstep : w.step inner deadline = some (w.act inner deadline id task run) := by
        have hfind : w.watches.find? (·.task = id) = none :=
          List.find?_eq_none.2 fun watch hwatch => by simpa using hleft watch hwatch
        unfold Watched.step
        rw [hready]
        dsimp only
        rw [htask]
        dsimp only
        rw [hrun, hfind]
      have hact : (w.act inner deadline id task run).settled deadline = _ ∧ _ :=
        settled_act h hleft hready htask hrun
      rw [hstep', hstep, verdict_eq_self hleft, ← hact.1]
      exact ⟨rfl, fun _ hsome => Option.some.inj hsome ▸ hact.2⟩

theorem ready_of_step_eq_none (h : w.step inner deadline = none) : w.machine.ready = [] := by
  cases hready : w.machine.ready with
  | nil => rfl
  | cons id rest =>
    unfold Watched.step at h
    rw [hready] at h
    dsimp only at h
    repeat' split at h
    all_goals cases h

end Watched

end Flowgraph.Run

import Flowgraph.Proofs.Run.Recast
import Flowgraph.Proofs.Run.Recursion

/-!
# Runs in rounds

A run without a limit goes from one machine to the next in rounds: a task has its turn, or time
passes. `Rounds` counts them, so that a run from a machine can be told from what becomes of it some
rounds later, and the other way round.

The rounds of one task are told by a journal of what has been done, whatever other tasks there are
(`Journal.pool`): a task reports something and goes on, or calls an activity, lets those in line
behind it have a turn for nothing while it waits, and takes the result (`perform_pool`).
-/

set_option autoImplicit false

namespace Flowgraph.Run

open Machine (follow)
open Stage

section

variable {d : Definition} {invoker : Invoker} {stop : Bool} {j j' : Journal} {k n fuel : Nat}
  {m m' m'' e : Machine}

/-- Whether a machine that is run without a limit is another one after so many rounds. -/
inductive Rounds (invoker : Invoker) (stop : Bool) : Nat → Machine → Machine → Prop
  | refl {m : Machine} : Rounds invoker stop 0 m m
  | round {k : Nat} {m m' m'' : Machine} :
      (∀ fuel, Machine.run invoker (Machine.wanted stop) none (fuel + 1) m =
        Machine.run invoker (Machine.wanted stop) none fuel m') →
      Rounds invoker stop k m' m'' → Rounds invoker stop (k + 1) m m''

namespace Rounds

theorem append (h : Rounds invoker stop k m m') (h' : Rounds invoker stop n m' m'') :
    Rounds invoker stop (k + n) m m'' := by
  induction h with
  | refl => rwa [Nat.zero_add]
  | round hround _ ih =>
    rw [Nat.add_right_comm]
    exact .round hround (ih h')

theorem trans (h : Rounds invoker stop k m m') (h' : Rounds invoker stop n m' m'') :
    ∃ total, Rounds invoker stop total m m'' := ⟨_, h.append h'⟩

/-- A round in which the task has its turn. -/
theorem of_step (h : m.step invoker = some m') : Rounds invoker stop 1 m m' :=
  .round (fun _ => run_of_step h) .refl

/-- With enough fuel, a run gets as far as the rounds do. -/
theorem run_add (h : Rounds invoker stop k m m') (fuel : Nat) :
    Machine.run invoker (Machine.wanted stop) none (fuel + k) m =
      Machine.run invoker (Machine.wanted stop) none fuel m' := by
  induction h with
  | refl => rfl
  | round hround _ ih => rw [← Nat.add_assoc, hround, ih]

/-- A run that ends goes through the rounds. -/
theorem run_sub (h : Rounds invoker stop k m m')
    (hrun : Machine.run invoker (Machine.wanted stop) none fuel m = some e) :
    ∃ rest, fuel = rest + k ∧
      Machine.run invoker (Machine.wanted stop) none rest m' = some e := by
  induction h generalizing fuel with
  | refl => exact ⟨fuel, rfl, hrun⟩
  | round hround _ ih =>
    cases fuel with
    | zero => cases hrun
    | succ fuel =>
      rw [hround] at hrun
      obtain ⟨rest, rfl, hrest⟩ := ih hrun
      exact ⟨rest, rfl, hrest⟩

end Rounds

/-! ### The rounds of one task -/

/-- The machine of a run with some tasks, after what is in a journal. -/
def Journal.pool (j : Journal) (d : Definition) (tasks : List Task) (ready : List Nat) :
    Machine where
  now := j.elapsed
  runs := [{ definition := d, store := j.store, events := j.events }]
  tasks := tasks
  ready := ready
  calls := j.calls

variable {tasks : List Task} {rest : List Nat} {id : Nat} {parent : Option Nat}
  {frames frames' : List Frame} {control control' : Control} {outcome : Outcome} {step : Step}

/-- A small step of the task at the head of the line. -/
theorem step_pool (htask : tasks[id]? = some ⟨0, parent, frames, control⟩) :
    (j.pool d tasks (id :: rest)).step invoker =
      some ((j.pool d tasks (id :: rest)).act invoker id ⟨0, parent, frames, control⟩
        { definition := d, store := j.store, events := j.events }) := by
  unfold Machine.step
  simp [Journal.pool, htask]

/-- The machine after a report of a task. -/
theorem emit_pool (htask : tasks[id]? = some ⟨0, parent, frames, control⟩) (event : Event Unit) :
    ((j.pool d tasks rest).emit 0 event).goInto id frames' control' =
      (j.note (.report event)).pool d (tasks.set id ⟨0, parent, frames', control'⟩) rest := by
  simp [Journal.pool, Machine.emit, Machine.goInto, modify_eq_set htask, Note.event?, Note.call?,
    Note.delay]

/-- A round that reports something and moves the task. -/
theorem report_pool (htask : tasks[id]? = some ⟨0, parent, frames, control⟩) {event : Event Unit}
    (hact : (j.pool d tasks (id :: rest)).act invoker id ⟨0, parent, frames, control⟩
      { definition := d, store := j.store, events := j.events } =
        ((j.pool d tasks (id :: rest)).emit 0 event).goInto id frames' control') :
    Rounds invoker stop 1 (j.pool d tasks (id :: rest))
      ((j.note (.report event)).pool d (tasks.set id ⟨0, parent, frames', control'⟩)
        (id :: rest)) :=
  .of_step (by rw [step_pool htask, hact, emit_pool htask])

/-- A round that moves the task. -/
theorem move_pool (htask : tasks[id]? = some ⟨0, parent, frames, control⟩)
    (hact : (j.pool d tasks (id :: rest)).act invoker id ⟨0, parent, frames, control⟩
      { definition := d, store := j.store, events := j.events } =
        (j.pool d tasks (id :: rest)).goInto id frames' control') :
    Rounds invoker stop 1 (j.pool d tasks (id :: rest))
      (j.pool d (tasks.set id ⟨0, parent, frames', control'⟩) (id :: rest)) :=
  .of_step (by
    rw [step_pool htask, hact]
    simp [Journal.pool, Machine.goInto, modify_eq_set htask])

/-! ### Rounds that take no time -/

/-- A sequence begins. -/
theorem sequence_pool (htask : tasks[id]? = some ⟨0, parent, frames, .enter step⟩)
    {ids : List String} (hwork : step.work = .sequence ids) :
    Rounds invoker stop 1 (j.pool d tasks (id :: rest)) ((j.start step).pool d
      (tasks.set id ⟨0, parent, .sequence ids :: .finish step :: frames, .leave .done⟩)
        (id :: rest)) :=
  report_pool htask (by simp only [Machine.act, Machine.enter, hwork])

/-- A condition is decided. -/
theorem condition_pool (htask : tasks[id]? = some ⟨0, parent, frames, .enter step⟩)
    {choice : Choice} (hwork : step.work = .condition choice) :
    Rounds invoker stop 1 (j.pool d tasks (id :: rest)) ((j.start step).pool d
      (tasks.set id ⟨0, parent, .finish step :: frames,
        (if Condition.holds choice.arguments j.store then choice.onSuccess
          else choice.onFailure).elim (.leave .done) (follow d)⟩) (id :: rest)) := by
  refine report_pool htask ?_
  simp only [Machine.act, Machine.enter, hwork]
  cases (if Condition.holds choice.arguments j.store = true then choice.onSuccess
      else choice.onFailure) <;> rfl

/-- There are no branches. -/
theorem branchless_pool (htask : tasks[id]? = some ⟨0, parent, frames, .enter step⟩)
    (hwork : step.work = .parallel []) :
    Rounds invoker stop 1 (j.pool d tasks (id :: rest)) ((j.start step).pool d
      (tasks.set id ⟨0, parent, .finish step :: frames, .leave .done⟩) (id :: rest)) :=
  report_pool htask (by simp only [Machine.act, Machine.enter, hwork, Machine.resolveAll])

/-- A step that has succeeded is left for its next one. -/
theorem next_pool (htask : tasks[id]? = some ⟨0, parent, .finish step :: frames, .leave .done⟩) :
    Rounds invoker stop 1 (j.pool d tasks (id :: rest)) ((j.finish step .done).pool d
      (tasks.set id ⟨0, parent, frames, step.next.elim (.leave .done) (follow d)⟩)
        (id :: rest)) := by
  refine report_pool htask ?_
  simp only [Machine.act, Machine.leave]
  cases step.next <;> rfl

/-- A step that has not succeeded is left. -/
theorem finish_pool (htask : tasks[id]? = some ⟨0, parent, .finish step :: frames, .leave outcome⟩)
    (h : outcome ≠ .done) :
    Rounds invoker stop 1 (j.pool d tasks (id :: rest)) ((j.finish step outcome).pool d
      (tasks.set id ⟨0, parent, frames, .leave outcome⟩) (id :: rest)) := by
  cases outcome with
  | done => exact absurd rfl h
  | failed failure => exact report_pool htask rfl
  | panicked payload => exact move_pool htask rfl

/-- A sequence goes on with its next child. -/
theorem child_pool {target : String} {ids : List String}
    (htask : tasks[id]? = some ⟨0, parent, .sequence (target :: ids) :: frames, .leave .done⟩) :
    Rounds invoker stop 1 (j.pool d tasks (id :: rest)) (j.pool d
      (tasks.set id ⟨0, parent, .sequence ids :: frames, follow d target⟩) (id :: rest)) :=
  move_pool htask rfl

/-- A sequence is over, or broken off. -/
theorem closed_pool {ids : List String}
    (htask : tasks[id]? = some ⟨0, parent, .sequence ids :: frames, .leave outcome⟩)
    (h : outcome = .done → ids = []) :
    Rounds invoker stop 1 (j.pool d tasks (id :: rest)) (j.pool d
      (tasks.set id ⟨0, parent, frames, .leave outcome⟩) (id :: rest)) := by
  refine move_pool htask ?_
  cases outcome with
  | done =>
    rw [h rfl]
    rfl
  | failed failure => cases ids <;> rfl
  | panicked payload => cases ids <;> rfl

/-! ### Calls of activities -/

/-- Whether the tasks in line have nothing to do. -/
def Spare (tasks : List Task) (line : List Nat) : Prop :=
  ∀ p ∈ line, ∃ task, tasks[p]? = some task ∧ task.run = 0 ∧ task.control.Idle

theorem Spare.append {line : List Nat} {more : List Task} (h : Spare tasks line) :
    Spare (tasks ++ more) line := fun p hp => by
  obtain ⟨task, htask, hidle⟩ := h p hp
  exact ⟨task, (List.getElem?_append_left (lt_of_getElem? htask)).trans htask, hidle⟩

theorem act_of_idle {task : Task} {run : Progress} (h : task.control.Idle) :
    m.act invoker id task run = m.pause := by
  unfold Machine.act
  cases hc : task.control with
  | join step missing ended =>
    rw [hc] at h
    obtain rfl : ended = [] := h
    rfl
  | stopped => rfl
  | _ =>
    rw [hc] at h
    exact h.elim

/-- Tasks that have nothing to do leave the line. -/
theorem spare_rounds {run : Progress} {line : List Nat} (hrun : m.runs[0]? = some run)
    (h : Spare m.tasks rest) :
    Rounds invoker stop rest.length { m with ready := rest ++ line } { m with ready := line } := by
  induction rest with
  | nil => exact .refl
  | cons p rest ih =>
    obtain ⟨⟨task, htask, hzero, hidle⟩, hrest⟩ := List.forall_mem_cons.1 h
    have hstep : ({ m with ready := p :: (rest ++ line) } : Machine).step invoker =
        some { m with ready := rest ++ line } := by
      have hact : ({ m with ready := p :: (rest ++ line) } : Machine).act invoker p task run =
          { m with ready := rest ++ line } := act_of_idle hidle
      unfold Machine.step
      dsimp only
      rw [htask]
      dsimp only
      rw [hzero, hrun]
      exact congrArg some hact
    exact .round (fun _ => run_of_step hstep) (ih hrest)

/-- The machine that waits for the activity that a task has called. -/
def Journal.dozing (j : Journal) (d : Definition) (tasks : List Task) (id before : Nat)
    (ready : List Nat) : Machine :=
  { j.pool d tasks ready with now := before, timers := [(j.elapsed, id)] }

/-- The time passes until the activity comes back. -/
theorem dozing_rounds {before : Nat} (hle : before ≤ j.elapsed) :
    Rounds invoker stop 1 (j.dozing d tasks id before []) (j.pool d tasks [id]) := by
  refine .round (fun fuel => ?_) .refl
  have hstep : (j.dozing d tasks id before []).step invoker = none := rfl
  have hwanted : (j.dozing d tasks id before []).wanted stop = false := by
    unfold Machine.wanted
    exact Bool.and_false stop
  have hlull : (j.dozing d tasks id before []).lull (Machine.wanted stop) none =
      .inr ((j.dozing d tasks id before []).passTo j.elapsed) := by
    have htime : (j.dozing d tasks id before []).nextTime? = some j.elapsed := by
      simp [Machine.nextTime?, Journal.dozing]
    unfold Machine.lull
    rw [hwanted, htime]
    rfl
  have hpass : (j.dozing d tasks id before []).passTo j.elapsed = j.pool d tasks [id] := by
    simp [Machine.passTo, Journal.dozing, Journal.pool, hle]
  rw [run_of_lull hstep, hlull, hpass]
  rfl

/-- An activity is called, and comes back. Those in line behind the task are still there, unless
they have left it in the meantime. -/
theorem call_pool (htask : tasks[id]? = some ⟨0, parent, frames, .enter step⟩) {c : Call}
    {invocation : Invocation} {reply : Reply} (hwork : step.work = .activity c)
    (hname : Text.blank c.activity = false)
    (hinv : invocation = ⟨c.activity, c.arguments.resolve j.store⟩)
    (hreply : reply = invoker j.calls invocation)
    (hspare : Spare (tasks.set id ⟨0, parent, .finish step :: frames,
      .receive step c reply.ending⟩) rest) :
    ∃ k line, (line = id :: rest ∨ line = [id]) ∧
      Rounds invoker stop (k + 1) (j.pool d tasks (id :: rest))
        (((j.start step).note (.call invocation reply.delay)).pool d (tasks.set id
          ⟨0, parent, .finish step :: frames, .receive step c reply.ending⟩) line) := by
  have hstep : (j.pool d tasks (id :: rest)).step invoker =
      some (((j.pool d tasks (id :: rest)).emit 0 (.stepStarted step.id step.work.kind)).call
        invoker id ⟨0, parent, frames, .enter step⟩ j.store step c) := by
    rw [step_pool htask, Machine.act_of_call rfl hwork hname]
  by_cases hdelay : reply.delay = 0
  · refine ⟨0, _, Or.inl rfl, .of_step (hstep.trans (congrArg some ?_))⟩
    subst hinv hreply
    simp [Machine.call, Journal.pool, Machine.emit, Machine.goInto, modify_eq_set htask, hdelay,
      Note.call?, Note.event?, Note.delay, Journal.start]
  · have hdoze : ((j.pool d tasks (id :: rest)).emit 0 (.stepStarted step.id step.work.kind)).call
        invoker id ⟨0, parent, frames, .enter step⟩ j.store step c =
          ((j.start step).note (.call invocation reply.delay)).dozing d (tasks.set id
            ⟨0, parent, .finish step :: frames, .receive step c reply.ending⟩) id j.elapsed
              rest := by
      subst hinv hreply
      simp [Machine.call, Journal.pool, Journal.dozing, Machine.emit, Machine.goInto,
        Machine.pause, modify_eq_set htask, hdelay, Note.call?, Note.event?, Note.delay,
        Journal.start]
    have hle : j.elapsed ≤ ((j.start step).note (.call invocation reply.delay)).elapsed := by
      simp [Journal.start, Note.delay]
    rw [hdoze] at hstep
    generalize (j.start step).note (.call invocation reply.delay) = j' at hle hstep ⊢
    generalize tasks.set id _ = tasks' at hspare hstep ⊢
    have hleave : Rounds invoker stop rest.length (j'.dozing d tasks' id j.elapsed (rest ++ []))
        (j'.dozing d tasks' id j.elapsed []) :=
      spare_rounds (m := j'.dozing d tasks' id j.elapsed rest) rfl hspare
    rw [List.append_nil] at hleave
    refine ⟨rest.length + 1, [id], Or.inr rfl, ?_⟩
    rw [Nat.add_comm (rest.length + 1) 1]
    exact (Rounds.of_step hstep).append (hleave.append (dozing_rounds hle))

/-- The result of an activity is kept, or its panic taken over. -/
theorem receive_pool {c : Call} {ending : Ending}
    (htask : tasks[id]? = some ⟨0, parent, frames, .receive step c ending⟩) :
    Rounds invoker stop 1 (j.pool d tasks (id :: rest))
      (match ending with
        | .panic payload => j.pool d
            (tasks.set id ⟨0, parent, frames, .leave (.panicked payload)⟩) (id :: rest)
        | .result r => ({ j with
            store := Assoc.insert step.id r.toValue
              (Machine.keepData c.resultVariable r j.store) } : Journal).pool d
                (tasks.set id ⟨0, parent, frames, .leave (if r.success then .done
                  else .failed (.activity c.activity r.message))⟩) (id :: rest)) := by
  refine .of_step ?_
  rw [step_pool htask]
  cases ending <;>
    simp [Machine.act, Machine.receive, Journal.pool, Machine.update, Machine.goOn,
      modify_eq_set htask, Journal.calls, Journal.elapsed, Journal.events]

/-- Something comes of every activity. -/
theorem perform_exists (invoker : Invoker) (step : Step) (c : Call) (j : Journal) :
    ∃ ended, perform invoker step c j = some ended := by
  unfold perform
  split
  · exact ⟨_, rfl⟩
  · dsimp only
    split <;> exact ⟨_, rfl⟩

/-- **An activity is performed.** -/
theorem perform_pool (htask : tasks[id]? = some ⟨0, parent, frames, .enter step⟩) {c : Call}
    (hwork : step.work = .activity c)
    (h : perform invoker step c (j.start step) = some (j', outcome))
    (hspare : ∀ task, Spare (tasks.set id task) rest) :
    ∃ k line, (line = id :: rest ∨ line = [id]) ∧
      Rounds invoker stop (k + 1) (j.pool d tasks (id :: rest)) (j'.pool d (tasks.set id
        ⟨0, parent, .finish step :: frames, .leave outcome⟩) line) := by
  unfold perform at h
  by_cases hname : Text.blank c.activity
  · rw [if_pos hname] at h
    cases h
    refine ⟨0, _, Or.inl rfl, report_pool htask ?_⟩
    simp only [Machine.act, Machine.enter, hwork, hname, if_true]
  · rw [if_neg hname] at h
    dsimp only at h
    have hcalls : (j.start step).calls = j.calls := by simp [Journal.start, Note.call?]
    have hstore : (j.start step).store = j.store := rfl
    rw [hcalls, hstore] at h
    generalize hinv : (⟨c.activity, c.arguments.resolve j.store⟩ : Invocation) = invocation at h
    generalize hreply : invoker j.calls invocation = reply at h
    obtain ⟨k, line, hline, hcall⟩ : ∃ k line, (line = id :: rest ∨ line = [id]) ∧
        Rounds invoker stop (k + 1) (j.pool d tasks (id :: rest)) (((j.start step).note
          (.call invocation reply.delay)).pool d (tasks.set id ⟨0, parent, .finish step :: frames,
            .receive step c reply.ending⟩) line) :=
      call_pool htask hwork (by simpa using hname) hinv.symm hreply.symm (hspare _)
    obtain ⟨rest', rfl⟩ : ∃ rest', line = id :: rest' := by
      rcases hline with rfl | rfl
      · exact ⟨rest, rfl⟩
      · exact ⟨[], rfl⟩
    refine ⟨k + 1, _, hline, hcall.append ?_⟩
    have hreceive : Rounds invoker stop 1 (((j.start step).note
        (.call invocation reply.delay)).pool d (tasks.set id ⟨0, parent, .finish step :: frames,
          .receive step c reply.ending⟩) (id :: rest')) _ :=
      receive_pool (List.getElem?_set_self (List.getElem?_eq_some_iff.1 htask).1)
    simp only [List.set_set] at hreceive
    cases hending : reply.ending with
    | panic payload =>
      rw [hending] at h hreceive
      cases h
      exact hreceive
    | result r =>
      rw [hending] at h hreceive
      cases h
      exact hreceive

/-! ### A task with a branch -/

/-- The only branch of a step is started in a task of its own, and the task of the step waits. -/
theorem fork_pool (htask : tasks[id]? = some ⟨0, parent, frames, .enter step⟩) {target : String}
    {first : Step} (hwork : step.work = .parallel [target]) (hfind : d.find? target = some first) :
    Rounds invoker stop 1 (j.pool d tasks (id :: rest)) ((j.start step).pool d
      (tasks.set id ⟨0, parent, .finish step :: frames, .join step 1 []⟩ ++
        [⟨0, some id, [], .enter first⟩]) (rest ++ [tasks.length, id])) := by
  have hresolve : Machine.resolveAll d [target] = .ok [first] := by
    simp [Machine.resolveAll, hfind, Except.map]
  refine .of_step ?_
  rw [step_pool htask]
  simp [Machine.act, Machine.enter, hwork, hresolve, Journal.pool, Machine.emit, Machine.fork,
    Machine.pause, modify_eq_set htask, Journal.start, Note.event?, Note.call?, Note.delay]

/-- A branch tells the task that waits for it about its end, and lines it up. -/
theorem notify_pool {branch missing : Nat}
    (hbranch : tasks[branch]? = some ⟨0, some id, [], .leave outcome⟩)
    (htask : tasks[id]? = some ⟨0, parent, frames, .join step missing []⟩) (hne : branch ≠ id)
    (hrest : rest = [] ∨ rest = [id]) :
    Rounds invoker stop 1 (j.pool d tasks (branch :: rest)) (j.pool d
      ((tasks.set branch ⟨0, some id, [], .stopped⟩).set id
        ⟨0, parent, frames, .join step missing [(branch, outcome)]⟩) [id]) := by
  have hstill : (tasks.set branch ⟨0, some id, [], .stopped⟩)[id]? =
      some ⟨0, parent, frames, .join step missing []⟩ :=
    (List.getElem?_set_ne hne).trans htask
  refine .of_step ?_
  rw [step_pool hbranch]
  rcases hrest with rfl | rfl <;>
    simp [Machine.act, Machine.leave, Machine.stop, Machine.notify, Machine.wake, Machine.goOn,
      Machine.pause, Journal.pool, modify_eq_set hbranch, hstill, modify_eq_set hstill]

/-- The task takes over what has become of its only branch. -/
theorem join_pool {branch : Nat} (hcalm : ∀ payload, outcome ≠ .panicked payload)
    (htask : tasks[id]? = some ⟨0, parent, frames, .join step 1 [(branch, outcome)]⟩) :
    Rounds invoker stop 1 (j.pool d tasks (id :: rest))
      (j.pool d (tasks.set id ⟨0, parent, frames, .leave outcome⟩) (id :: rest)) := by
  refine .of_step ?_
  rw [step_pool htask]
  cases outcome with
  | panicked payload => exact absurd rfl (hcalm payload)
  | _ => simp [Machine.act, Machine.join, Machine.goOn, Journal.pool, modify_eq_set htask]

/-- The only branch of a step is over, and the task of the step goes on. -/
theorem return_pool {branch : Nat} (hcalm : ∀ payload, outcome ≠ .panicked payload)
    (hbranch : tasks[branch]? = some ⟨0, some id, [], .leave outcome⟩)
    (htask : tasks[id]? = some ⟨0, parent, frames, .join step 1 []⟩) (hne : branch ≠ id)
    (hrest : rest = [] ∨ rest = [id]) :
    Rounds invoker stop 2 (j.pool d tasks (branch :: rest)) (j.pool d
      ((tasks.set branch ⟨0, some id, [], .stopped⟩).set id
        ⟨0, parent, frames, .leave outcome⟩) [id]) := by
  have hlt : id < (tasks.set branch ⟨0, some id, [], .stopped⟩).length := by
    simpa using lt_of_getElem? htask
  have htold : ((tasks.set branch ⟨0, some id, [], .stopped⟩).set id
      ⟨0, parent, frames, .join step 1 [(branch, outcome)]⟩)[id]? =
        some ⟨0, parent, frames, .join step 1 [(branch, outcome)]⟩ := List.getElem?_set_self hlt
  refine (notify_pool hbranch htask hne hrest).append (n := 1) ?_
  simpa only [List.set_set] using join_pool hcalm htold

/-! ### The beginning and the end of a run -/

/-- The run begins. -/
theorem launch_pool {input : Store} : Rounds invoker stop 1 (({} : Machine).launch d input)
    ((({ store := input } : Journal).note (.report (.runStarted d.name ()))).pool d
      [⟨0, none, [], match d.rootStep? with
        | some root => .enter root
        | none => .leave (.failed (.rootNotFound d.root))⟩] [0]) := .of_step rfl

/-- The machine whose run has ended. -/
def Journal.over (j : Journal) (d : Definition) (tasks : List Task) (outcome : Outcome) :
    Machine where
  now := j.elapsed
  runs := [{ definition := d, store := j.store, events := j.events, outcome := some outcome }]
  tasks := tasks
  calls := j.calls

/-- The task that began the run is the last one to work. -/
theorem stop_pool (htask : tasks[id]? = some ⟨0, none, [], .leave outcome⟩) :
    Rounds invoker stop 1 (j.pool d tasks [id])
      ((j.complete outcome).over d (tasks.set id ⟨0, none, [], .stopped⟩) outcome) := by
  refine .of_step ?_
  rw [step_pool htask]
  cases outcome <;>
    simp [Machine.act, Machine.leave, Machine.stop, Machine.goOn, Machine.pause, Machine.emit,
      Machine.finalEvent, Journal.pool, Journal.over, Journal.complete, modify_eq_set htask,
      Note.event?, Note.call?, Note.delay]

/-- A run whose tasks have all stopped is at its end. -/
theorem run_over :
    Machine.run invoker (Machine.wanted stop) none (fuel + 1) (j.over d tasks outcome) =
      some (j.over d tasks outcome) := by
  rw [run_of_lull rfl]
  unfold Machine.lull
  cases stop <;> rfl

theorem view_over : (j.over d tasks outcome).view = j.view outcome := rfl

/-! ### Runs that keep in step -/

/-- Whether two machines go on, each in some rounds, to two that are related again; or both come to
an end in a round, and what is seen of them then is related. -/
inductive Together (invoker : Invoker) (stop : Bool) (R : Machine → Machine → Prop)
    (Q : View → View → Prop) (m m' : Machine) : Prop
  | onward {k k' : Nat} {after after' : Machine} : Rounds invoker stop (k + 1) m after →
      Rounds invoker stop (k' + 1) m' after' → R after after' → Together invoker stop R Q m m'
  | ended {d d' : Definition} {j j' : Journal} {tasks tasks' : List Task}
      {outcome outcome' : Outcome} : Rounds invoker stop 1 m (j.over d tasks outcome) →
      Rounds invoker stop 1 m' (j'.over d' tasks' outcome') →
      Q (j.view outcome) (j'.view outcome') → Together invoker stop R Q m m'

variable {R : Machine → Machine → Prop} {Q : View → View → Prop}

theorem Together.swap (h : Together invoker stop R Q m m') :
    Together invoker stop (flip R) (flip Q) m' m := by
  cases h with
  | onward hrounds hrounds' hrelated => exact .onward hrounds' hrounds hrelated
  | ended hrounds hrounds' hrelated => exact .ended hrounds' hrounds hrelated

/-- **Where machines keep in step**, one of them comes to an end if the other one does, and what is
seen of them then is related. -/
theorem run_of_together (h : ∀ m m', R m m' → Together invoker stop R Q m m') (hm : R m m')
    (hrun : Machine.run invoker (Machine.wanted stop) none fuel m = some e) :
    ∃ fuel' e', Machine.run invoker (Machine.wanted stop) none fuel' m' = some e' ∧
      Q e.view e'.view := by
  -- each time the two are related, less fuel is left
  induction fuel using Nat.strong_induction_on generalizing m m' with
  | _ fuel ih =>
    cases h m m' hm with
    | onward hrounds hrounds' hrelated =>
      obtain ⟨rest, rfl, hrest⟩ := hrounds.run_sub hrun
      obtain ⟨fuel', e', hrun', hview⟩ := ih rest (by omega) hrelated hrest
      exact ⟨_, e', (hrounds'.run_add fuel').trans hrun', hview⟩
    | ended hrounds hrounds' hrelated =>
      obtain ⟨rest, rfl, hrest⟩ := hrounds.run_sub hrun
      cases rest with
      | zero => cases hrest
      | succ rest =>
        rw [run_over] at hrest
        cases hrest
        exact ⟨_, _, (hrounds'.run_add 1).trans run_over, hrelated⟩

end

end Flowgraph.Run

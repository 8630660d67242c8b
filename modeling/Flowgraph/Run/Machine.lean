import Flowgraph.Condition
import Flowgraph.Run.Event
import Flowgraph.Run.Invoker
import Flowgraph.Text.Basic

/-!
# The machine that runs workflows

A machine holds any number of runs and the tasks that work on them. A task walks the steps of
its run one after another and keeps the steps that it is inside of in a list of frames; each
branch of a parallel step is a task of its own. The tasks of one run share its variables.

Only one task works at a time. A task that can work is in the line `ready` and works, once it
is at the head, until it has to wait: for an activity to end or for its branches. Time only
passes while no task can work; it then jumps to the next moment a task waits for.

`Machine.step` is one small step of the task at the head of the line.
-/

set_option autoImplicit false

namespace Flowgraph.Run

/-- How the work of a step, or a whole task, ends. -/
inductive Outcome where
  | done
  | failed (failure : Failure)
  | panicked (payload : Payload)
  deriving DecidableEq

/-- What a task comes back to. -/
inductive Frame where
  /-- The end of a step's work. -/
  | finish (step : Step)
  /-- The steps of a sequence that are still to be done. -/
  | sequence (rest : List String)

/-- What a task does next. -/
inductive Control where
  /-- Begin its run. -/
  | start
  | enter (step : Step)
  | leave (outcome : Outcome)
  /-- Take the ending of the activity that a step has called. -/
  | receive (step : Step) (call : Call) (ending : Ending)
  /-- Wait for the branches of a step: how many are not taken yet, and the ones that have
  ended, in the order in which they did. -/
  | join (step : Step) (missing : Nat) (ended : List (Nat × Outcome))
  | stopped

/-- A task. -/
structure Task where
  /-- The run it works on. -/
  run : Nat
  /-- The task that waits for it as for one of its branches. -/
  parent : Option Nat
  frames : List Frame
  control : Control

/-- A run. -/
structure Progress where
  definition : Definition
  store : Store
  events : List (Event Unit) := []
  /-- How the run ended, once it has. -/
  outcome : Option Outcome := none

/-- Runs and the tasks that work on them. -/
structure Machine where
  /-- The time in milliseconds. -/
  now : Nat := 0
  runs : List Progress := []
  tasks : List Task := []
  /-- The tasks that can work, first come first served. -/
  ready : List Nat := []
  /-- When which task can work again, in the order in which they began to wait. -/
  timers : List (Nat × Nat) := []
  /-- The calls of activities so far. -/
  calls : List Invocation := []

namespace Machine

/-! ### Parts of a machine -/

/-- Reports an event of a run. -/
def emit (m : Machine) (run : Nat) (event : Event Unit) : Machine :=
  { m with runs := m.runs.modify run fun r => { r with events := r.events ++ [event] } }

/-- Changes the variables of a run. -/
def update (m : Machine) (run : Nat) (f : Store → Store) : Machine :=
  { m with runs := m.runs.modify run fun r => { r with store := f r.store } }

/-- Sets what a task does next. -/
def goOn (m : Machine) (task : Nat) (control : Control) : Machine :=
  { m with tasks := m.tasks.modify task fun t => { t with control := control } }

/-- Sets what a task comes back to and what it does next. -/
def goInto (m : Machine) (task : Nat) (frames : List Frame) (control : Control) : Machine :=
  { m with tasks := m.tasks.modify task fun t => { t with frames := frames, control := control } }

/-- Takes the task at the head of the line out of it. -/
def pause (m : Machine) : Machine := { m with ready := m.ready.tail }

/-- Puts a task at the end of the line unless it is in it. -/
def wake (m : Machine) (task : Nat) : Machine :=
  if task ∈ m.ready then m else { m with ready := m.ready ++ [task] }

/-- What a task does to follow a reference: a step that does not exist is passed over. -/
def follow (definition : Definition) (target : String) : Control :=
  match definition.find? target with
  | some step => .enter step
  | none => .leave .done

/-! ### Steps of a task -/

/-- The first of some ids that no step has, or all the steps. -/
def resolveAll (definition : Definition) : List String → Except String (List Step)
  | [] => .ok []
  | id :: rest =>
    match definition.find? id with
    | none => .error id
    | some step => (resolveAll definition rest).map (step :: ·)

/-- Starts a task for each branch, then lines up the parent once more and waits. -/
def fork (m : Machine) (id : Nat) (task : Task) (step : Step) (branches : List Step) : Machine :=
  let count := branches.length
  let children := branches.map fun b => (⟨task.run, some id, [], .enter b⟩ : Task)
  let ids := List.range' m.tasks.length count
  let m := m.pause
  { m with
    tasks := m.tasks.modify id (fun t =>
      { t with frames := .finish step :: task.frames, control := .join step count [] }) ++ children
    ready := m.ready ++ ids ++ [id] }

/-- Calls the activity of a step. An activity that takes no time does not interrupt the
task. -/
def call (m : Machine) (invoker : Invoker) (id : Nat) (task : Task) (store : Store)
    (step : Step) (c : Call) : Machine :=
  let invocation : Invocation := ⟨c.activity, c.arguments.resolve store⟩
  let reply := invoker m.calls invocation
  let m := { m with calls := m.calls ++ [invocation] }
  let m := m.goInto id (.finish step :: task.frames) (.receive step c reply.ending)
  if reply.delay = 0 then m
  else
    let m := m.pause
    { m with timers := m.timers ++ [(m.now + reply.delay, id)] }

/-- Begins a step. -/
def enter (m : Machine) (invoker : Invoker) (id : Nat) (task : Task) (run : Progress)
    (step : Step) : Machine :=
  let m := m.emit task.run (.stepStarted step.id step.work.kind)
  let into (control : Control) := m.goInto id (.finish step :: task.frames) control
  match step.work with
  | .activity c =>
    if Text.blank c.activity then into (.leave (.failed (.missingActivityName step.id)))
    else m.call invoker id task run.store step c
  | .sequence steps =>
    m.goInto id (.sequence steps :: .finish step :: task.frames) (.leave .done)
  | .parallel branches =>
    match resolveAll run.definition branches with
    | .error missing => into (.leave (.failed (.missingBranch step.id missing)))
    | .ok [] => into (.leave .done)
    | .ok steps => m.fork id task step steps
  | .condition choice =>
    let target := if Condition.holds choice.arguments run.store then choice.onSuccess
      else choice.onFailure
    into (match target with
      | some target => follow run.definition target
      | none => .leave .done)

/-- What a successful result does to the variables: its data, or the lack of it. -/
def keepData (target : Option String) (result : Activity.Result) (store : Store) : Store :=
  match target, result.success, result.data with
  | some name, true, some data => Assoc.insert name data store
  | some name, true, none => Assoc.erase name store
  | _, _, _ => store

/-- Records the result of an activity under its step and goes on with it. -/
def receive (m : Machine) (id : Nat) (task : Task) (step : Step) (c : Call) :
    Ending → Machine
  | .panic payload => m.goOn id (.leave (.panicked payload))
  | .result r =>
    -- the full result comes last, so it wins where a step keeps data under its own id
    let m := m.update task.run fun store =>
      Assoc.insert step.id r.toValue (keepData c.resultVariable r store)
    m.goOn id (.leave (if r.success then .done else .failed (.activity c.activity r.message)))

/-- Takes the branches that have ended, one at a time. The first that has not succeeded ends
the step; the others go on without anyone waiting for them. -/
def join (m : Machine) (id : Nat) (step : Step) (missing : Nat) :
    List (Nat × Outcome) → Machine
  | [] => m.pause
  | (_, .done) :: rest =>
    m.goOn id (if missing ≤ 1 then .leave .done else .join step (missing - 1) rest)
  | (_, .failed failure) :: _ => m.goOn id (.leave (.failed failure))
  | (branch, .panicked payload) :: _ =>
    m.goOn id (.leave (.failed (.branchPanicked step.id (Failure.panicNotice branch payload))))

/-- Tells a task that one of its branches has ended. -/
def notify (m : Machine) (parent branch : Nat) (outcome : Outcome) : Machine :=
  match m.tasks[parent]? with
  | some ⟨_, _, _, .join step missing ended⟩ =>
    (m.goOn parent (.join step missing (ended ++ [(branch, outcome)]))).wake parent
  | _ => m

/-- The status and the error text of a run that ends so; a panic is not reported. -/
def finalEvent : Outcome → Option (Event Unit)
  | .done => some (.runCompleted .succeeded () none)
  | .failed failure => some (.runCompleted .failed () (some failure.message))
  | .panicked _ => none

/-- Ends a task: its run if it is the first task of it, else the parent learns about it. -/
def stop (m : Machine) (id : Nat) (task : Task) (outcome : Outcome) : Machine :=
  let m := (m.goOn id .stopped).pause
  match task.parent with
  | some parent => m.notify parent id outcome
  | none =>
    let m := match finalEvent outcome with
      | some event => m.emit task.run event
      | none => m
    { m with runs := m.runs.modify task.run fun r => { r with outcome := some outcome } }

/-- Leaves the innermost frame of a task with an outcome. -/
def leave (m : Machine) (id : Nat) (task : Task) (run : Progress) (outcome : Outcome) :
    Machine :=
  match task.frames, outcome with
  | [], outcome => m.stop id task outcome
  | .finish step :: frames, .done =>
    let m := m.emit task.run (.stepFinished step.id step.work.kind .succeeded none)
    m.goInto id frames (match step.next with
      | some target => follow run.definition target
      | none => .leave .done)
  | .finish step :: frames, .failed failure =>
    let m := m.emit task.run
      (.stepFinished step.id step.work.kind .failed (some failure.message))
    m.goInto id frames (.leave (.failed failure))
  | .sequence (target :: rest) :: frames, .done =>
    m.goInto id (.sequence rest :: frames) (follow run.definition target)
  | _ :: frames, outcome => m.goInto id frames (.leave outcome)

/-- Begins a run at its root. -/
def begin (m : Machine) (id : Nat) (task : Task) (run : Progress) : Machine :=
  let m := m.emit task.run (.runStarted run.definition.name ())
  m.goOn id (match run.definition.rootStep? with
    | some step => .enter step
    | none => .leave (.failed (.rootNotFound run.definition.root)))

/-- One small step of a task. -/
def act (m : Machine) (invoker : Invoker) (id : Nat) (task : Task) (run : Progress) : Machine :=
  match task.control with
  | .start => m.begin id task run
  | .enter step => m.enter invoker id task run step
  | .leave outcome => m.leave id task run outcome
  | .receive step c ending => m.receive id task step c ending
  | .join step missing ended => m.join id step missing ended
  | .stopped => m.pause

/-- One small step of the task at the head of the line, if there is one. -/
def step (m : Machine) (invoker : Invoker) : Option Machine :=
  match m.ready with
  | [] => none
  | id :: _ =>
    match m.tasks[id]? with
    | none => some m.pause
    | some task =>
      match m.runs[task.run]? with
      | none => some m.pause
      | some run => some (m.act invoker id task run)

/-! ### Time -/

/-- The next time at which a task can work again. -/
def nextTime? (m : Machine) : Option Nat := (m.timers.map (·.1)).min?

/-- Lets the time pass and lines up the tasks that have waited long enough. -/
def passTo (m : Machine) (time : Nat) : Machine :=
  let due := (m.timers.filter (·.1 ≤ time)).map (·.2)
  { m with
    now := max m.now time
    ready := m.ready ++ due
    timers := m.timers.filter (time < ·.1) }

/-- Works, and lets time pass up to a limit if there is one, until no task can work and the
machine is as wanted. Out of `fuel`, nothing comes of it. -/
def run (invoker : Invoker) (wanted : Machine → Bool) (limit : Option Nat) :
    Nat → Machine → Option Machine
  | 0, _ => none
  | fuel + 1, m =>
    match m.step invoker with
    | some m => run invoker wanted limit fuel m
    | none =>
      -- the caller looks at the machine before any time passes
      if wanted m then some m
      else match m.nextTime?, limit with
        | some time, some limit =>
          if time ≤ limit then run invoker wanted (some limit) fuel (m.passTo time)
          else some (m.passTo limit)
        | some time, none => run invoker wanted none fuel (m.passTo time)
        | none, some limit => some (m.passTo limit)
        | none, none => some m

/-- Adds a run with a task that begins it. -/
def launch (m : Machine) (definition : Definition) (input : Store) : Machine :=
  { m with
    runs := m.runs ++ [{ definition := definition, store := input }]
    tasks := m.tasks ++ [⟨m.runs.length, none, [], .start⟩]
    ready := m.ready ++ [m.tasks.length] }

/-- Whether a run has ended or come to a stop. -/
def isOver (m : Machine) (run : Nat) : Bool :=
  (m.runs[run]?.bind (·.outcome)).isSome

end Machine

end Flowgraph.Run

import Flowgraph.Run.Machine

/-!
# Deeds

What the tasks of a run do, small step by small step, as far as it counts outside of the task
itself: steps that begin and end, calls and their answers, branches that are started, tasks that
are over. `Machine.deeds` reads off a machine what its next small step amounts to.

Everything that a small step does to the events, the calls and the variables of a run is
determined by its deeds (`Deed.event?`, `Deed.invocation?`, `Deed.effect`); that this is so is
shown in `Proofs/Run/Turn`.
-/

set_option autoImplicit false

namespace Flowgraph.Run

/-- What a task does in a small step, as far as it counts outside of the task. -/
inductive Deed where
  /-- The first task of a run sets out. -/
  | begun (workflow : String)
  /-- A step begins. -/
  | entered (step : Step)
  /-- The task turns to one of the references of the step that it is inside of. -/
  | turned (reference : Nat)
  /-- The activity of a step is called. -/
  | called (step : Step) (call : Call) (invocation : Invocation) (reply : Reply)
  /-- The activity of a step has come back with a result. -/
  | answered (step : Step) (call : Call) (result : Activity.Result)
  /-- A task is started for each branch of a step. -/
  | forked (step : Step) (branches : List Nat)
  /-- The work of a step is over; its next step is not part of it. -/
  | finished (step : Step) (outcome : Outcome)
  /-- The task of a branch is over. -/
  | ended (outcome : Outcome)
  /-- The first task of a run is over, and the run with it. -/
  | returned (outcome : Outcome)
  deriving DecidableEq

namespace Deed

/-- What is reported about a deed. -/
def event? : Deed → Option (Event Unit)
  | .begun workflow => some (.runStarted workflow ())
  | .entered step => some (.stepStarted step.id step.work.kind)
  | .finished step .done => some (.stepFinished step.id step.work.kind .succeeded none)
  | .finished step (.failed failure) =>
    some (.stepFinished step.id step.work.kind .failed (some failure.message))
  | .returned outcome => Machine.finalEvent outcome
  | .finished _ (.panicked _) | .turned _ | .called .. | .answered .. | .forked .. | .ended _ =>
    none

/-- That a step starts is reported where it is entered. -/
theorem event?_eq_started {deed : Deed} {id kind : String} :
    deed.event? = some (.stepStarted id kind) ↔
      ∃ step, deed = .entered step ∧ step.id = id ∧ step.work.kind = kind := by
  constructor
  · intro h
    cases deed with
    | entered step =>
      obtain ⟨hid, hkind⟩ := Event.stepStarted.inj (Option.some.inj h)
      exact ⟨step, rfl, hid, hkind⟩
    | finished step outcome => cases outcome <;> cases h
    | returned outcome => cases outcome <;> cases h
    | _ => cases h
  · rintro ⟨step, rfl, rfl, rfl⟩
    rfl

/-- The call that an invoker receives with a deed. -/
def invocation? : Deed → Option Invocation
  | .called _ _ invocation _ => some invocation
  | _ => none

/-- How a task comes to its end with a deed. -/
def ending? : Deed → Option Outcome
  | .ended outcome => some outcome
  | .returned outcome => some outcome
  | _ => none

/-- How a run comes to its end with a deed. -/
def verdict? : Deed → Option Outcome
  | .returned outcome => some outcome
  | _ => none

/-- What a deed does to the variables. Only answers change them: the data of a success, or the
lack of it, goes to the result variable, and then the whole result to the id of the step. -/
def effect : Deed → Store → Store
  | .answered step call result, store =>
    let kept := match call.resultVariable with
      | some name => if result.success then
          match result.data with
          | some data => Assoc.insert name data store
          | none => Assoc.erase name store
        else store
      | none => store
    Assoc.insert step.id result.toValue kept
  | _, store => store

end Deed

/-- Where a step stands whose sequence has `rest` left after it, among the references of the
sequence that the frames are inside of. -/
def Frame.place (rest : List String) : List Frame → Nat
  | .finish step :: _ => step.work.references.length - (rest.length + 1)
  | _ => 0

/-- What a task does with a step that it has entered. -/
def Deed.opening (step : Step) (invoker : Invoker) (calls : List Invocation) (tasks : Nat)
    (run : Progress) : List Deed :=
  match step.work with
  | .activity c =>
    if Text.blank c.activity then []
    else
      let invocation : Invocation := ⟨c.activity, c.arguments.resolve run.store⟩
      [.called step c invocation (invoker calls invocation)]
  | .sequence _ => []
  | .parallel ids =>
    match Machine.resolveAll run.definition ids with
    | .error _ => []
    | .ok [] => []
    | .ok branches => [.forked step (List.range' tasks branches.length)]
  | .condition choice =>
    if Condition.holds choice.arguments run.store then
      (choice.onSuccess.map fun _ => Deed.turned 0).toList
    else (choice.onFailure.map fun _ => Deed.turned choice.onSuccess.toList.length).toList

/-- What a task does when it leaves its innermost frame. -/
def Task.closing (task : Task) (outcome : Outcome) : List Deed :=
  match task.frames, outcome with
  | [], outcome => [if task.parent.isSome then .ended outcome else .returned outcome]
  | .finish step :: _, outcome => [.finished step outcome]
  | .sequence (_ :: rest) :: frames, .done => [.turned (Frame.place rest frames)]
  | _, _ => []

/-- What a task does in its next small step. -/
def Task.deeds (task : Task) (invoker : Invoker) (calls : List Invocation) (tasks : Nat)
    (run : Progress) : List Deed :=
  match task.control with
  | .start => [.begun run.definition.name]
  | .enter step => .entered step :: Deed.opening step invoker calls tasks run
  | .leave outcome => task.closing outcome
  | .receive step c (.result r) => [.answered step c r]
  | _ => []

/-- What the next small step of a machine amounts to, and the task whose turn it is. -/
def Machine.deeds (m : Machine) (invoker : Invoker) : Nat × List Deed :=
  match m.ready with
  | [] => (0, [])
  | id :: _ =>
    match m.tasks[id]? with
    | none => (id, [])
    | some task =>
      match m.runs[task.run]? with
      | none => (id, [])
      | some run => (id, task.deeds invoker m.calls m.tasks.length run)

/-- A run after some deeds. -/
def Progress.record (run : Progress) (deeds : List Deed) : Progress :=
  { run with
    events := run.events ++ deeds.filterMap Deed.event?
    store := deeds.foldl (fun store deed => deed.effect store) run.store
    outcome := (deeds.findSome? Deed.verdict?).or run.outcome }

end Flowgraph.Run

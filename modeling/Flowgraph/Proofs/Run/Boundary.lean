import Flowgraph.Activity.Registry
import Flowgraph.Proofs.Run.Blame
import Flowgraph.Proofs.Run.Replay
import Flowgraph.Proofs.Run.Within

/-!
# The error boundary of a registry

Whatever the activities of a registry do, its invoker answers every call with a result, with or
without a deadline (`Registry.exists_result`); the message of a failed result is one of a few
texts (`Registry.Tells`). A run on such an invoker does not panic, nor does any branch of it, and
every failure in it has an origin (`Origin`): the root is missing, a branch is missing, an
activity has no name, or the activity of a step has come back with a failed result. In the last
case the failure has the name of the activity and the message of that result.

The origin is found in the history of the run. What a failure stems from once, it stems from for
good, since histories only grow; so the invariants are those of `Proofs/Run/Within` for a
predicate that is read off the history (`Scene.Reaches.origins`), and one that ties the failure of
an activity step to a call of its own (`Scene.Reaches.charged`).
-/

set_option autoImplicit false

namespace Flowgraph

/-! ### What a registry tells -/

namespace Activity.Registry

open Run

/-- The invoker of a registry, with a deadline in milliseconds on every call or without one. -/
def guarded (registry : Registry) : Option Nat → Invoker
  | none => registry.invoker
  | some deadline => registry.invoker.within deadline

/-- Whether an activity that takes so long is cut off. -/
def CutOff (deadline : Option Nat) (delay : Nat) : Prop := ∃ t ∈ deadline, sleepLength t < delay

/-- The messages that a registry tells failures with. -/
inductive Tells (registry : Registry) (deadline : Option Nat) (earlier : List Invocation)
    (call : Invocation) : String → Prop
  /-- There is no such activity. -/
  | notFound : registry.handler? call.name = none →
      Tells registry deadline earlier call ("Activity '" ++ call.name ++ "' not found in registry")
  /-- The activity has not come back in time. -/
  | timedOut {handler : Handler} {t : Nat} : registry.handler? call.name = some handler →
      deadline = some t → CutOff deadline (handler earlier call.arguments).delay →
      Tells registry deadline earlier call
        ("Activity '" ++ call.name ++ "' timed out after " ++ secondsText t ++ "s")
  /-- The activity has returned an error. -/
  | error {handler : Handler} {message : String} : registry.handler? call.name = some handler →
      ¬ CutOff deadline (handler earlier call.arguments).delay →
      (handler earlier call.arguments).conclusion = .error message →
      Tells registry deadline earlier call message
  /-- The activity has panicked with a text. -/
  | panicText {handler : Handler} {message : String} :
      registry.handler? call.name = some handler →
      ¬ CutOff deadline (handler earlier call.arguments).delay →
      (handler earlier call.arguments).conclusion = .panic (.text message) →
      Tells registry deadline earlier call message
  /-- The activity has panicked with something else. -/
  | panicOpaque {handler : Handler} : registry.handler? call.name = some handler →
      ¬ CutOff deadline (handler earlier call.arguments).delay →
      (handler earlier call.arguments).conclusion = .panic .opaqueValue →
      Tells registry deadline earlier call "Unknown error"
  /-- The activity has reported a failure with an error. -/
  | failure {handler : Handler} {result : Result} {message : String} :
      registry.handler? call.name = some handler →
      ¬ CutOff deadline (handler earlier call.arguments).delay →
      (handler earlier call.arguments).conclusion = .result result → result.success = false →
      result.error = some message → Tells registry deadline earlier call message
  /-- The activity has reported a failure and no error. -/
  | undefined {handler : Handler} {result : Result} :
      registry.handler? call.name = some handler →
      ¬ CutOff deadline (handler earlier call.arguments).delay →
      (handler earlier call.arguments).conclusion = .result result → result.success = false →
      result.error = none → Tells registry deadline earlier call "undefined"

variable {registry : Registry} {deadline : Option Nat} {earlier : List Invocation}
  {call : Invocation} {handler : Handler}

theorem guarded_of_none (h : registry.handler? call.name = none) :
    registry.guarded deadline earlier call = ⟨0, .result (notFound call.name)⟩ := by
  have hinvoker : registry.invoker earlier call = ⟨0, .result (notFound call.name)⟩ := by
    simp [invoker, h]
  cases deadline with
  | none => exact hinvoker
  | some t => simp [guarded, Invoker.within, hinvoker]

/-- A registered activity that is in time. -/
theorem guarded_in_time (h : registry.handler? call.name = some handler)
    (htime : ¬ CutOff deadline (handler earlier call.arguments).delay) :
    registry.guarded deadline earlier call = ⟨(handler earlier call.arguments).delay,
      .result (handler earlier call.arguments).conclusion.toResult⟩ := by
  have hinvoker : registry.invoker earlier call = ⟨(handler earlier call.arguments).delay,
      .result (handler earlier call.arguments).conclusion.toResult⟩ := by
    simp [invoker, h]
  cases deadline with
  | none => exact hinvoker
  | some t =>
    have hle : (handler earlier call.arguments).delay ≤ sleepLength t := by
      simpa [CutOff] using htime
    simp [guarded, Invoker.within, hinvoker, hle]

/-- A registered activity that is cut off. -/
theorem guarded_cut_off (h : registry.handler? call.name = some handler) {t : Nat}
    (htime : CutOff (some t) (handler earlier call.arguments).delay) :
    registry.guarded (some t) earlier call =
      ⟨sleepLength t, .result (Run.timedOut call.name t)⟩ := by
  have hinvoker : registry.invoker earlier call = ⟨(handler earlier call.arguments).delay,
      .result (handler earlier call.arguments).conclusion.toResult⟩ := by
    simp [invoker, h]
  have hlt : ¬ (handler earlier call.arguments).delay ≤ sleepLength t := by
    simpa [CutOff] using htime
  simp [guarded, Invoker.within, hinvoker, hlt]

/-- **Every call comes back with a result**, and the message of a failed one is one that a
registry tells. -/
theorem exists_result (registry : Registry) (deadline : Option Nat) (earlier : List Invocation)
    (call : Invocation) : ∃ result, (registry.guarded deadline earlier call).ending =
      .result result ∧
        (result.success = false → Tells registry deadline earlier call result.message) := by
  cases h : registry.handler? call.name with
  | none =>
    rw [guarded_of_none h]
    exact ⟨_, rfl, fun _ => .notFound h⟩
  | some handler =>
    by_cases htime : CutOff deadline (handler earlier call.arguments).delay
    · obtain ⟨t, ht, -⟩ := id htime
      obtain rfl : deadline = some t := ht
      rw [guarded_cut_off h htime]
      exact ⟨_, rfl, fun _ => .timedOut h rfl htime⟩
    · rw [guarded_in_time h htime]
      refine ⟨_, rfl, fun hfailed => ?_⟩
      cases hconclusion : (handler earlier call.arguments).conclusion with
      | result result =>
        rw [hconclusion] at hfailed
        cases herror : result.error with
        | none =>
          have hmessage : result.message = "undefined" := by simp [Result.message, herror]
          rw [Conclusion.toResult, hmessage]
          exact .undefined h htime hconclusion hfailed herror
        | some message =>
          have hmessage : result.message = message := by simp [Result.message, herror]
          rw [Conclusion.toResult, hmessage]
          exact .failure h htime hconclusion hfailed herror
      | error message => exact .error h htime hconclusion
      | panic payload =>
        cases payload with
        | text message => exact .panicText h htime hconclusion
        | opaqueValue => exact .panicOpaque h htime hconclusion

theorem calm_guarded (registry : Registry) (deadline : Option Nat) :
    (registry.guarded deadline).Calm := fun earlier call =>
  (exists_result registry deadline earlier call).imp fun _ h => h.1

end Activity.Registry

namespace Run

open Machine (follow resolveAll)

/-! ### What failures stem from -/

section

variable {invoker : Invoker} {d : Definition} {history new : List Entry} {id : Nat} {step : Step}
  {c : Call} {result : Activity.Result} {failure : Failure}

/-- A task has called the activity of a step, and the invoker has answered with a failed result. -/
def FailedCall (invoker : Invoker) (history : List Entry) (id : Nat) (step : Step) (c : Call)
    (result : Activity.Result) : Prop :=
  ∃ before e after invocation, history = before ++ e :: after ∧ e.task = id ∧
    e.deed = .called step c invocation (invoker (invocations before) invocation) ∧
    invocation.name = c.activity ∧
    (invoker (invocations before) invocation).ending = .result result ∧ result.success = false

/-- What an activity step fails with: it has no name to call, or the call has failed. -/
inductive ActivityFault (invoker : Invoker) (history : List Entry) (id : Nat) (step : Step)
    (c : Call) : Failure → Prop
  | unnamed : Text.blank c.activity = true →
      ActivityFault invoker history id step c (.missingActivityName step.id)
  | failed {result : Activity.Result} : Text.blank c.activity = false →
      FailedCall invoker history id step c result →
      ActivityFault invoker history id step c (.activity c.activity result.message)

/-- What a failure stems from. -/
inductive Origin (invoker : Invoker) (d : Definition) (history : List Entry) : Failure → Prop
  /-- The root is missing. -/
  | lost : d.rootStep? = none → Origin invoker d history (.rootNotFound d.root)
  /-- A branch is missing. -/
  | missing {step : Step} {ids : List String} {id : String} : step ∈ d.steps →
      step.work = .parallel ids → resolveAll d ids = .error id →
      Origin invoker d history (.missingBranch step.id id)
  /-- A task has failed in an activity step. -/
  | activity {id : Nat} {step : Step} {c : Call} {failure : Failure} : step ∈ d.steps →
      step.work = .activity c → ActivityFault invoker history id step c failure →
      Origin invoker d history failure

theorem FailedCall.append (h : FailedCall invoker history id step c result) :
    FailedCall invoker (history ++ new) id step c result := by
  obtain ⟨before, e, after, invocation, rfl, hrest⟩ := h
  exact ⟨before, e, after ++ new, invocation, by simp, hrest⟩

theorem ActivityFault.append (h : ActivityFault invoker history id step c failure) :
    ActivityFault invoker (history ++ new) id step c failure := by
  cases h with
  | unnamed hblank => exact .unnamed hblank
  | failed hname hcall => exact .failed hname hcall.append

theorem Origin.append (h : Origin invoker d history failure) :
    Origin invoker d (history ++ new) failure := by
  cases h with
  | lost hroot => exact .lost hroot
  | missing hs hwork hall => exact .missing hs hwork hall
  | activity hs hwork hfault => exact .activity hs hwork hfault.append

theorem permits_origin : d.Permits (Origin invoker d history) where
  root hroot := .lost hroot
  unnamed _ hs _ hwork hblank :=
    have hfault : ActivityFault invoker history 0 _ _ _ := .unnamed hblank
    .activity hs hwork hfault
  missing _ hs _ _ hwork hall := .missing hs hwork hall

end

/-! ### Predicates that grow -/

section

variable {P Q : Failure → Prop}

theorem Outcome.Within.mono {outcome : Outcome} (h : outcome.Within P) (hPQ : ∀ f, P f → Q f) :
    outcome.Within Q := by
  cases outcome with
  | failed failure => exact hPQ failure h
  | _ => exact h

theorem Control.Within.mono {control : Control} (h : control.Within P) (hPQ : ∀ f, P f → Q f) :
    control.Within Q := by
  cases control with
  | leave outcome => exact Outcome.Within.mono h hPQ
  | join step missing ended => exact fun news hnews => (h news hnews).mono hPQ
  | _ => exact h

theorem Scene.Within.mono {x : Scene} (h : x.Within P) (hPQ : ∀ f, P f → Q f) : x.Within Q where
  controls id task htask := (h.controls id task htask).mono hPQ
  entries e he outcome houtcome := (h.entries e he outcome houtcome).mono hPQ
  runs run hrun outcome houtcome := (h.runs run hrun outcome houtcome).mono hPQ

end

/-! ### How an activity step is left -/

section

variable {invoker : Invoker} {d : Definition} {calls : List Invocation} {run : Progress}
  {frames rest : List Frame} {control : Control} {deeds : List Deed} {trail : Trail} {step : Step}
  {c : Call} {failure : Failure}

/-- Where a failure comes from that a task leaves an activity step with. -/
theorem Advance.faults
    (h : Advance invoker calls run frames control deeds (.finish step :: rest)
      (.leave (.failed failure)))
    (hstack : Stack d frames trail.inside) (hplaced : control.Placed d trail frames)
    (hwork : step.work = .activity c) :
    (Text.blank c.activity = true ∧ failure = .missingActivityName step.id) ∨
      ∃ result, control = .receive step c (.result result) ∧ result.success = false ∧
        failure = .activity c.activity result.message := by
  generalize hto : Control.leave (.failed failure) = control' at h
  generalize hafter : Frame.finish step :: rest = frames' at h
  cases h with
  | lost =>
    obtain ⟨-, rfl⟩ := hplaced
    cases hafter
  | unnamed hactivity hblank =>
    cases hafter
    cases hto
    rw [hwork] at hactivity
    cases hactivity
    exact Or.inl ⟨hblank, rfl⟩
  | missing hother =>
    cases hafter
    rw [hwork] at hother
    cases hother
  | choose | next | child => exact absurd hto.symm (follow_ne_failed _ _)
  | finish =>
    -- only conditions and sequences have steps begun inside of them
    subst hafter
    obtain ⟨choice, hchoice⟩ := hstack.open_of_finish
    rw [hwork] at hchoice
    cases hchoice
  | closed =>
    subst hafter
    cases hstack with
    | sequence hsequence =>
      rw [hwork] at hsequence
      cases hsequence
  | @answer _ _ _ result =>
    obtain ⟨⟨other, rfl⟩, hcall⟩ := hplaced
    cases hafter
    rw [hwork] at hcall
    cases hcall
    cases hsuccess : result.success with
    | true =>
      rw [hsuccess] at hto
      cases hto
    | false =>
      rw [hsuccess] at hto
      cases hto
      exact Or.inr ⟨result, rfl, hsuccess, rfl⟩
  | broken =>
    obtain ⟨⟨other, rfl⟩, ids, branches, hparallel, -⟩ := hplaced
    cases hafter
    rw [hwork] at hparallel
    cases hparallel
  | _ => cases hto

/-- A task that finishes a step as a failure was on its way out of it. -/
theorem Turn.leaving_of_finished {m m' : Machine} {id : Nat} (h : Turn invoker m id deeds m')
    (hmem : Deed.finished step (.failed failure) ∈ deeds) :
    ∃ task rest, m.tasks[id]? = some task ∧ task.control = .leave (.failed failure) ∧
      task.frames = .finish step :: rest := by
  cases h with
  | idle => cases hmem
  | goes htask hrun hadv =>
    obtain ⟨hleave, -, hframes, -⟩ := hadv.finished_failing hmem
    exact ⟨_, _, htask, hleave, hframes⟩
  | forks | ends | returns => simp at hmem

end

namespace Scene

variable {invoker : Invoker} {d : Definition} {input : Store} {x : Scene} {m m' : Machine}
  {l : Ledger} {id : Nat} {deeds : List Deed} {task : Task} {step : Step} {c : Call}
  {failure : Failure}

/-! ### Calls that have failed -/

/-- A task that is to take a failed result has called for it. -/
theorem Reaches.failedCall (hcalm : invoker.Calm) (h : Reaches invoker (opening d input) x)
    (htask : x.machine.tasks[id]? = some task) {result : Activity.Result}
    (hcontrol : task.control = .receive step c (.result result)) (hfailed : result.success = false) :
    step ∈ d.steps ∧ step.work = .activity c ∧
      ActivityFault invoker x.ledger.history id step c (.activity c.activity result.message) := by
  obtain ⟨trail, htrail⟩ := h.placed.exists_trail htask
  have hpaired := h.paired hcalm id task trail htask htrail
  rw [hcontrol] at hpaired
  obtain ⟨e, he, step', c', invocation, reply, hdeed, heq, -⟩ := hpaired.awaits trivial
  obtain ⟨rfl, rfl, hending⟩ := Control.receive.inj heq
  obtain ⟨hmem, hown⟩ := List.mem_filter.1 (List.mem_of_mem_getLast? he)
  obtain ⟨before, after, hhistory⟩ := List.append_of_mem hmem
  obtain ⟨hat, hwork, hinvocation, hreply⟩ := h.faithful before e after hhistory _ _ _ _ hdeed
  have hlocated := (h.placed.entries e hmem).2
  rw [hdeed] at hlocated
  rw [hreply] at hdeed hending
  refine ⟨Definition.at?_mem hat, hwork, .failed hlocated.2.2 ?_⟩
  exact ⟨before, e, after, invocation, hhistory, by simpa using hown, hdeed,
    by rw [hinvocation], hending.symm, hfailed⟩

/-- **Every failure in a run has an origin.** -/
theorem Reaches.origins (hcalm : invoker.Calm) (h : Reaches invoker (opening d input) x) :
    x.Within (Origin invoker d x.ledger.history) := by
  refine h.induct (within_opening d input) ?turn ?same
  case turn =>
    intro m m' l id deeds hreach hwithin hturn
    obtain ⟨trail, -, hhistory⟩ := hreach.placed.history_record hturn
    dsimp only at hwithin ⊢
    rw [hhistory]
    refine (hwithin.mono fun f hf => hf.append).turn hreach.placed hcalm permits_origin ?_ hturn
    intro old hold step c result hcontrol hfailed
    obtain ⟨hs, hwork, hfault⟩ := hreach.failedCall hcalm hold hcontrol hfailed
    exact .activity hs hwork hfault.append
  case same =>
    intro m m' l htasks hruns _ hwithin
    exact hwithin.same htasks hruns

/-! ### Steps that fail -/

/-- Whoever fails in an activity step does so for a fault of that step. -/
structure Charged (invoker : Invoker) (x : Scene) : Prop where
  /-- A task that leaves the step with a failure. -/
  leaving : ∀ (id : Nat) (task : Task) (step : Step) (c : Call) (failure : Failure)
    (rest : List Frame), x.machine.tasks[id]? = some task →
    task.control = .leave (.failed failure) → task.frames = .finish step :: rest →
    step.work = .activity c → ActivityFault invoker x.ledger.history id step c failure
  /-- A step that is over. -/
  finished : ∀ e ∈ x.ledger.history, ∀ (step : Step) (c : Call) (failure : Failure),
    e.deed = .finished step (.failed failure) → step.work = .activity c →
    ActivityFault invoker x.ledger.history e.task step c failure

theorem Charged.own (h : Charged invoker ⟨m, l⟩) (hcalm : invoker.Calm)
    (hreach : Reaches invoker (opening d input) ⟨m, l⟩) {trail : Trail}
    (hown : Own invoker m id deeds task) {rest : List Frame}
    (hleave : task.control = .leave (.failed failure)) (hframes : task.frames = .finish step :: rest)
    (hwork : step.work = .activity c) :
    ActivityFault invoker (l.history ++ trail.entries id deeds) id step c failure := by
  cases hown with
  | idle htask => exact (h.leaving id _ step c failure rest htask hleave hframes hwork).append
  | forks => cases hleave
  | stops => cases hleave
  | goes htask hrun hadv =>
    obtain ⟨-, trail', hstack, hcontrol⟩ := hreach.placed.exists_placed htask
    dsimp only at hleave hframes
    rw [hleave, hframes] at hadv
    rcases hadv.faults hstack hcontrol hwork with ⟨hblank, rfl⟩ | ⟨result, hc, hfailed, rfl⟩
    · exact .unnamed hblank
    · exact (hreach.failedCall hcalm htask hc hfailed).2.2.append

theorem Charged.turn (h : Charged invoker ⟨m, l⟩) (hcalm : invoker.Calm)
    (hreach : Reaches invoker (opening d input) ⟨m, l⟩) (hturn : Turn invoker m id deeds m') :
    Charged invoker ⟨m', l.record id deeds⟩ := by
  obtain ⟨trail, -, hhistory⟩ := hreach.placed.history_record hturn
  constructor
  case leaving =>
    intro j task step c failure rest htask hleave hframes hwork
    dsimp only at htask ⊢
    rw [hhistory]
    by_cases hj : j = id
    · subst hj
      exact h.own hcalm hreach (hturn.own htask) hleave hframes hwork
    · cases hturn.fate hj htask with
      | kept hold => exact (h.leaving j _ step c failure rest hold hleave hframes hwork).append
      | told hold =>
        exact (h.leaving j _ step c failure rest hold (Control.told_eq_leave hleave) hframes
          hwork).append
      | born => cases hleave
  case finished =>
    intro e he step c failure hdeed hwork
    dsimp only at he ⊢
    rw [hhistory] at he ⊢
    rcases List.mem_append.1 he with he | he
    · exact (h.finished e he step c failure hdeed hwork).append
    · -- the task has left the step just now, so it was on its way to
      have hmem : Deed.finished step (.failed failure) ∈ deeds :=
        Trail.exists_mem_entries.1 ⟨e, he, hdeed⟩
      rw [Trail.task_of_mem_entries he]
      obtain ⟨old, rest, hold, hleave, hframes⟩ := hturn.leaving_of_finished hmem
      exact (h.leaving id old step c failure rest hold hleave hframes hwork).append

/-- **Whatever activity step fails, fails for a fault of its own.** -/
theorem Reaches.charged (hcalm : invoker.Calm) (h : Reaches invoker (opening d input) x) :
    x.Charged invoker := by
  refine h.induct ?start ?turn ?same
  case start =>
    refine ⟨fun id task step c failure rest htask hleave => ?_, ?_⟩
    · rw [(task_of_opening htask).2] at hleave
      cases hleave
    · rw [history_opening]
      exact List.forall_mem_nil _
  case turn =>
    intro m m' l id deeds hreach hcharged hturn
    exact hcharged.turn hcalm hreach hturn
  case same =>
    rintro m m' l htasks - - ⟨hleaving, hfinished⟩
    dsimp only at *
    rw [← htasks] at hleaving
    exact ⟨hleaving, hfinished⟩

/-- What is known of a run whose calls all come back with a result. -/
structure Sheltered (invoker : Invoker) (d : Definition) (x : Scene) : Prop where
  /-- The run does not panic. -/
  run_calm : ∀ run ∈ x.machine.runs, ∀ payload, run.outcome ≠ some (.panicked payload)
  /-- No step and no branch panics. -/
  calm : ∀ e ∈ x.ledger.history, ∀ payload, e.deed.outcome? ≠ some (.panicked payload)
  /-- The run does not fail because a branch has panicked. -/
  run_whole : ∀ run ∈ x.machine.runs, ∀ stepId message,
    run.outcome ≠ some (.failed (.branchPanicked stepId message))
  /-- No step and no branch fails because a branch has panicked. -/
  whole : ∀ e ∈ x.ledger.history, ∀ stepId message,
    e.deed.outcome? ≠ some (.failed (.branchPanicked stepId message))
  /-- If the run fails, then for want of a root or of a branch, or in an activity step. -/
  origin : ∀ run ∈ x.machine.runs, ∀ failure, run.outcome = some (.failed failure) →
    Origin invoker d x.ledger.history failure
  /-- An activity step that fails has no name to call, or its call has failed. -/
  steps : ∀ e ∈ x.ledger.history, ∀ step c failure, e.deed = .finished step (.failed failure) →
    step.work = .activity c → ActivityFault invoker x.ledger.history e.task step c failure

theorem Reaches.sheltered (hcalm : invoker.Calm) (h : Reaches invoker (opening d input) x) :
    x.Sheltered invoker d := by
  have hwithin := h.origins hcalm
  -- there is no origin for the failure of a branch that panics
  have hbranch : ∀ stepId message,
      ¬ Origin invoker d x.ledger.history (.branchPanicked stepId message) := by
    intro stepId message horigin
    cases horigin with
    | activity _ _ hfault => cases hfault
  refine ⟨?run_calm, ?calm, ?run_whole, ?whole, ?origin, (h.charged hcalm).finished⟩
  case run_calm => exact fun run hrun payload houtcome => hwithin.runs run hrun _ houtcome
  case calm => exact fun e he payload houtcome => hwithin.entries e he _ houtcome
  case run_whole =>
    exact fun run hrun stepId message houtcome =>
      hbranch stepId message (hwithin.runs run hrun _ houtcome)
  case whole =>
    exact fun e he stepId message houtcome =>
      hbranch stepId message (hwithin.entries e he _ houtcome)
  case origin => exact fun run hrun failure houtcome => hwithin.runs run hrun _ houtcome

end Scene

open Activity (Registry)

/-- **A registry is an error boundary.** Every call comes back with a result, whatever its activity
does; runs do not panic, and if they fail in an activity step that has a name, then with that name
and the message of a failed result. -/
theorem registry_shelters (registry : Registry) (deadline : Option Nat) (d : Definition)
    (input : Store) :
    (∀ earlier call, ∃ result, (registry.guarded deadline earlier call).ending = .result result ∧
      (result.success = false → registry.Tells deadline earlier call result.message)) ∧
    ∀ x, Scene.Reaches (registry.guarded deadline) (Scene.opening d input) x →
      x.Sheltered (registry.guarded deadline) d :=
  ⟨registry.exists_result deadline, fun _ h => h.sheltered (registry.calm_guarded deadline)⟩

/-- A workflow with a branch that panics and one that is too slow. -/
def fragile : Definition where
  name := "fragile"
  root := "both"
  steps := [
    { id := "both", work := .parallel ["slow", "bad"] },
    { id := "slow", work := .activity { activity := "sleep" } },
    { id := "bad", work := .activity { activity := "explode" } }]

/-- The activities of that workflow. -/
def explosives : Registry := [
  ("sleep", { handler := fun _ _ => ⟨50, .result (.ok .null)⟩ }),
  ("explode", { handler := fun _ _ => ⟨3, .panic (.text "handler blew up")⟩ })]

/-- It fails with the text of the panic; the slow branch is cut off later. -/
theorem registry_shelters_fragile :
    ((Scene.next (explosives.guarded (some 10)))^[20] (Scene.opening fragile [])).Sheltered
        (explosives.guarded (some 10)) fragile ∧
      ((Scene.next (explosives.guarded (some 10)))^[20]
        (Scene.opening fragile [])).machine.runs.map (·.outcome) =
          [some (.failed (.activity "explode" "handler blew up"))] :=
  ⟨(registry_shelters explosives (some 10) fragile []).2 _ (Scene.reaches_iterate 20), by rfl⟩

/-- A workflow whose activity has no name. -/
def nameless : Definition where
  name := "nameless"
  root := "a"
  steps := [{ id := "a", work := .activity {} }]

/-- Not all activity steps that fail have called an activity. -/
theorem activity_fails_without_call :
    ¬ ∀ (registry : Registry) (deadline : Option Nat) (d : Definition) (input : Store) (x : Scene),
      Scene.Reaches (registry.guarded deadline) (Scene.opening d input) x →
      ∀ e ∈ x.ledger.history, ∀ step c failure, e.deed = .finished step (.failed failure) →
        step.work = .activity c → ∃ message, failure = .activity c.activity message := by
  intro hall
  have hreach : Scene.Reaches (Registry.guarded [] none) (Scene.opening nameless [])
      ((Scene.next (Registry.guarded [] none))^[4] (Scene.opening nameless [])) :=
    Scene.reaches_iterate 4
  have hentry : ((Scene.next (Registry.guarded [] none))^[4]
      (Scene.opening nameless [])).ledger.history[2]? = some ⟨0, [],
        .finished { id := "a", work := .activity {} } (.failed (.missingActivityName "a"))⟩ := by
    rfl
  obtain ⟨message, h⟩ := hall [] none nameless [] _ hreach _ (List.mem_of_getElem? hentry)
    _ _ _ rfl rfl
  cases h

end Run

end Flowgraph

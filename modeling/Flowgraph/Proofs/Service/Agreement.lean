import Flowgraph.Proofs.Run.Endings
import Flowgraph.Proofs.Service.Bookkeeping

/-!
# Status and result

The status of a run is read off the end of the run, and a call for its result is answered once the
run is over. The end of a run is for good, so a status other than "running" never changes again,
and a result that was given is in accord with every later status (`Desk.Agreement`).

There is one way to end in which the two do not say the same: when the first task of a run panics,
the call is answered with a failure, and the status remains "running" (`Accord.stopped`). With a
calm invoker this does not come about.
-/

set_option autoImplicit false

namespace Flowgraph.Service

open Relation (ReflTransGen)
open Run

/-- What is said of a run with an id that has ended: the end, the answer to a call for the result,
and the status. -/
inductive Accord (id : String) : Outcome → Except Error Final → RunStatus → Prop
  | succeeded (final : Final) : Accord id .done (.ok final) .succeeded
  | failed (failure : Failure) :
      Accord id (.failed failure) (.error (.runFailed failure.message)) .failed
  | stopped (payload : Payload) :
      Accord id (.panicked payload)
        (.error (.runFailed ("Workflow '" ++ id ++ "' stopped before reporting a result")))
        .running

variable {s s' : Service} {id : String} {r : Request} {run : Nat} {ended : Outcome}

theorem statusOf_eq (s : Service) (run : Nat) : s.statusOf run =
    match s.machine.outcome? run with
    | some .done => .succeeded
    | some (.failed _) => .failed
    | _ => .running := rfl

/-- The answer and the status that a run gives at one time are in accord. -/
theorem accord_of_outcome? (h : s.machine.outcome? run = some ended) (id : String) :
    Accord id ended (s.outcome id run) (s.statusOf run) := by
  obtain ⟨progress, hprogress, houtcome⟩ := Option.bind_eq_some_iff.1 h
  obtain ⟨definition, store, events, outcome⟩ := progress
  cases houtcome
  rw [statusOf_eq, h, outcome, hprogress]
  cases ended with
  | done => exact .succeeded _
  | failed failure => exact .failed failure
  | panicked payload => exact .stopped payload

/-- The status depends on the end of the run only. -/
theorem statusOf_congr (h : s'.machine.outcome? run = s.machine.outcome? run) :
    s'.statusOf run = s.statusOf run := by
  rw [statusOf_eq, statusOf_eq, h]

/-- A run with a status other than "running" has ended. -/
theorem exists_outcome? (h : s.statusOf run ≠ .running) :
    ∃ outcome, s.machine.outcome? run = some outcome := by
  rw [statusOf_eq] at h
  cases houtcome : s.machine.outcome? run with
  | none => simp [houtcome] at h
  | some outcome => exact ⟨outcome, rfl⟩

namespace Desk

variable {invoker : Invoker} {registry : Activity.Registry} {x y : Desk}

/-! ### What is kept on the way -/

/-- The machine of the service is launched the runs that are asked for, and gets on. -/
theorem Moves.machine_cases {progress : Machine → Machine → Prop} (h : Moves progress x y) :
    (begun y.acts = begun x.acts ∧ y.service.machine = x.service.machine) ∨
      (∃ r : Request, begun y.acts = begun x.acts ++ [r] ∧
        y.service.machine = x.service.machine.launch r.definition (r.input.getD [])) ∨
      (begun y.acts = begun x.acts ∧ progress x.service.machine y.service.machine) := by
  cases h with
  | start r clock bits =>
    unfold Desk.start
    split
    case h_1 response s hstart =>
      obtain ⟨-, k, -, -, rfl⟩ := start_eq_ok hstart
      exact Or.inr (Or.inl ⟨r, rfl, rfl⟩)
    case h_2 => exact Or.inl ⟨List.append_nil _, rfl⟩
  | forget id =>
    unfold Desk.forget
    split
    case h_1 status s hforget =>
      obtain ⟨run, -, -, rfl⟩ := forget_eq_ok_iff.1 hforget
      exact Or.inl ⟨List.append_nil _, rfl⟩
    case h_2 => exact Or.inl ⟨List.append_nil _, rfl⟩
  | ask | call | answer => exact Or.inl ⟨List.append_nil _, rfl⟩
  | progress hprogress => exact Or.inr (Or.inr ⟨rfl, hprogress⟩)

/-- **Induction over the machine of a service.** What holds of a machine without runs, and is kept
by launches and by the progress of the runs, holds of the machine at any time. -/
theorem Reaches.holds {progress : Machine → Machine → Prop} {P : Machine → Prop}
    (h : Reaches progress (opened registry) x) (hempty : P {})
    (hlaunch : ∀ m d input, P m → P (m.launch d input))
    (hprogress : ∀ m m', progress m m' → P m → P m') : P x.service.machine := by
  induction h with
  | refl => exact hempty
  | tail _ hmoves ih =>
    rcases hmoves.machine_cases with ⟨-, hsame⟩ | ⟨r, -, hnew⟩ | ⟨-, hmove⟩
    · rwa [hsame]
    · rw [hnew]
      exact hlaunch _ _ _ ih
    · exact hprogress _ _ hmove ih

theorem Moves.rooted (h : Moves (Machine.Moves invoker) x y) (hx : x.service.machine.Rooted) :
    y.service.machine.Rooted := by
  rcases h.machine_cases with ⟨-, hsame⟩ | ⟨r, -, hlaunch⟩ | ⟨-, hmoves⟩
  · rw [hsame]
    exact hx
  · rw [hlaunch]
    exact hx.launch _ _
  · exact hx.moves hmoves

theorem Reaches.rooted (h : Reaches (Machine.Moves invoker) (opened registry) x) :
    x.service.machine.Rooted :=
  h.holds Machine.rooted_empty (fun _ d input hm => hm.launch d input) fun _ _ hmoves hm =>
    hm.moves hmoves

theorem Reaches.unshaken (hcalm : invoker.Calm)
    (h : Reaches (Machine.Moves invoker) (opened registry) x) :
    x.service.machine.Unshaken :=
  h.holds Machine.unshaken_empty (fun _ d input hm => hm.launch d input) fun _ _ hmoves hm =>
    hm.moves hcalm hmoves

theorem Moves.outcome_kept (h : Moves (Machine.Moves invoker) x y)
    (hx : x.service.machine.Rooted) (houtcome : x.service.machine.outcome? run = some ended) :
    y.service.machine.outcome? run = some ended := by
  rcases h.machine_cases with ⟨-, hsame⟩ | ⟨r, -, hlaunch⟩ | ⟨-, hmoves⟩
  · rw [hsame, houtcome]
  · rw [hlaunch, outcome?_launch, houtcome]
  · exact hx.outcome_moves hmoves houtcome

/-- **A run that has ended has ended for good.** -/
theorem Reaches.outcome_kept (h : Reaches (Machine.Moves invoker) x y)
    (hx : x.service.machine.Rooted) (houtcome : x.service.machine.outcome? run = some ended) :
    y.service.machine.outcome? run = some ended := by
  have hboth : y.service.machine.Rooted ∧ y.service.machine.outcome? run = some ended := by
    induction h with
    | refl => exact ⟨hx, houtcome⟩
    | tail _ hmoves ih => exact ⟨hmoves.rooted ih.1, hmoves.outcome_kept ih.1 ih.2⟩
  exact hboth.2

/-- **What was answered is in accord with the status** at any later time. -/
theorem Reaches.accord (h : Reaches (Machine.Moves invoker) (opened registry) x)
    {answer : Except Error Final} (hanswered : .answered id run answer ∈ x.acts) :
    ∃ ended, x.service.machine.outcome? run = some ended ∧
      Accord id ended answer (x.service.statusOf run) := by
  obtain ⟨later, earlier, hacts⟩ := List.append_of_mem hanswered
  obtain ⟨y, hy, hlater, -, hover, rfl⟩ := h.given hacts
  obtain ⟨ended, houtcome⟩ := Option.isSome_iff_exists.1 hover
  have hkept := hlater.outcome_kept hy.rooted houtcome
  refine ⟨ended, hkept, ?_⟩
  rw [statusOf_congr (hkept.trans houtcome.symm)]
  exact accord_of_outcome? houtcome id

/-! ### Agreement -/

/-- How the answers to the calls for results and the statuses go together, for the ids that stand
for a run. -/
structure Agreement (invoker : Invoker) (x : Desk) : Prop where
  /-- A status other than "running" never changes. -/
  lasting : ∀ (y : Desk) (id : String) (r : Request) (run : Nat) (status : RunStatus),
    Reaches (Machine.Moves invoker) x y → StandsFor x.acts id r run → StandsFor y.acts id r run →
    x.service.status id = .ok status → status ≠ .running → y.service.status id = .ok status
  /-- After a call has been answered, the status, and what is said by forgetting, is in accord with
  the answer and with the end of the run. -/
  accord : ∀ (id : String) (r : Request) (run : Nat) (answer : Except Error Final),
    .answered id run answer ∈ x.acts → StandsFor x.acts id r run →
    ∃ ended status, x.service.machine.outcome? run = some ended ∧ Accord id ended answer status ∧
      x.service.status id = .ok status ∧ ∃ s, x.service.forget id = .ok (status, s)
  /-- With a calm invoker the status after an answer is the one that the answer says. -/
  calm : invoker.Calm → ∀ (id : String) (r : Request) (run : Nat) (answer : Except Error Final),
    .answered id run answer ∈ x.acts → StandsFor x.acts id r run →
    (∃ final, answer = .ok final ∧ x.service.status id = .ok .succeeded) ∨
      ∃ message, answer = .error (.runFailed message) ∧ x.service.status id = .ok .failed

theorem Reaches.lasting (h : Reaches (Machine.Moves invoker) (opened registry) x)
    (hlater : Reaches (Machine.Moves invoker) x y) {status : RunStatus}
    (hstands : StandsFor x.acts id r run) (hstands' : StandsFor y.acts id r run)
    (hstatus : x.service.status id = .ok status) (hended : status ≠ .running) :
    y.service.status id = .ok status := by
  have hkept := Reaches.kept (keeping_moves invoker) h
  have hkept' := Reaches.kept (keeping_moves invoker) (h.trans hlater)
  rw [hkept.status_of_standsFor hstands] at hstatus
  obtain rfl : x.service.statusOf run = status := Except.ok.inj hstatus
  obtain ⟨ended, houtcome⟩ := exists_outcome? hended
  have hlast := hlater.outcome_kept h.rooted houtcome
  rw [hkept'.status_of_standsFor hstands', statusOf_congr (hlast.trans houtcome.symm)]

theorem Reaches.agrees (h : Reaches (Machine.Moves invoker) (opened registry) x)
    {answer : Except Error Final} (hanswered : .answered id run answer ∈ x.acts)
    (hstands : StandsFor x.acts id r run) :
    ∃ ended status, x.service.machine.outcome? run = some ended ∧ Accord id ended answer status ∧
      x.service.status id = .ok status ∧ ∃ s, x.service.forget id = .ok (status, s) := by
  obtain ⟨ended, houtcome, haccord⟩ := h.accord hanswered
  have hkept := Reaches.kept (keeping_moves invoker) h
  obtain ⟨s, hforget, -⟩ := hkept.forget_of_standsFor hstands
  exact ⟨ended, _, houtcome, haccord, hkept.status_of_standsFor hstands, s, hforget⟩

/-- **Status and result agree**, except that a run whose first task has panicked is said to be
running. -/
theorem Reaches.agreement (h : Reaches (Machine.Moves invoker) (opened registry) x) :
    Agreement invoker x where
  lasting _ _ _ _ _ hlater hstands hstands' hstatus hended :=
    h.lasting hlater hstands hstands' hstatus hended
  accord _ _ _ _ hanswered hstands := h.agrees hanswered hstands
  calm hcalm id r run answer hanswered hstands := by
    obtain ⟨ended, status, houtcome, haccord, hstatus, -⟩ := h.agrees hanswered hstands
    cases haccord with
    | succeeded final => exact Or.inl ⟨final, rfl, hstatus⟩
    | failed failure => exact Or.inr ⟨failure.message, rfl, hstatus⟩
    | stopped payload => exact ((h.unshaken hcalm).outcomes run _ houtcome).elim

/-! ### A run that has stopped -/

/-- An invoker that panics in the activity "boom", and does nothing else. -/
def booming : Invoker := fun _ call =>
  ⟨0, if call.name = "boom" then .panic (.text "boom") else .result { success := true }⟩

/-- A request for a run of one activity. -/
def only (activity : String) : Request where
  definition := {
    name := activity
    root := "step"
    steps := [{ id := "step", work := .activity { activity := activity } }] }

/-- A desk at which one run has panicked and one has succeeded, and the results of both were
given. -/
def stopped : Desk :=
  let x := ((opened []).start (only "boom") 1 0).start (only "echo") 2 0
  let x := x.proceed ((Machine.next booming)^[12] x.service.machine)
  (x.collect "boom-1" 0).collect "echo-2" 1

theorem reaches_stopped : Reaches (Machine.Moves booming) (opened []) stopped := by
  have hboom : Reaches (Machine.Moves booming) (opened []) _ :=
    (Moves.start (only "boom") 1 0).reaches
  have hecho := hboom.trans (Moves.start (only "echo") 2 0).reaches
  have hended := hecho.trans
    (Reaches.mono (fun _ _ => Machine.Flows.moves) (Reaches.proceed (Machine.flows_iterate 12)))
  exact (hended.trans (Reaches.collect (by rfl) (by rfl))).trans
    (Reaches.collect (by rfl) (by rfl))

/-- A run that has succeeded by its answer and its status, beside one that has failed by its
answer. -/
theorem agreement_stopped :
    StandsFor stopped.acts "echo-2" (only "echo") 1 ∧
      .answered "boom-1" 0
        (.error (.runFailed "Workflow 'boom-1' stopped before reporting a result")) ∈
          stopped.acts ∧
      .answered "echo-2" 1 (.ok ⟨[("step", .object [("success", .bool true)])]⟩) ∈
        stopped.acts ∧
      stopped.service.status "echo-2" = .ok .succeeded ∧ Agreement booming stopped := by
  refine ⟨?_, ?_, ?_, rfl, reaches_stopped.agreement⟩
  · exact ⟨_ :: _ :: _ :: [_], _, [_], rfl, rfl, rfl, by simp [Act.released?]⟩
  · exact .tail _ (.tail _ (.head _))
  · exact .head _

/-- **A run can be said to be running after its failure was reported**: the result of a run whose
first task has panicked is a failure, and the run is "running" for good. -/
theorem running_after_failure :
    Reaches (Machine.Moves booming) (opened []) stopped ∧
      StandsFor stopped.acts "boom-1" (only "boom") 0 ∧
      .answered "boom-1" 0
        (.error (.runFailed "Workflow 'boom-1' stopped before reporting a result")) ∈
          stopped.acts ∧
      stopped.service.status "boom-1" = .ok .running ∧
      (stopped.service.forget "boom-1").map (·.1) = .ok .running := by
  refine ⟨reaches_stopped, ?_, ?_, rfl, rfl⟩
  · exact ⟨_ :: _ :: _ :: _ :: [_], _, [], rfl, rfl, rfl, by simp [Act.released?]⟩
  · exact .tail _ (.tail _ (.head _))

end Desk

end Flowgraph.Service

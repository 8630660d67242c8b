import Flowgraph.Proofs.Run.Alone
import Flowgraph.Proofs.Run.Shadow
import Flowgraph.Proofs.Service.Agreement

/-!
# Runs do not interfere

The runs of a service share one machine: its line, its clock, and the invoker. With an invoker that
replies to a call by its name and arguments alone, and does not panic, none of this matters for what
is reported of a run. At any time there is a moment of the run by itself that shows just what
belongs to the run at the service (`Desk.Reaches.shadowed`), whatever other runs are started,
forgotten or worked on in between. So **what is answered for a run is what it returns by itself**
(`Desk.Isolation`).
-/

set_option autoImplicit false

namespace Flowgraph.Service

open Run

variable {s : Service} {id : String} {r : Request} {run : Nat}
  {result : Except Failure Store}

/-- How what a run returns is reported: its variables, or the text of its failure. -/
def reported : Except Failure Store → Except Error Final
  | .ok store => .ok ⟨store⟩
  | .error failure => .error (.runFailed failure.message)

/-- What is reported of a run at the service is what it has come to. -/
theorem outcome_of_result? (h : s.machine.result? run = some result) (id : String) :
    s.outcome id run = reported result := by
  obtain ⟨progress, hprogress, hresult⟩ := Option.bind_eq_some_iff.1 h
  obtain ⟨definition, store, events, outcome⟩ := progress
  rw [Service.outcome, hprogress]
  rcases outcome with _ | _ | _ | _ <;> cases hresult <;> rfl

/-- A run that is over has a result unless it has panicked. -/
theorem exists_result? {m : Machine} (h : m.Unshaken) (hover : m.isOver run = true) :
    ∃ result, m.result? run = some result := by
  obtain ⟨outcome, houtcome⟩ := Option.isSome_iff_exists.1 hover
  rw [← Option.ne_none_iff_exists']
  intro hnone
  obtain ⟨payload, rfl⟩ := result?_eq_none_iff.1 hnone outcome houtcome
  exact h.outcomes run _ houtcome

namespace Desk

variable {invoker : Invoker} {registry : Activity.Registry} {x y : Desk}

theorem Reaches.moves (h : Reaches (Machine.Flows invoker) x y) :
    Reaches (Machine.Moves invoker) x y := h.mono fun _ _ => Machine.Flows.moves

theorem Reaches.housed (h : Reaches (Machine.Moves invoker) (opened registry) x) :
    x.service.machine.Housed :=
  h.holds Machine.housed_empty (fun _ d input hm => hm.launch d input) fun _ _ hmoves hm =>
    hm.moves hmoves

theorem Reaches.ahead (h : Reaches (Machine.Moves invoker) (opened registry) x) :
    x.service.machine.Ahead :=
  h.holds nofun (fun _ _ _ hm => hm) fun _ _ hmoves hm => hm.moves hmoves

theorem Reaches.length_runs (h : Reaches (Machine.Moves invoker) (opened registry) x) :
    x.service.machine.runs.length = (begun x.acts).length :=
  (h.kept (keeping_moves invoker)).length_runs

/-- Every run of a service has a shadow, which is that run by itself at some moment. -/
def Shadowed (invoker : Invoker) (x : Desk) : Prop :=
  ∀ (run : Nat) (r : Request), (begun x.acts)[run]? = some r →
    ∃ start n, Shadows run start x.service.machine
      (alone invoker r.definition (r.input.getD []) n)

theorem Moves.shadowed (hcalm : invoker.Calm) (hfree : invoker.Memoryless)
    (hmove : Moves (Machine.Flows invoker) x y)
    (hreach : Reaches (Machine.Moves invoker) (opened registry) x) (hx : Shadowed invoker x) :
    Shadowed invoker y := by
  have hlength := hreach.length_runs
  intro run r hrun
  rcases hmove.machine_cases with ⟨hbegun, hsame⟩ | ⟨new, hbegun, hlaunch⟩ | ⟨hbegun, hflows⟩
  · rw [hbegun] at hrun
    rw [hsame]
    exact hx run r hrun
  · rw [hbegun] at hrun
    rw [hlaunch]
    rcases getElem?_append_cases hrun with hold | ⟨hle, hnew⟩
    · obtain ⟨start, n, hshadow⟩ := hx run r hold
      exact ⟨start, n, hshadow.launch hreach.housed (hlength ▸ lt_of_getElem? hold) _ _⟩
    · -- the run that is launched just now
      have hlast : run = x.service.machine.runs.length ∧ new = r := by
        rw [List.getElem?_singleton] at hnew
        split at hnew
        · exact ⟨by omega, Option.some.inj hnew⟩
        · cases hnew
      obtain ⟨rfl, rfl⟩ := hlast
      exact ⟨_, 0, shadows_launch hreach.housed hreach.rooted _ _⟩
  · rw [hbegun] at hrun
    obtain ⟨start, n, hshadow⟩ := hx run r hrun
    obtain ⟨k, hlater⟩ := hshadow.flows hfree hreach.housed (hreach.unshaken hcalm) hreach.ahead
      (hlength ▸ lt_of_getElem? hrun) hflows
    rw [← alone_add] at hlater
    exact ⟨start, n + k, hlater⟩

/-- **Every run has a shadow**, whatever happens at the service. -/
theorem Reaches.shadowed (hcalm : invoker.Calm) (hfree : invoker.Memoryless)
    (h : Reaches (Machine.Flows invoker) (opened registry) x) : Shadowed invoker x := by
  induction h with
  | refl => exact nofun
  | tail hreach hmove ih => exact hmove.shadowed hcalm hfree (Reaches.moves hreach) ih

/-- What a run has come to at the service is what it returns by itself. -/
theorem Reaches.returns (hcalm : invoker.Calm) (hfree : invoker.Memoryless)
    (h : Reaches (Machine.Flows invoker) (opened registry) x)
    (hrun : (begun x.acts)[run]? = some r) (hresult : x.service.machine.result? run = some result) :
    Returns invoker r.definition (r.input.getD []) result := by
  obtain ⟨start, n, hshadow⟩ := h.shadowed hcalm hfree run r hrun
  apply returns_of_result? (n := n)
  rw [Machine.result?, hshadow.mirrors.getElem?_runs]
  exact hresult

/-- A run that is over is reported to be what it returns by itself. -/
theorem Reaches.reports (hcalm : invoker.Calm) (hfree : invoker.Memoryless)
    (h : Reaches (Machine.Flows invoker) (opened registry) x)
    (hrun : (begun x.acts)[run]? = some r) (hover : x.service.machine.isOver run = true)
    (id : String) :
    ∃ result, Returns invoker r.definition (r.input.getD []) result ∧
      x.service.outcome id run = reported result := by
  obtain ⟨result, hresult⟩ := exists_result? (h.moves.unshaken hcalm) hover
  exact ⟨result, h.returns hcalm hfree hrun hresult, outcome_of_result? hresult id⟩

/-- What was answered is what the run returns by itself. -/
theorem Reaches.answered (hcalm : invoker.Calm) (hfree : invoker.Memoryless)
    (h : Reaches (Machine.Flows invoker) (opened registry) x) {later earlier : List Act}
    {answer : Except Error Final} (hacts : x.acts = later ++ .answered id run answer :: earlier)
    (hrun : (begun earlier)[run]? = some r) :
    ∃ result, Returns invoker r.definition (r.input.getD []) result ∧ answer = reported result := by
  obtain ⟨y, hy, -, rfl, hover, rfl⟩ := h.given hacts
  exact hy.reports hcalm hfree hrun hover id

/-- A run is over when nothing is left to do. -/
theorem Reaches.over_of_quiet (hcalm : invoker.Calm) (hfree : invoker.Memoryless)
    (h : Reaches (Machine.Flows invoker) (opened registry) x)
    (hrun : (begun x.acts)[run]? = some r) (hquiet : x.service.machine.Quiet) :
    x.service.machine.isOver run = true := by
  obtain ⟨start, n, hshadow⟩ := h.shadowed hcalm hfree run r hrun
  obtain ⟨outcome, houtcome⟩ := outcome_of_quiet (hshadow.mirrors.quiet hquiet)
  rw [Machine.isOver_eq, ← hshadow.mirrors.outcome?, houtcome]
  rfl

/-! ### Isolation -/

theorem Reaches.results (hcalm : invoker.Calm) (hfree : invoker.Memoryless)
    (h : Reaches (Machine.Flows invoker) (opened registry) x) {fuel : Nat}
    {answer : Except Error Final} (hstands : StandsFor x.acts id r run)
    (hresult : x.service.result invoker fuel id = some (answer, s)) :
    ∃ result, Returns invoker r.definition (r.input.getD []) result ∧ answer = reported result := by
  have hrun := getElem?_begun_of_standsFor hstands
  have hfind := (h.moves.kept (keeping_moves invoker)).find_of_standsFor hstands
  rcases result_cases hresult with ⟨e, herror, -⟩ | ⟨other, m, hother, hflows, hends, rfl, rfl⟩
  · rw [hfind] at herror
    cases herror
  · rw [hfind] at hother
    cases hother
    have hlater : Reaches (Machine.Flows invoker) (opened registry) (x.proceed m) :=
      h.trans (Reaches.proceed hflows)
    have hover : m.isOver run = true := by
      rcases hends with hover | hquiet
      · exact hover
      · exact hlater.over_of_quiet hcalm hfree hrun hquiet
    exact hlater.reports hcalm hfree hrun hover id

/-- A request for a run with two branches that write the same variable. -/
def contest : Request where
  definition := {
    name := "contest"
    root := "both"
    steps := [
      { id := "both", work := .parallel ["slow", "quick"] },
      { id := "slow", work := .activity { activity := "slow", resultVariable := some "last" } },
      { id := "quick", work := .activity { activity := "quick", resultVariable := some "last" } }] }

/-- An invoker whose activities return their names, one of them before the others. -/
def echoing : Invoker := fun _ call =>
  ⟨if call.name = "quick" then 2 else 5, .result (.ok (.string call.name))⟩

/-- A desk at which a run is started while another one is at work. -/
def rivals : Desk :=
  let x := (opened []).start contest 1 0
  (x.proceed ((Machine.next echoing)^[8] x.service.machine)).start contest 2 0

/-- The first run is forgotten while a call waits for its result. -/
def abandoned : Desk := (rivals.note (.called "contest-1" (.ok 0))).forget "contest-1"

/-- A desk at which both runs are over. -/
def finished : Desk := abandoned.proceed ((Machine.next echoing)^[40] abandoned.service.machine)

end Desk

end Flowgraph.Service

import Flowgraph.Proofs.Run.Endings
import Mathlib.Data.Nat.Find

/-!
# A run by itself

`alone` is the machine of a single run as it goes on by itself. The run `Returns` a result if at
first there is none, and from some moment on there is this one. As what has ended has ended for
good, a run returns whatever result it has at any time (`returns_of_result?`), so there is only one
(`Returns.unique`); and a machine that is run until its only run is over comes to it
(`Returns.run`).
-/

set_option autoImplicit false

namespace Flowgraph.Run

open Relation (ReflTransGen)

variable {invoker : Invoker} {d : Definition} {input : Store} {m m' : Machine} {fuel k n r : Nat}
  {result result' : Except Failure Store}

/-- The machine of a single run after so many moves. -/
def alone (invoker : Invoker) (d : Definition) (input : Store) (n : Nat) : Machine :=
  (Machine.next invoker)^[n] (({} : Machine).launch d input)

/-- What a run has come to: its variables, or its failure. -/
def Progress.result? (run : Progress) : Option (Except Failure Store) :=
  match run.outcome with
  | some .done => some (.ok run.store)
  | some (.failed failure) => some (.error failure)
  | _ => none

/-- What one of the runs of a machine has come to. -/
def Machine.result? (m : Machine) (run : Nat) : Option (Except Failure Store) :=
  m.runs[run]?.bind Progress.result?

/-- A run by itself returns a result: for some moves there is none, and from then on it is this
one. -/
def Returns (invoker : Invoker) (d : Definition) (input : Store)
    (result : Except Failure Store) : Prop :=
  ∃ n, ∀ k, (alone invoker d input k).result? 0 = if k < n then none else some result

/-! ### Results and ends -/

/-- A run without a result goes on or has panicked. -/
theorem result?_eq_none_iff : m.result? r = none ↔
    ∀ outcome, m.outcome? r = some outcome → ∃ payload, outcome = .panicked payload := by
  unfold Machine.result? Machine.outcome?
  cases hrun : m.runs[r]? with
  | none => simp
  | some run =>
    obtain ⟨definition, store, events, outcome⟩ := run
    rcases outcome with _ | _ | _ | _ <;> simp [Progress.result?]

/-! ### The scene of a single run -/

theorem Scene.next_machine (x : Scene) : (x.next invoker).machine = x.machine.next invoker := by
  unfold Scene.next Machine.next
  cases x.machine.step invoker with
  | some m => rfl
  | none => cases x.machine.nextTime? <;> rfl

theorem Scene.iterate_machine (n : Nat) (x : Scene) :
    ((Scene.next invoker)^[n] x).machine = (Machine.next invoker)^[n] x.machine := by
  induction n generalizing x with
  | zero => rfl
  | succ n ih => rw [Function.iterate_succ_apply, ih, next_machine, Function.iterate_succ_apply]

/-- The machine of a single run with what it has done. -/
theorem scene_alone (invoker : Invoker) (d : Definition) (input : Store) (n : Nat) :
    ∃ x, Scene.Reaches invoker (Scene.opening d input) x ∧
      x.machine = alone invoker d input n :=
  ⟨_, Scene.reaches_iterate n, Scene.iterate_machine n (Scene.opening d input)⟩

theorem alone_add (n j : Nat) :
    alone invoker d input (n + j) = (Machine.next invoker)^[j] (alone invoker d input n) := by
  rw [alone, Nat.add_comm, Function.iterate_add_apply, alone]

/-! ### What has ended has ended for good -/

/-- Runs end once, however long the machine flows. -/
theorem Machine.Rooted.flows (h : m.Rooted) (hflows : ReflTransGen (Machine.Flows invoker) m m') :
    m'.Rooted ∧ ∀ r outcome, m.outcome? r = some outcome → m'.outcome? r = some outcome := by
  induction hflows with
  | refl => exact ⟨h, fun _ _ hended => hended⟩
  | tail _ hmove ih =>
    exact ⟨ih.1.moves hmove.moves, fun r outcome hended =>
      ih.1.outcome_moves hmove.moves (ih.2 r outcome hended)⟩

theorem rooted_alone (n : Nat) : (alone invoker d input n).Rooted :=
  ((Machine.rooted_empty.launch d input).flows (Machine.flows_iterate n)).1

theorem outcome_alone {outcome : Outcome} (hle : n ≤ k)
    (h : (alone invoker d input n).outcome? 0 = some outcome) :
    (alone invoker d input k).outcome? 0 = some outcome := by
  obtain ⟨j, rfl⟩ := Nat.exists_eq_add_of_le hle
  rw [alone_add]
  exact ((rooted_alone n).flows (Machine.flows_iterate j)).2 0 outcome h

/-- The variables of a run that has succeeded are not changed any more. -/
theorem runs_alone (hle : n ≤ k) (h : (alone invoker d input n).outcome? 0 = some .done) :
    (alone invoker d input k).runs = (alone invoker d input n).runs := by
  obtain ⟨j, rfl⟩ := Nat.exists_eq_add_of_le hle
  obtain ⟨x, hreach, hx⟩ := scene_alone invoker d input n
  obtain ⟨run, hrun, -, houtcome⟩ := hreach.recorded
  have hdone : run.outcome = some .done := by
    rw [← hx, Machine.outcome?, hrun] at h
    exact h
  have hstill := hreach.orderly.still hreach.placed (houtcome.symm.trans hdone)
  have hlater : Scene.Reaches invoker x ((Scene.next invoker)^[j] x) := Scene.reaches_iterate j
  obtain ⟨-, hruns, -⟩ := hlater.still hstill
  rw [alone_add, ← hx, ← Scene.iterate_machine, hruns]

/-- **The result of a run by itself is for good.** -/
theorem result?_alone (hle : n ≤ k) (h : (alone invoker d input n).result? 0 = some result) :
    (alone invoker d input k).result? 0 = some result := by
  obtain ⟨run, hrun, hresult⟩ := Option.bind_eq_some_iff.1 h
  have houtcome : (alone invoker d input n).outcome? 0 = run.outcome := by
    rw [Machine.outcome?, hrun]
    rfl
  unfold Progress.result? at hresult
  split at hresult
  case h_1 hdone =>
    rw [Machine.result?, runs_alone hle (houtcome.trans hdone)]
    exact h
  case h_2 failure hfailed =>
    cases hresult
    -- of a run that has failed, only the failure is looked at
    obtain ⟨run', hrun', houtcome'⟩ :=
      Option.bind_eq_some_iff.1 (outcome_alone hle (houtcome.trans hfailed))
    rw [Machine.result?, hrun']
    show run'.result? = _
    rw [Progress.result?, houtcome']
  case h_3 => cases hresult

/-- A run by itself has ended when nothing is left to do. -/
theorem outcome_of_quiet (h : (alone invoker d input n).Quiet) :
    ∃ outcome, (alone invoker d input n).outcome? 0 = some outcome := by
  obtain ⟨x, hreach, hx⟩ := scene_alone invoker d input n
  rw [← hx] at h ⊢
  obtain ⟨outcome, houtcome⟩ := hreach.returned_of_quiet h
  refine ⟨outcome, ?_⟩
  have hfirst := congrArg (·[0]?) houtcome
  simpa [Machine.outcome?, Option.bind_eq_some_iff] using hfirst

/-! ### What a run returns -/

/-- **A run by itself returns what it has come to at some moment.** -/
theorem returns_of_result? (h : (alone invoker d input n).result? 0 = some result) :
    Returns invoker d input result := by
  have hsome : ∃ n, ((alone invoker d input n).result? 0).isSome = true := ⟨n, by rw [h]; rfl⟩
  refine ⟨Nat.find hsome, fun k => ?_⟩
  split
  case isTrue hlt => simpa using Nat.find_min hsome hlt
  case isFalse hle =>
    obtain ⟨first, hfirst⟩ := Option.isSome_iff_exists.1 (Nat.find_spec hsome)
    have hnow := result?_alone (Nat.find_min' hsome (by rw [h]; rfl)) hfirst
    rw [h] at hnow
    cases hnow
    exact result?_alone (Nat.not_lt.1 hle) hfirst

/-- A machine at rest stays where it is. -/
theorem Machine.Quiet.iterate (h : m.Quiet) (n : Nat) : (Machine.next invoker)^[n] m = m := by
  have hnext : m.next invoker = m := by
    have htime : m.nextTime? = none := by simp [Machine.nextTime?, h.2]
    simp [Machine.next, Machine.step, h.1, htime]
  exact Function.iterate_fixed hnext n

/-- **A machine that is run until its only run is over comes to what the run returns.** -/
theorem Returns.run (h : Returns invoker d input result)
    (hrun : Machine.run invoker (·.isOver 0) none fuel (({} : Machine).launch d input) = some m) :
    m.result? 0 = some result := by
  obtain ⟨n, hn⟩ := h
  obtain ⟨⟨k, hk⟩, hends⟩ := Machine.run_iterate hrun
  obtain rfl : m = alone invoker d input k := hk
  rw [hn]
  refine if_neg fun hlt => ?_
  have hlater := hn n
  rw [if_neg (Nat.lt_irrefl n)] at hlater
  have hnow := hn k
  rw [if_pos hlt] at hnow
  rcases hends with hover | hquiet
  · -- the run is over, so it must have panicked, and then it has no result later on
    obtain ⟨outcome, houtcome⟩ := Option.isSome_iff_exists.1 hover
    obtain ⟨payload, rfl⟩ := result?_eq_none_iff.1 hnow outcome houtcome
    have hpanicked : (alone invoker d input n).result? 0 = none := by
      refine result?_eq_none_iff.2 fun outcome houtcome' => ⟨payload, ?_⟩
      rw [outcome_alone (Nat.le_of_lt hlt) houtcome] at houtcome'
      exact (Option.some.inj houtcome').symm
    rw [hlater] at hpanicked
    cases hpanicked
  · obtain ⟨j, rfl⟩ := Nat.exists_eq_add_of_lt hlt
    rw [Nat.add_assoc, alone_add, hquiet.iterate, hnow] at hlater
    cases hlater

end Flowgraph.Run

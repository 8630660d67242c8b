import Flowgraph.Proofs.Run.Flaws

/-!
# Runs without a root

A run whose root does not exist fails as soon as its only task sets out. There are three states that
it can be in (`Lost`), and in none of them has anything been called, started or changed
(`Reaches.rootless`).
-/

set_option autoImplicit false

namespace Flowgraph.Run

variable {invoker : Invoker} {d : Definition} {input : Store} {x : Scene} {m m' : Machine}
  {l : Ledger} {id : Nat} {deeds : List Deed}

/-- The failure of a run without a root. -/
def lostFailure (d : Definition) : Failure := .rootNotFound d.root

/-- A run without a root that has failed. -/
def lostRun (d : Definition) (input : Store) : Progress where
  definition := d
  store := input
  events :=
    [.runStarted d.name (), .runCompleted .failed () (some (lostFailure d).message)]
  outcome := some (.failed (lostFailure d))

/-- The states of a run without a root: before its task has set out, before the task has ended, and
after that. -/
inductive Lost (d : Definition) (input : Store) (x : Scene) : Prop
  | waits : x.machine.tasks = [⟨0, none, [], .start⟩] →
      x.machine.runs = [{ definition := d, store := input }] → x.machine.calls = [] →
      x.ledger.history.map (·.deed) = [] → Lost d input x
  | leaves : x.machine.tasks = [⟨0, none, [], .leave (.failed (lostFailure d))⟩] →
      x.machine.runs = [{ definition := d, store := input, events := [.runStarted d.name ()] }] →
      x.machine.calls = [] → x.ledger.history.map (·.deed) = [.begun d.name] → Lost d input x
  | failed : x.machine.tasks = [⟨0, none, [], .stopped⟩] →
      x.machine.runs = [lostRun d input] → x.machine.calls = [] →
      x.ledger.history.map (·.deed) =
        [.begun d.name, .returned (.failed (lostFailure d))] → Lost d input x

/-- The only task of a machine. -/
theorem eq_of_only {α : Type} {only other : α} {l : List α} {i : Nat} (hl : l = [only])
    (h : l[i]? = some other) : i = 0 ∧ other = only := by
  rw [hl, List.getElem?_singleton] at h
  split at h
  · exact ⟨‹_›, (Option.some.inj h).symm⟩
  · cases h

/-- **A run without a root goes from one of its states to the next.** -/
theorem Lost.turn (h : Lost d input ⟨m, l⟩) (hroot : d.rootStep? = none)
    (hplaced : Scene.Placed d ⟨m, l⟩) (hturn : Turn invoker m id deeds m') :
    Lost d input ⟨m', l.record id deeds⟩ := by
  obtain ⟨trail, -, hhistory⟩ := hplaced.history_record hturn
  have hdeeds : (l.record id deeds).history.map (·.deed) = l.history.map (·.deed) ++ deeds := by
    rw [hhistory, List.map_append, Trail.map_deed_entries]
  cases h with
  | waits htasks hruns hcalls hnone =>
    cases hturn with
    | idle => exact .waits htasks hruns hcalls hnone
    | goes htask hrun hadv =>
      obtain ⟨rfl, rfl⟩ := eq_of_only htasks htask
      obtain ⟨-, rfl⟩ := eq_of_only hruns hrun
      cases hadv with
      | begin hsome =>
        rw [hroot] at hsome
        cases hsome
      | lost =>
        refine .leaves ?_ ?_ ?_ (by rw [hdeeds, hnone]; rfl)
        · dsimp only at htasks ⊢
          rw [htasks]
          rfl
        · dsimp only at hruns ⊢
          rw [hruns]
          rfl
        · exact congrArg (· ++ []) hcalls
    | forks htask hrun hc =>
      obtain ⟨-, rfl⟩ := eq_of_only htasks htask
      cases hc
    | ends htask hrun hparent hframes hc =>
      obtain ⟨-, rfl⟩ := eq_of_only htasks htask
      cases hc
    | returns htask hrun hparent hframes hc =>
      obtain ⟨-, rfl⟩ := eq_of_only htasks htask
      cases hc
  | leaves htasks hruns hcalls hbegun =>
    cases hturn with
    | idle => exact .leaves htasks hruns hcalls hbegun
    | goes htask hrun hadv =>
      obtain ⟨-, rfl⟩ := eq_of_only htasks htask
      cases hadv
    | forks htask hrun hc =>
      obtain ⟨-, rfl⟩ := eq_of_only htasks htask
      cases hc
    | ends htask hrun hparent =>
      obtain ⟨-, rfl⟩ := eq_of_only htasks htask
      cases hparent
    | returns htask hrun hparent hframes hc =>
      obtain ⟨rfl, rfl⟩ := eq_of_only htasks htask
      obtain ⟨-, rfl⟩ := eq_of_only hruns hrun
      cases hc
      refine .failed ?_ ?_ hcalls (by rw [hdeeds, hbegun]; rfl)
      · dsimp only at htasks ⊢
        rw [htasks]
        rfl
      · dsimp only at hruns ⊢
        rw [hruns]
        rfl
  | failed htasks hruns hcalls hreturned =>
    have hstill : Scene.Still ⟨m, l⟩ := by
      intro task hmem
      rw [htasks] at hmem
      rw [List.mem_singleton.1 hmem]
    obtain ⟨rfl, rfl⟩ := hstill.turn hturn
    exact .failed htasks hruns hcalls hreturned

/-- What a run without a root comes to. -/
structure Scene.Rootless (invoker : Invoker) (d : Definition) (input : Store) (x : Scene) :
    Prop where
  /-- Nothing is called. -/
  calls : x.machine.calls = []
  /-- No task is started. -/
  tasks : x.machine.tasks.length = 1
  /-- The variables stay as they were. -/
  stores : x.machine.runs.map (·.store) = [input]
  /-- All that is done is to begin the run and to return with a failure. -/
  deeds : x.ledger.history.map (·.deed) <+:
    [.begun d.name, .returned (.failed (.rootNotFound d.root))]
  /-- From the start, two small steps are all it takes. -/
  begins : ∀ rest, x.machine.ready = 0 :: rest → x.ledger.history = [] →
    (x.machine.step invoker).bind (·.step invoker) = some
      { x.machine with
        tasks := [⟨0, none, [], .stopped⟩]
        runs := [lostRun d input]
        ready := rest }
  /-- The run only returns with the failure. -/
  returns : ∀ outcome, x.machine.runs.map (·.outcome) = [some outcome] →
    outcome = .failed (.rootNotFound d.root)
  /-- Once the line is empty, it has failed. -/
  fails : x.machine.ready = [] → x.machine.runs = [lostRun d input]

namespace Scene

theorem Reaches.lost (h : Reaches invoker (opening d input) x) (hroot : d.rootStep? = none) :
    Lost d input x := by
  refine h.induct (.waits rfl rfl rfl rfl) ?turn ?same
  case turn =>
    intro m m' l id deeds hreach ih hturn
    exact ih.turn hroot hreach.placed hturn
  case same =>
    intro m m' l htasks hruns hcalls ih
    cases ih with
    | waits ht hr hc hd => exact .waits (htasks.trans ht) (hruns.trans hr) (hcalls.trans hc) hd
    | leaves ht hr hc hd => exact .leaves (htasks.trans ht) (hruns.trans hr) (hcalls.trans hc) hd
    | failed ht hr hc hd => exact .failed (htasks.trans ht) (hruns.trans hr) (hcalls.trans hc) hd

end Scene

/-- A run without a root has failed after two small steps. -/
theorem Machine.step_step_of_lost (hroot : d.rootStep? = none) {rest : List Nat}
    (hready : m.ready = 0 :: rest) (htasks : m.tasks = [⟨0, none, [], .start⟩])
    (hruns : m.runs = [{ definition := d, store := input }]) :
    (m.step invoker).bind (·.step invoker) = some
      { m with tasks := [⟨0, none, [], .stopped⟩], runs := [lostRun d input], ready := rest } := by
  have hbegin : m.step invoker = some
      { m with
        tasks := [⟨0, none, [], .leave (.failed (lostFailure d))⟩]
        runs := [{ definition := d, store := input, events := [.runStarted d.name ()] }] } := by
    rw [Machine.step_head hready (by rw [htasks]; rfl) (by rw [hruns]; rfl)]
    simp [Machine.act, Machine.begin, Machine.emit, Machine.goOn, htasks, hruns, hroot, lostFailure]
  rw [hbegin, Option.bind_some]
  refine Eq.trans (Machine.step_head hready rfl rfl) ?_
  simp [Machine.act, Machine.leave, Machine.stop, Machine.finalEvent, Machine.emit, Machine.goOn,
    Machine.pause, lostRun, lostFailure, hready]

namespace Scene

/-- With an empty line, a run without a root has failed. -/
theorem Reaches.runs_of_ready (h : Reaches invoker (opening d input) x)
    (hroot : d.rootStep? = none) (hready : x.machine.ready = []) :
    x.machine.runs = [lostRun d input] := by
  cases h.lost hroot with
  | waits htasks =>
    have htask : x.machine.tasks[0]? = some ⟨0, none, [], .start⟩ := by rw [htasks]; rfl
    rcases h.waiting hready htask with hc | ⟨_, _, _, hc⟩ | ⟨_, _, hc⟩ <;> cases hc
  | leaves htasks =>
    have htask : x.machine.tasks[0]? = some ⟨0, none, [], .leave (.failed (lostFailure d))⟩ := by
      rw [htasks]
      rfl
    rcases h.waiting hready htask with hc | ⟨_, _, _, hc⟩ | ⟨_, _, hc⟩ <;> cases hc
  | failed _ hruns => exact hruns

/-- **A run without a root fails without effect.** -/
theorem Reaches.rootless (h : Reaches invoker (opening d input) x) (hroot : d.rootStep? = none) :
    x.Rootless invoker d input := by
  cases h.lost hroot with
  | waits htasks hruns hcalls hnone =>
    exact {
      calls := hcalls
      tasks := by rw [htasks]; rfl
      stores := by rw [hruns]; rfl
      deeds := by rw [hnone]; exact List.nil_prefix
      begins := fun rest hready _ => Machine.step_step_of_lost hroot hready htasks hruns
      returns := fun outcome hend => by
        rw [hruns] at hend
        cases hend
      fails := h.runs_of_ready hroot }
  | leaves htasks hruns hcalls hbegun =>
    exact {
      calls := hcalls
      tasks := by rw [htasks]; rfl
      stores := by rw [hruns]; rfl
      deeds := by rw [hbegun]; exact ⟨[_], rfl⟩
      begins := fun rest hready hnil => by
        rw [hnil] at hbegun
        cases hbegun
      returns := fun outcome hend => by
        rw [hruns] at hend
        cases hend
      fails := h.runs_of_ready hroot }
  | failed htasks hruns hcalls hreturned =>
    exact {
      calls := hcalls
      tasks := by rw [htasks]; rfl
      stores := by rw [hruns]; rfl
      deeds := by rw [hreturned]; exact List.prefix_rfl
      begins := fun rest hready hnil => by
        rw [hnil] at hreturned
        cases hreturned
      returns := fun outcome hend => by
        rw [hruns] at hend
        exact (Option.some.inj (List.cons.inj hend).1).symm
      fails := h.runs_of_ready hroot }

end Scene

end Flowgraph.Run

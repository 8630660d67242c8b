import Flowgraph.Proofs.Run.Watched

/-!
# Deadlines are truncated delays

On a machine that watches deadlines each call that takes time has two timers. The settled machine
has one for it, at the time of the first of the two. Time passes alike on both
(`Watched.settled_passTo`): the tasks are woken at the same times and in the same order, and a
second timer never wakes anyone. With the steps, which agree as well, **a watched machine does the
same, round by round, as a machine on the truncated invoker** (`Watched.run_settled`).
-/

set_option autoImplicit false

namespace Flowgraph.Run

namespace Watched

variable {w : Watched} {deadline : Nat} {watch : Watch} {inner : Invoker} {d : Definition}
  {input : Store} {l : Ledger}

/-! ### Time -/

variable {watches : List Watch} {time : Nat}

/-- A watch wakes its task once. -/
theorem foldl_wake_timers {m : Machine} (hnew : watch.task ∉ m.ready) (time : Nat) :
    ((watch.timers.filter (·.1 ≤ time)).map (·.2)).foldl Machine.wake m =
      if watch.first ≤ time then { m with ready := m.ready ++ [watch.task] } else m := by
  have hwake : m.wake watch.task = { m with ready := m.ready ++ [watch.task] } := if_neg hnew
  have hagain : ({ m with ready := m.ready ++ [watch.task] } : Machine).wake watch.task =
      { m with ready := m.ready ++ [watch.task] } :=
    if_pos (List.mem_append_right _ (List.mem_singleton_self _))
  unfold Watch.timers Watch.first
  by_cases hdue : watch.due ≤ time <;> by_cases hlimit : watch.limit ≤ time <;>
    simp [hdue, hlimit, hwake, hagain]

/-- The timers that are over wake their tasks in the order of the watches. -/
theorem foldl_wake (m : Machine) (hnodup : (watches.map (·.task)).Nodup)
    (hnew : ∀ watch ∈ watches, watch.task ∉ m.ready) (time : Nat) :
    (((watches.flatMap Watch.timers).filter (·.1 ≤ time)).map (·.2)).foldl Machine.wake m =
      { m with ready := m.ready ++ (watches.filter (·.first ≤ time)).map (·.task) } := by
  induction watches generalizing m with
  | nil => simp
  | cons watch rest ih =>
    obtain ⟨hhead, hrest⟩ := List.nodup_cons.1 hnodup
    have hothers : ∀ other ∈ rest, other.task ∉ m.ready :=
      fun other hother => hnew other (List.mem_cons_of_mem _ hother)
    rw [List.flatMap_cons, List.filter_append, List.map_append, List.foldl_append,
      foldl_wake_timers (hnew watch (List.mem_cons_self ..))]
    by_cases hover : watch.first ≤ time
    · rw [if_pos hover, List.filter_cons_of_pos (by simpa using hover), ih _ hrest ?_]
      · simp
      · intro other hother hmem
        rcases List.mem_append.1 hmem with hmem | hmem
        · exact hothers other hother hmem
        · exact hhead (List.mem_map.2 ⟨other, hother, List.mem_singleton.1 hmem⟩)
    · rw [if_neg hover, List.filter_cons_of_neg (by simpa using hover), ih m hrest hothers]

/-- When no task can work, all watches are open. -/
theorem Fair.open (h : w.Fair) (hready : w.machine.ready = []) (hwatch : watch ∈ w.watches) :
    w.machine.now < watch.first := by
  refine Nat.lt_of_le_of_ne (h.ahead watch hwatch) fun hfirst => ?_
  have hmem := h.woken watch hwatch hfirst.symm
  rw [hready] at hmem
  cases hmem

theorem Fair.timers_of_idle (h : w.Fair) (hready : w.machine.ready = []) :
    w.machine.timers = w.watches.flatMap Watch.timers := by
  rw [h.timers]
  refine List.flatMap_congr fun watch hwatch => ?_
  have hopen := Nat.lt_min.1 (h.open hready hwatch)
  rw [List.filter_eq_self]
  simp [Watch.timers, hopen]

theorem passTo_machine (h : w.Fair) (hready : w.machine.ready = []) (time : Nat) :
    (w.passTo time).machine = { w.machine with
      now := max w.machine.now time
      ready := (w.watches.filter (·.first ≤ time)).map (·.task)
      timers := w.machine.timers.filter (time < ·.1) } := by
  unfold passTo
  dsimp only
  rw [h.timers_of_idle hready, foldl_wake _ h.once fun _ _ => hready ▸ List.not_mem_nil]
  dsimp only
  rw [hready, List.nil_append]

/-- **Time passes alike on both machines.** -/
theorem settled_passTo (h : w.Fair) (hready : w.machine.ready = []) (time : Nat) :
    (w.passTo time).settled deadline = (w.settled deadline).passTo time := by
  have hopen : firsts w.watches w.machine.now =
      w.watches.map fun watch => (watch.first, watch.task) := by
    rw [firsts, List.filter_eq_self.2 fun watch hwatch => decide_eq_true (h.open hready hwatch)]
  have hlater : firsts w.watches (max w.machine.now time) =
      (firsts w.watches w.machine.now).filter (time < ·.1) := by
    rw [hopen, List.filter_map]
    refine congrArg (List.map _) (List.filter_congr fun watch hwatch => ?_)
    have := h.open hready hwatch
    simp [this]
  have hdue : ((firsts w.watches w.machine.now).filter (·.1 ≤ time)).map (·.2) =
      (w.watches.filter (·.first ≤ time)).map (·.task) := by
    rw [hopen, List.filter_map, List.map_map]
    rfl
  have hwatches : (w.passTo time).watches = w.watches := rfl
  unfold settled
  rw [passTo_machine h hready, hwatches]
  unfold Machine.recast Machine.passTo
  dsimp only
  rw [hlater, hdue, hready, List.nil_append]

theorem Fair.passTo (h : w.Fair) (hready : w.machine.ready = [])
    (hfirst : ∀ watch ∈ w.watches, time ≤ watch.first) : (w.passTo time).Fair := by
  have hmachine := passTo_machine h hready time
  refine ⟨h.once, fun watch hwatch => ?_, fun watch hwatch => ?_, fun watch hwatch hwoken => ?_, ?_⟩
  · rw [hmachine]
    exact h.waits watch hwatch
  · rw [hmachine]
    exact Nat.max_le.2 ⟨h.ahead watch hwatch, hfirst watch hwatch⟩
  · rw [hmachine] at hwoken ⊢
    have := h.open hready hwatch
    have hover : watch.first ≤ time := by
      dsimp only at hwoken
      omega
    exact List.mem_map.2 ⟨watch, List.mem_filter.2 ⟨hwatch, decide_eq_true hover⟩, rfl⟩
  · rw [hmachine]
    dsimp only
    rw [h.timers_of_idle hready, List.filter_flatMap]
    refine List.flatMap_congr fun watch hwatch => List.filter_congr fun timer htimer => ?_
    have hopen := Nat.lt_min.1 (h.open hready hwatch)
    simp only [Watch.timers, List.mem_cons, List.not_mem_nil, or_false] at htimer
    rcases htimer with rfl | rfl <;> simp [hopen]

/-- The first timer of all is the first one that counts. -/
theorem min?_timers (watches : List Watch) :
    ((watches.flatMap Watch.timers).map (·.1)).min? = (watches.map Watch.first).min? := by
  induction watches with
  | nil => rfl
  | cons watch rest ih =>
    show (watch.due :: watch.limit :: (rest.flatMap Watch.timers).map (·.1)).min? =
      (min watch.due watch.limit :: rest.map Watch.first).min?
    rw [List.min?_cons, List.min?_cons, List.min?_cons, ih]
    cases (rest.map Watch.first).min? with
    | none => rfl
    | some time => exact congrArg some (Nat.min_assoc ..).symm

theorem settled_nextTime? (h : w.Fair) (hready : w.machine.ready = []) :
    (w.settled deadline).nextTime? = w.machine.nextTime? := by
  unfold Machine.nextTime?
  rw [h.timers_of_idle hready, min?_timers]
  show ((firsts w.watches w.machine.now).map (·.1)).min? = _
  rw [firsts, List.filter_eq_self.2 fun watch hwatch => decide_eq_true (h.open hready hwatch),
    List.map_map]
  rfl

theorem le_first_of_nextTime? (h : w.Fair) (hready : w.machine.ready = [])
    (hnext : w.machine.nextTime? = some time) (hwatch : watch ∈ w.watches) :
    time ≤ watch.first := by
  rw [Machine.nextTime?, h.timers_of_idle hready, min?_timers] at hnext
  exact (List.min?_eq_some_iff.1 hnext).2 _ (List.mem_map_of_mem hwatch)

/-- **Both machines wait alike.** -/
theorem settled_lull (h : w.Fair) (hready : w.machine.ready = []) (stop : Bool)
    (limit : Option Nat) :
    (w.settled deadline).lull (Machine.wanted stop) limit =
      (w.lull (Machine.wanted stop) limit).map (settled · deadline) (settled · deadline) := by
  have hwanted : (w.settled deadline).wanted stop = w.machine.wanted stop := rfl
  have hpass : ∀ time, (w.settled deadline).passTo time = (w.passTo time).settled deadline :=
    fun time => (settled_passTo h hready time).symm
  unfold Machine.lull lull
  rw [hwanted, settled_nextTime? h hready]
  split
  case isTrue => rfl
  case isFalse =>
  rcases w.machine.nextTime? with _ | time <;> rcases limit with _ | limit
  case some.some =>
    dsimp only
    split <;> simp [hpass]
  all_goals simp [hpass]

theorem Fair.lull (h : w.Fair) (hready : w.machine.ready = []) {wanted : Machine → Bool}
    {limit : Option Nat} {w' : Watched} (hlull : w.lull wanted limit = .inr w') : w'.Fair := by
  have hpass : ∀ time, w.machine.nextTime? = some time → (w.passTo time).Fair :=
    fun time hnext => h.passTo hready fun _ => le_first_of_nextTime? h hready hnext
  unfold Watched.lull at hlull
  split at hlull
  case isTrue => cases hlull
  case isFalse =>
  cases hnext : w.machine.nextTime? with
  | none =>
    rw [hnext] at hlull
    cases limit <;> cases hlull
  | some time =>
    rw [hnext] at hlull
    cases limit with
    | none => exact Sum.inr.inj hlull ▸ hpass time hnext
    | some limit =>
      dsimp only at hlull
      split at hlull
      · exact Sum.inr.inj hlull ▸ hpass time hnext
      · cases hlull

/-! ### Runs -/

/-- **A watched machine gets to the same places as the settled machine**, round by round. -/
theorem run_settled (hreach : Scene.Reaches (inner.within deadline) (Scene.opening d input)
    ⟨w.settled deadline, l⟩) (h : w.Fair) (stop : Bool) (limit : Option Nat) (fuel : Nat) :
    Machine.run (inner.within deadline) (Machine.wanted stop) limit fuel (w.settled deadline) =
      (w.run inner deadline (Machine.wanted stop) limit fuel).map (settled · deadline) := by
  induction fuel generalizing w l with
  | zero => rfl
  | succ fuel ih =>
    obtain ⟨hstep', hfair⟩ := settled_step hreach h
    cases hstep : w.step inner deadline with
    | some next =>
      rw [hstep] at hstep'
      rw [run_of_step hstep', ih (hreach.trans (Scene.Moves.work hstep').reaches)
        (hfair next hstep), run, hstep]
    | none =>
      rw [hstep] at hstep'
      have hready := ready_of_step_eq_none hstep
      have hlull' : (w.settled deadline).lull (Machine.wanted stop) limit = _ :=
        settled_lull h hready stop limit
      rw [run_of_lull hstep', hlull', run, hstep]
      dsimp only
      cases hlull : w.lull (Machine.wanted stop) limit with
      | inl ended => rfl
      | inr later =>
        rw [hlull] at hlull'
        obtain ⟨time, htime⟩ := lull_eq_inr hlull'
        have hwait := hreach.trans (Scene.Moves.wait time).reaches
        rw [← htime] at hwait
        exact ih hwait (h.lull hready hlull)

end Watched

/-! ### Invokers that agree on the calls of a run -/

section

variable {inner inner' : Invoker} {m m' e : Machine} {id : Nat} {task : Task} {run : Progress}
  {stop : Bool} {limit : Option Nat} {fuel : Nat}

/-- What the invoker says to other calls does not matter to a small step. -/
theorem act_congr (hcall : ∀ call, m.calls ++ [call] <+: (m.act inner id task run).calls →
    inner' m.calls call = inner m.calls call) :
    m.act inner' id task run = m.act inner id task run := by
  by_cases hcalls : task.control.Calls
  case neg => exact Machine.act_of_quiet hcalls
  case pos =>
    obtain ⟨step, c, hc, hwork, hname⟩ := hcalls
    rw [Machine.act_of_call hc hwork hname] at hcall ⊢
    rw [Machine.act_of_call hc hwork hname]
    have hsame : inner' m.calls ⟨c.activity, c.arguments.resolve run.store⟩ =
        inner m.calls ⟨c.activity, c.arguments.resolve run.store⟩ := by
      refine hcall _ ?_
      unfold Machine.call
      dsimp only
      split <;> exact List.prefix_rfl
    have hbefore : (m.emit task.run (.stepStarted step.id step.work.kind)).calls = m.calls := rfl
    unfold Machine.call
    dsimp only
    rw [hbefore, hsame]

theorem step_congr (hcall : ∀ call, ∀ next, m.step inner = some next →
    m.calls ++ [call] <+: next.calls → inner' m.calls call = inner m.calls call) :
    m.step inner' = m.step inner := by
  unfold Machine.step at hcall ⊢
  cases hready : m.ready with
  | nil => rfl
  | cons id rest =>
    rw [hready] at hcall
    dsimp only at hcall ⊢
    cases htask : m.tasks[id]? with
    | none => rfl
    | some task =>
      rw [htask] at hcall
      dsimp only at hcall ⊢
      cases hrun : m.runs[task.run]? with
      | none => rfl
      | some run =>
        rw [hrun] at hcall
        exact congrArg some (act_congr fun call hcalls => hcall call _ rfl hcalls)

/-- Nothing is called while time passes. -/
theorem lull_calls {wanted : Machine → Bool} (h : m.lull wanted limit = .inl e) :
    e.calls = m.calls := by
  unfold Machine.lull at h
  repeat' split at h
  all_goals first | (cases h; rfl) | cases h

/-- A run only adds calls. -/
theorem calls_prefix_run {wanted : Machine → Bool}
    (hrun : Machine.run inner wanted limit fuel m = some e) : m.calls <+: e.calls := by
  induction fuel generalizing m with
  | zero => cases hrun
  | succ fuel ih =>
    cases hstep : m.step inner with
    | some next =>
      rw [run_of_step hstep] at hrun
      obtain ⟨-, -, hturn⟩ := step_turn hstep
      exact (show m.calls <+: next.calls from ⟨_, hturn.calls_eq.symm⟩).trans (ih hrun)
    | none =>
      rw [run_of_lull hstep] at hrun
      cases hlull : m.lull wanted limit with
      | inl ended =>
        rw [hlull] at hrun
        obtain rfl := Option.some.inj hrun
        rw [lull_calls hlull]
      | inr later =>
        rw [hlull] at hrun
        obtain ⟨time, rfl⟩ := lull_eq_inr hlull
        exact ih (m := m.passTo time) hrun

/-- **What the invoker says to calls that are not made does not matter to a run.** -/
theorem run_congr {wanted : Machine → Bool}
    (hrun : Machine.run inner wanted limit fuel m = some e)
    (hcall : ∀ earlier call, earlier ++ [call] <+: e.calls →
      inner' earlier call = inner earlier call) :
    Machine.run inner' wanted limit fuel m = some e := by
  induction fuel generalizing m with
  | zero => cases hrun
  | succ fuel ih =>
    have hsame : m.step inner' = m.step inner := by
      refine step_congr fun call next hstep hnext => hcall _ _ (hnext.trans ?_)
      rw [run_of_step hstep] at hrun
      exact calls_prefix_run hrun
    cases hstep : m.step inner with
    | some next =>
      rw [run_of_step hstep] at hrun
      rw [run_of_step (hsame.trans hstep)]
      exact ih hrun
    | none =>
      rw [run_of_lull hstep] at hrun
      rw [run_of_lull (hsame.trans hstep)]
      cases hlull : m.lull wanted limit with
      | inl ended =>
        rw [hlull] at hrun
        exact hrun
      | inr later =>
        rw [hlull] at hrun
        exact ih hrun

end

/-- **A deadline on every call truncates the delays.** A run of activities that race against a
deadline looks the same as a run of activities that behave as before if they take no longer than the
deadline, and otherwise end just then with a failure that says so: the calls, the events, the time,
the variables and the outcome agree, at every moment at which one may look. If no call of a run
takes longer than the deadline, then the deadline does not change it.

What is waited for a deadline is the deadline itself, unless it is of 2 ^ 63 seconds or more. No
64-bit number of milliseconds is that long. Such a deadline cannot be added to the time on the
clock and is taken for thirty years. -/
theorem deadline_truncates (inner : Invoker) (deadline : Nat) :
    (∀ d input stop limit fuel, Watched.seen inner deadline d input stop limit fuel =
      seen (inner.within deadline) d input stop limit fuel) ∧
    (sleepLength deadline =
      if deadline < Nat.pow 2 63 * 1000 then deadline else 30 * 365 * 86400 * 1000) ∧
    (∀ earlier call, inner.within deadline earlier call =
      if (inner earlier call).delay ≤ sleepLength deadline then inner earlier call
      else ⟨sleepLength deadline, .result {
        success := false
        data := none
        error := some
          ("Activity '" ++ call.name ++ "' timed out after " ++ secondsText deadline ++ "s") }⟩) ∧
    ∀ d input stop limit fuel view, seen inner d input stop limit fuel = some view →
      (∀ earlier call, earlier ++ [call] <+: view.calls →
        (inner earlier call).delay ≤ sleepLength deadline) →
      Watched.seen inner deadline d input stop limit fuel = some view := by
  have htruncates : ∀ d input stop limit fuel,
      Watched.seen inner deadline d input stop limit fuel =
        seen (inner.within deadline) d input stop limit fuel := by
    intro d input stop limit fuel
    let opened : Watched := ⟨({} : Machine).launch d input, []⟩
    have hsettled : opened.settled deadline = ({} : Machine).launch d input := rfl
    have hreach : Scene.Reaches (inner.within deadline) (Scene.opening d input)
        ⟨opened.settled deadline, {}⟩ := .refl
    have hfair : opened.Fair := ⟨List.nodup_nil, List.forall_mem_nil _, List.forall_mem_nil _,
      List.forall_mem_nil _, rfl⟩
    have hrun := Watched.run_settled hreach hfair stop limit fuel
    rw [seen, ← hsettled, hrun, Option.map_map]
    rfl
  refine ⟨htruncates, rfl, fun _ _ => rfl, ?intime⟩
  case intime =>
    intro d input stop limit fuel view hseen hdelay
    obtain ⟨e, hrun, rfl⟩ := Option.map_eq_some_iff.1 hseen
    have hsame : ∀ earlier call, earlier ++ [call] <+: e.calls →
        inner.within deadline earlier call = inner earlier call :=
      fun earlier call hcall => if_pos (hdelay earlier call hcall)
    rw [htruncates, seen, run_congr hrun hsame]
    rfl

/-- A call that takes five milliseconds is cut off at a deadline of three and not at one of five. -/
theorem deadline_truncates_patchy :
    sleepLength 3 = 3 ∧
      slowly.within 3 [] ⟨"say", []⟩ = ⟨3, .result {
        success := false, error := some "Activity 'say' timed out after 0.003s" }⟩ ∧
      timedOut "slow" 50 =
        { success := false, error := some "Activity 'slow' timed out after 0.05s" } ∧
      seen slowly patchy [] true none 50 = some patchyView ∧
      Watched.seen slowly 5 patchy [] true none 50 = some patchyView := by
  have hseen : seen slowly patchy [] true none 50 = some patchyView := rfl
  obtain ⟨-, hlength, hcut, -⟩ := deadline_truncates slowly 3
  have hthree : sleepLength 3 = 3 := hlength
  refine ⟨hthree, ?_, by decide +kernel, hseen, ?_⟩
  · rw [hcut]
    decide +kernel
  · exact (deadline_truncates slowly 5).2.2.2 patchy [] true none 50 patchyView hseen
      fun _ _ _ => (by decide : 5 ≤ sleepLength 5)

end Flowgraph.Run

import Flowgraph.Proofs.Run.Verdict
import Flowgraph.Proofs.Run.Weight

/-!
# Runs come to an end

What the check of a definition is worth for its runs. If the check finds no error and all calls
of activities come back, then **every run terminates** (`Sound.terminates`), for any input, any
delays and any order in which the tasks have their turns:

* the small steps of all its runs are bounded by a number that depends on the definition alone;
* before the end no task is forgotten, so a machine that stops working has returned;
* step executions are nested less deep than there are steps;
* the run succeeds or fails because an activity has failed, and for no other reason.

That the weights of `Proofs/Run/Weight` go down is one half of it. The other half is the
invariant `Scene.Lively`: a task that is not in the line and waits for no activity waits for a
branch, and so for a task with a greater number.
-/

set_option autoImplicit false

namespace Flowgraph

namespace Run

variable {invoker : Invoker} {d : Definition} {w : Step → Nat} {input : Store} {x : Scene}
  {m m' : Machine} {l : Ledger} {id j : Nat} {deeds : List Deed} {task : Task}

/-! ### Every task has its turn -/

/-- Whether a task has nothing to do, is in the line, or waits for an activity or for branches
none of which has ended. -/
def Machine.Attends (m : Machine) (id : Nat) (task : Task) : Prop :=
  task.control = .stopped ∨ id ∈ m.ready ∨ id ∈ m.timers.map (·.2) ∨
    ∃ step missing, task.control = .join step missing []

/-- Whether no task of a scene has been forgotten. -/
def Scene.Lively (x : Scene) : Prop :=
  ∀ (id : Nat) (task : Task), x.machine.tasks[id]? = some task → x.machine.Attends id task

theorem Machine.Attends.mono (h : m.Attends id task) (hready : id ∈ m.ready → id ∈ m'.ready)
    (htimers : id ∈ m.timers.map (·.2) → id ∈ m'.timers.map (·.2)) : m'.Attends id task := by
  rcases h with hstopped | hmem | hmem | hjoin
  · exact Or.inl hstopped
  · exact Or.inr (Or.inl (hready hmem))
  · exact Or.inr (Or.inr (Or.inl (htimers hmem)))
  · exact Or.inr (Or.inr (Or.inr hjoin))

theorem Control.Idle.cases {control : Control} (h : control.Idle) :
    control = .stopped ∨ ∃ step missing, control = .join step missing [] := by
  cases control with
  | stopped => exact Or.inl rfl
  | join step missing ended =>
    obtain rfl : ended = [] := h
    exact Or.inr ⟨step, missing, rfl⟩
  | _ => exact h.elim

theorem mem_tail {rest : List Nat} (hready : m.ready = id :: rest) (hne : j ≠ id)
    (h : j ∈ m.ready) : j ∈ m.ready.tail := by
  rw [hready] at h ⊢
  exact (List.mem_cons.1 h).resolve_left hne

/-- **No turn makes a task be forgotten.** -/
theorem Scene.Lively.turn (h : Scene.Lively ⟨m, l⟩) (hplaced : Scene.Placed d ⟨m, l⟩)
    (hturn : Turn invoker m id deeds m') {rest : List Nat} (hready : m.ready = id :: rest)
    {l' : Ledger} : Scene.Lively ⟨m', l'⟩ := by
  intro j task hj
  dsimp only at hj ⊢
  cases hturn with
  | idle hidle =>
    by_cases hne : j = id
    · subst hne
      obtain ⟨hzero, -⟩ := hplaced.exists_placed hj
      obtain ⟨run, hrun, -⟩ := hplaced.run
      have hnow := hidle task run hj (by rw [hzero]; simp only at hrun; rw [hrun]; rfl)
      rcases hnow.cases with hstopped | hjoin
      · exact Or.inl hstopped
      · exact Or.inr (Or.inr (Or.inr hjoin))
    · exact (h j task hj).mono (mem_tail hready hne) (fun hmem => hmem)
  | goes htask hrun hadv hline =>
    rcases getElem?_set_cases hj with ⟨rfl, -⟩ | ⟨hne, hold⟩
    · rcases hline with ⟨rfl, -⟩ | ⟨_, _, _, time, -, -, rfl⟩
      · exact Or.inr (Or.inl (by simp [hready]))
      · exact Or.inr (Or.inr (Or.inl (by simp)))
    · rcases hline with ⟨rfl, rfl⟩ | ⟨_, _, _, time, -, rfl, rfl⟩
      · exact h j task hold
      · refine (h j task hold).mono (mem_tail hready hne) fun hmem => ?_
        rw [List.map_append]
        exact List.mem_append_left _ hmem
  | forks htask hrun hc hwork hall hbranches =>
    rcases getElem?_append_cases hj with hj | ⟨hle, hj⟩
    · rcases getElem?_set_cases hj with ⟨rfl, -⟩ | ⟨hne, hold⟩
      · exact Or.inr (Or.inl (by simp))
      · refine (h j task hold).mono (fun hmem => ?_) (fun hmem => hmem)
        exact List.mem_append_left _ (List.mem_append_left _ (mem_tail hready hne hmem))
    · rw [List.length_set] at hle hj
      have hlt := lt_of_getElem? hj
      rw [List.length_map] at hlt
      refine Or.inr (Or.inl (List.mem_append_left _ (List.mem_append_right _ ?_)))
      exact List.mem_range'_1.2 ⟨hle, by omega⟩
  | @ends child _ _ parent ready htask hrun hparent hframes hc hline hwoken =>
    have hkeep : ∀ i, i ≠ id → i ∈ m.ready → i ∈ ready := by
      intro i hne hmem
      rcases hline with rfl | rfl
      · exact mem_tail hready hne hmem
      · exact List.mem_append_left _ (mem_tail hready hne hmem)
    obtain ⟨old, hold, hnew⟩ := getElem?_modify_cases hj
    rcases getElem?_set_cases hold with ⟨rfl, rfl⟩ | ⟨hne, hbefore⟩
    · refine Or.inl ?_
      rcases hnew with ⟨-, rfl⟩ | ⟨-, rfl⟩ <;> rfl
    · rcases hnew with ⟨-, rfl⟩ | ⟨rfl, rfl⟩
      · exact (h j _ hbefore).mono (hkeep j hne) (fun hmem => hmem)
      · -- a task that is told about a branch while it waits is put in the line
        rcases h j old hbefore with hstopped | hmem | hmem | ⟨step, missing, hjoin⟩
        · refine Or.inl ?_
          show old.control.told _ = _
          rw [hstopped]
          rfl
        · exact Or.inr (Or.inl (hkeep j hne hmem))
        · exact Or.inr (Or.inr (Or.inl hmem))
        · exact Or.inr (Or.inl (hwoken old step missing [] hold hjoin))
  | returns htask hrun hparent hframes hc =>
    rcases getElem?_set_cases hj with ⟨rfl, rfl⟩ | ⟨hne, hold⟩
    · exact Or.inl rfl
    · exact (h j task hold).mono (mem_tail hready hne) (fun hmem => hmem)

/-- **No task is forgotten**, in any scene that is reached. -/
theorem Scene.Reaches.lively (h : Scene.Reaches invoker (Scene.opening d input) x) : x.Lively := by
  induction h with
  | refl =>
    intro id task htask
    obtain ⟨rfl, -⟩ := Scene.task_of_opening htask
    exact Or.inr (Or.inl (List.mem_singleton_self _))
  | tail hreach hmove ih =>
    have hreach : Scene.Reaches invoker (Scene.opening d input) _ := hreach
    cases hmove with
    | work hstep =>
      obtain ⟨rest, hready, hturn⟩ := step_turn hstep
      exact ih.turn hreach.placed hturn hready
    | @wait m l time =>
      intro id task htask
      rcases ih id task htask with hstopped | hmem | hmem | hjoin
      · exact Or.inl hstopped
      · exact Or.inr (Or.inl (List.mem_append_left _ hmem))
      · obtain ⟨timer, htimer, rfl⟩ := List.mem_map.1 hmem
        by_cases hdue : timer.1 ≤ time
        · refine Or.inr (Or.inl (List.mem_append_right _ (List.mem_map_of_mem ?_)))
          exact List.mem_filter.2 ⟨htimer, by simpa using hdue⟩
        · refine Or.inr (Or.inr (Or.inl (List.mem_map_of_mem ?_)))
          exact List.mem_filter.2 ⟨htimer, by simpa using hdue⟩
      · exact Or.inr (Or.inr (Or.inr hjoin))
    | reorder hperm =>
      intro id task htask
      exact (ih id task htask).mono hperm.mem_iff.2 (fun hmem => hmem)

/-! ### A machine at rest has returned -/

/-- Whether a machine has nothing more to do. -/
def Machine.Quiet (m : Machine) : Prop := m.ready = [] ∧ m.timers = []

/-- **At rest all tasks have stopped**: one that waited for branches would wait for a later one
that is alive, and so on without an end. -/
theorem Scene.Orderly.still_of_quiet (h : x.Orderly) (hplaced : x.Placed d) (hlively : x.Lively)
    (hquiet : x.machine.Quiet) : x.Still := by
  suffices hall : ∀ (n id : Nat) (task : Task), x.machine.tasks.length - id ≤ n →
      x.machine.tasks[id]? = some task → task.control = .stopped by
    intro task hmem
    obtain ⟨id, htask⟩ := List.mem_iff_getElem?.1 hmem
    exact hall _ id task (Nat.le_refl _) htask
  intro n
  -- by induction on how many tasks come after the task
  induction n with
  | zero =>
    intro id task hn htask
    have := lt_of_getElem? htask
    omega
  | succ n ih =>
    intro id task hn htask
    rcases hlively id task htask with hstopped | hmem | hmem | ⟨step, missing, hjoin⟩
    · exact hstopped
    · rw [hquiet.1] at hmem
      cases hmem
    · rw [hquiet.2] at hmem
      cases hmem
    · obtain ⟨hcount, hpos⟩ := h.joins id task step missing [] htask hjoin
      rw [List.length_nil, Nat.zero_add] at hcount
      rw [hcount] at hpos
      obtain ⟨kid, child, hchild, hparent, hrunning⟩ := exists_liveKid hpos
      have hlater : id < kid := (hplaced.parents kid child hchild).2 id hparent
      have hstopped := ih kid child (by omega) hchild
      rw [hstopped] at hrunning
      cases hrunning

/-- **A machine at rest has returned.** -/
theorem Scene.Reaches.returned_of_quiet (h : Scene.Reaches invoker (Scene.opening d input) x)
    (hquiet : x.machine.Quiet) :
    ∃ outcome, x.machine.runs.map (·.outcome) = [some outcome] := by
  obtain ⟨run, hrun, -, houtcome⟩ := h.recorded
  obtain ⟨first, hfirst⟩ := getElem?_of_lt h.placed.first
  have hstill := h.orderly.still_of_quiet h.placed h.lively hquiet
  have hstopped := h.orderly.stopped 0 first hfirst
  rw [hstill first (List.mem_of_getElem? hfirst), ← houtcome] at hstopped
  obtain ⟨outcome, hsome⟩ := Option.isSome_iff_exists.1 hstopped.symm
  exact ⟨outcome, by rw [hrun]; simp [hsome]⟩

/-- A machine whose only run is over has returned. -/
theorem Scene.Placed.returned_of_isOver (h : x.Placed d) (hover : x.machine.isOver 0 = true) :
    ∃ outcome, x.machine.runs.map (·.outcome) = [some outcome] := by
  obtain ⟨run, hrun, -⟩ := h.run
  rw [Machine.isOver, hrun] at hover
  obtain ⟨outcome, houtcome⟩ := Option.isSome_iff_exists.1 hover
  have houtcome : run.outcome = some outcome := houtcome
  exact ⟨outcome, by rw [hrun]; simp [houtcome]⟩

/-! ### Enough fuel -/

theorem Machine.ready_of_step_eq_none (h : m.step invoker = none) : m.ready = [] := by
  unfold Machine.step at h
  cases hready : m.ready with
  | nil => rfl
  | cons id rest =>
    rw [hready] at h
    dsimp only at h
    split at h
    · cases h
    · split at h <;> cases h

theorem Machine.timers_of_nextTime?_eq_none (h : m.nextTime? = none) : m.timers = [] := by
  simpa [Machine.nextTime?] using h

/-- Some task is due at the next time. -/
theorem Machine.due_of_nextTime? {time : Nat} (h : m.nextTime? = some time) :
    0 < (m.timers.filter (·.1 ≤ time)).length := by
  obtain ⟨timer, htimer, htime⟩ := List.mem_map.1 (List.min?_mem h)
  exact List.length_pos_of_mem (List.mem_filter.2 ⟨htimer, by simp [htime]⟩)

/-- **With more fuel than its weight, a machine gets to where it is wanted, or to rest.** -/
theorem Scene.Reaches.run_ends {fuel : Nat}
    (h : Scene.Reaches invoker (Scene.opening d input) ⟨m, l⟩) (hweight : d.Weighed w)
    (wanted : Machine → Bool) (hfuel : m.weight d w < fuel) :
    ∃ m', Machine.run invoker wanted none fuel m = some m' ∧
      (wanted m' = true ∨ m'.Quiet) := by
  induction fuel generalizing m l with
  | zero => omega
  | succ fuel ih =>
    unfold Machine.run
    cases hstep : m.step invoker with
    | some next =>
      have hlt := h.weight_step hweight hstep
      exact ih (h.trans (Scene.Moves.work hstep).reaches) (by omega)
    | none =>
      dsimp only
      by_cases hwanted : wanted m
      · rw [if_pos hwanted]
        exact ⟨m, rfl, Or.inl hwanted⟩
      · -- no task can work, so time passes or the machine is at rest
        rw [if_neg hwanted]
        cases htime : m.nextTime? with
        | some time =>
          have heq := weight_passTo (d := d) (w := w) (m := m) time
          have hdue := Machine.due_of_nextTime? htime
          exact ih (h.trans (Scene.Moves.wait time).reaches) (by omega)
        | none =>
          exact ⟨m, rfl, Or.inr ⟨Machine.ready_of_step_eq_none hstep,
            Machine.timers_of_nextTime?_eq_none htime⟩⟩

/-- **With more fuel than its weight, a machine returns**, if it is not stopped before its run is
over. -/
theorem Scene.Reaches.run_returns {fuel : Nat} {wanted : Machine → Bool}
    (h : Scene.Reaches invoker (Scene.opening d input) ⟨m, l⟩) (hweight : d.Weighed w)
    (hwanted : ∀ m, wanted m = true → m.isOver 0 = true) (hfuel : m.weight d w < fuel) :
    ∃ x, Scene.Reaches invoker (Scene.opening d input) x ∧
      Machine.run invoker wanted none fuel m = some x.machine ∧
      ∃ outcome, x.machine.runs.map (·.outcome) = [some outcome] := by
  obtain ⟨m', hrun, hends⟩ := h.run_ends hweight wanted hfuel
  obtain ⟨l', hl'⟩ := Machine.run_reaches hrun l
  have hnow := h.trans hl'
  refine ⟨⟨m', l'⟩, hnow, hrun, ?_⟩
  rcases hends with hover | hquiet
  · exact hnow.placed.returned_of_isOver (hwanted m' hover)
  · exact hnow.returned_of_quiet hquiet

end Run

/-! ### What soundness is worth -/

open Run

/-- Whether a failure is that of an activity. -/
def Run.Failure.OfActivity (failure : Failure) : Prop :=
  ∃ name message, failure = .activity name message

namespace Definition.Sound

variable {d : Definition}

/-- The steps of a sound definition give rise to no failure of their own. -/
theorem allows (h : d.Sound) : d.Allows Failure.OfActivity where
  root hnone := by
    obtain ⟨root, hroot⟩ := h.rootStep
    rw [hroot] at hnone
    cases hnone
  unnamed s hs c hwork hblank := by
    rw [h.named hs hwork] at hblank
    cases hblank
  missing s hs ids id hwork herror := by
    obtain ⟨hmem, hnone⟩ := resolveAll_error herror
    have hr : (⟨.branches, id⟩ : Reference) ∈ s.references := by
      refine List.mem_append_left _ ?_
      rw [hwork]
      exact List.mem_map_of_mem hmem
    obtain ⟨t, ht⟩ := h.target hs hr
    rw [hnone] at ht
    cases ht
  activity name message := ⟨name, message, rfl⟩

end Definition.Sound

/-- What holds of a scene of a run that terminates. -/
structure Run.Scene.Terminates (invoker : Invoker) (d : Definition) (x : Scene) : Prop where
  /-- Every step execution is nested in fewer others than there are steps. -/
  depth : ∀ e ∈ x.ledger.history, ∀ step, e.deed = .entered step →
    e.address.length < d.steps.length
  /-- Whatever ends, be it a step, a branch or the run, ends well or because an activity has
  failed. -/
  within : x.Within Failure.OfActivity
  /-- As long as the run has not returned, a task can work or waits for an activity. -/
  busy : x.machine.runs.map (·.outcome) = [none] → ¬ x.machine.Quiet
  /-- From here on the run returns, whether the machine is stopped as soon as it has or works on. -/
  returns : ∀ wanted : Machine → Bool, (∀ m, wanted m = true → m.isOver 0 = true) →
    ∃ fuel, ∀ n, fuel ≤ n → ∃ m, Machine.run invoker wanted none n x.machine = some m ∧
      ∃ outcome, m.runs.map (·.outcome) = [some outcome] ∧ outcome.Within Failure.OfActivity

/-- **Every run of a sound definition terminates**, if the activities that it calls come back. -/
theorem Definition.Sound.terminates {d : Definition} (hsound : d.Sound) :
    ∃ bound, ∀ (invoker : Invoker) (input : Store) (n : Nat) (x : Scene), invoker.Calm →
      Scene.Takes invoker (Scene.opening d input) n x →
      n ≤ bound ∧ x.Terminates invoker d := by
  obtain ⟨w, hweight⟩ := hsound.exists_weight
  refine ⟨(Scene.opening d []).machine.weight d w, fun invoker input n x hcalm htakes => ?_⟩
  have hreach := htakes.reaches
  have hle := htakes.weight_le hweight
  refine ⟨Nat.le_trans (Nat.le_add_right _ _) hle, ?depth, hreach.within hcalm hsound.allows,
    ?busy, ?returns⟩
  case depth =>
    intro e he step hdeed
    obtain ⟨-, hlocated⟩ := hreach.placed.entries e he
    rw [hdeed] at hlocated
    exact hsound.length_lt hlocated
  case busy =>
    intro hnone hquiet
    obtain ⟨outcome, hreturned⟩ := hreach.returned_of_quiet hquiet
    rw [hnone] at hreturned
    cases hreturned
  case returns =>
    intro wanted hwanted
    refine ⟨x.machine.weight d w + 1, fun fuel hfuel => ?_⟩
    obtain ⟨y, hy, hrun, outcome, houtcome⟩ := hreach.run_returns hweight hwanted hfuel
    refine ⟨y.machine, hrun, outcome, houtcome, ?_⟩
    obtain ⟨run, hmem, hrun⟩ := List.mem_map.1 (houtcome ▸ List.mem_singleton_self _)
    exact (hy.within hcalm hsound.allows).runs run hmem outcome hrun

namespace Run

theorem sound_race : race.Sound := Definition.sound_iff.2 (by decide +kernel)

/-- The race terminates, and 40 steps are enough for it to return. -/
theorem terminates_race :
    (∃ bound, ∀ (n : Nat) (x : Scene), Scene.Takes racing (Scene.opening race []) n x →
        n ≤ bound ∧ x.Terminates racing race) ∧
      (Machine.run racing (·.isOver 0) none 40 (Scene.opening race []).machine).map
          (·.runs.map (·.outcome)) = some [some (.failed (.activity "quick" "quick"))] := by
  obtain ⟨bound, hbound⟩ := Definition.Sound.terminates sound_race
  exact ⟨⟨bound, fun n x htakes => hbound racing [] n x calm_racing htakes⟩, by rfl⟩

end Run

end Flowgraph

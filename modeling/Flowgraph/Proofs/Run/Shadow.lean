import Flowgraph.Proofs.Run.Bystanders

/-!
# A run and the clock

A machine with one run `Shadows` a run of another machine if it mirrors it and its clock goes along:
as long as tasks of the run can work, the two clocks only differ by the time at which the run was
launched. While they all wait, the clock of the one run stands still, and the other may go on for
the sake of other runs; it cannot go past a timer of the run.

**Whatever a machine does is a move of the shadow or none** (`Shadows.flows`).
-/

set_option autoImplicit false

namespace Flowgraph.Run

variable {invoker : Invoker} {m m' m₀ : Machine} {r id start time : Nat}

/-! ### Timers -/

theorem Machine.notify_timers (parent branch : Nat) (outcome : Outcome) :
    (m.notify parent branch outcome).timers = m.timers := by
  unfold Machine.notify
  split
  · unfold Machine.wake
    split <;> rfl
  · rfl

theorem Machine.stop_timers (task : Task) (outcome : Outcome) :
    (m.stop id task outcome).timers = m.timers := by
  unfold Machine.stop
  split
  · exact notify_timers _ _ _
  · cases outcome <;> rfl

theorem Machine.leave_timers (task : Task) (run : Progress) (outcome : Outcome) :
    (m.leave id task run outcome).timers = m.timers := by
  unfold Machine.leave
  split <;> first | rfl | exact stop_timers _ _

theorem Machine.call_timers (task : Task) (store : Store) (step : Step) (c : Call) :
    (m.call invoker id task store step c).timers = m.timers ∨
      ∃ delay, (m.call invoker id task store step c).timers =
        m.timers ++ [(m.now + delay, id)] := by
  unfold Machine.call
  dsimp only
  split
  · exact Or.inl rfl
  · exact Or.inr ⟨_, rfl⟩

theorem Machine.enter_timers (task : Task) (run : Progress) (step : Step) :
    (m.enter invoker id task run step).timers = m.timers ∨
      ∃ delay, (m.enter invoker id task run step).timers = m.timers ++ [(m.now + delay, id)] := by
  unfold Machine.enter
  dsimp only
  split
  · split
    · exact Or.inl rfl
    · exact call_timers (m := m.emit task.run (.stepStarted step.id step.work.kind)) ..
  · exact Or.inl rfl
  · split <;> exact Or.inl rfl
  · exact Or.inl rfl

/-- A new timer of a small step is counted from the present. -/
theorem Machine.step_timers (h : m.step invoker = some m') :
    m'.timers = m.timers ∨ ∃ delay id, m'.timers = m.timers ++ [(m.now + delay, id)] := by
  unfold Machine.step at h
  split at h
  · cases h
  · split at h
    · cases h
      exact Or.inl rfl
    · split at h
      · cases h
        exact Or.inl rfl
      · cases h
        unfold Machine.act
        split
        · exact Or.inl rfl
        · exact (enter_timers _ _ _).imp_right fun ⟨delay, h⟩ => ⟨delay, _, h⟩
        · exact Or.inl (leave_timers _ _ _)
        · rename_i ending _
          cases ending <;> exact Or.inl rfl
        · rename_i ended _
          rcases ended with _ | ⟨⟨_, _ | _ | _⟩, _⟩ <;> exact Or.inl rfl
        · exact Or.inl rfl

theorem Turn.now_eq {deeds : List Deed} (h : Turn invoker m id deeds m') : m'.now = m.now := by
  cases h <;> rfl

/-- No timer is in the past. -/
def Machine.Ahead (m : Machine) : Prop := ∀ timer ∈ m.timers, m.now ≤ timer.1

namespace Machine.Ahead

theorem moves (h : m.Ahead) (hmoves : Machine.Moves invoker m m') : m'.Ahead := by
  cases hmoves with
  | work hstep =>
    obtain ⟨-, -, hturn⟩ := step_turn hstep
    intro timer htimer
    rw [hturn.now_eq]
    rcases step_timers hstep with hsame | ⟨delay, id, hnew⟩
    · exact h timer (hsame ▸ htimer)
    · rcases List.mem_append.1 (hnew ▸ htimer) with hold | htimer
      · exact h timer hold
      · obtain rfl := List.mem_singleton.1 htimer
        exact Nat.le_add_right _ _
  | wait time =>
    intro timer htimer
    obtain ⟨hmem, hlater⟩ := List.mem_filter.1 htimer
    have := h timer hmem
    have hlater : time < timer.1 := by simpa using hlater
    exact Nat.max_le.2 ⟨this, Nat.le_of_lt hlater⟩
  | reorder => exact h

end Machine.Ahead

/-! ### Time passes -/

/-- Time passes for a run when time passes for the machine. -/
theorem Mirrors.passTo (h : Mirrors r start m m₀) (time : Nat) :
    Mirrors r start (m.passTo (time + start)) (m₀.passTo time) where
  runs := h.runs
  tasks := h.tasks
  ready := by
    show m₀.ready ++ (m₀.timers.filter (·.1 ≤ time)).map (·.2) =
      m.soloLine r (m.ready ++ (m.timers.filter (·.1 ≤ time + start)).map (·.2))
    have hdue : (m₀.timers.filter (·.1 ≤ time)).map (·.2) =
        ((m.soloTimers r).filter (·.1 ≤ time + start)).map (·.2) := by
      rw [← h.timers, List.filter_map, List.map_map]
      simp [Function.comp_def]
    rw [soloLine_append, ← h.ready, hdue]
    simp [Machine.soloTimers, Machine.soloLine, List.filter_map, List.filter_filter,
      Function.comp_def, Bool.and_comm]
  timers := by
    have hlater : (m₀.timers.filter (time < ·.1)).map (fun timer => (timer.1 + start, timer.2)) =
        (m.soloTimers r).filter (time + start < ·.1) := by
      rw [← h.timers, List.filter_map]
      simp [Function.comp_def]
    rw [show (m₀.passTo time).timers = m₀.timers.filter (time < ·.1) from rfl, hlater]
    show _ = ((m.timers.filter (time + start < ·.1)).filter fun timer => m.owns r timer.2).map
      fun timer => (timer.1, m.place r timer.2)
    simp [Machine.soloTimers, List.filter_map, List.filter_filter, Function.comp_def,
      Bool.and_comm]

/-- Time passes without a run if none of its timers is due. -/
theorem untouched_passTo (h : ∀ timer ∈ m.timers, m.owns r timer.2 = true → time < timer.1) :
    Untouched r m (m.passTo time) where
  workers := ⟨[], (List.append_nil _).symm⟩
  owns := rfl
  runs := rfl
  tasks := rfl
  ready := by
    have hnone : ((m.timers.filter (·.1 ≤ time)).map (·.2)).filter (m.owns r) = [] := by
      refine List.filter_eq_nil_iff.2 fun id hid howns => ?_
      obtain ⟨timer, htimer, rfl⟩ := List.mem_map.1 hid
      obtain ⟨hmem, hdue⟩ := List.mem_filter.1 htimer
      have := h timer hmem howns
      have hdue : timer.1 ≤ time := by simpa using hdue
      omega
    show (m.ready ++ (m.timers.filter (·.1 ≤ time)).map (·.2)).filter (m.owns r) = _
    rw [List.filter_append, hnone, List.append_nil]
  timers := by
    show (m.timers.filter (time < ·.1)).filter (fun timer => m.owns r timer.2) = _
    rw [List.filter_filter]
    refine List.filter_congr fun timer htimer => ?_
    cases howns : m.owns r timer.2 with
    | false => rfl
    | true => simpa using h timer htimer howns

/-! ### The shadow of a run -/

/-- A machine is one run of another one, and their clocks go along while the run can work. -/
structure Shadows (r start : Nat) (m m₀ : Machine) : Prop where
  mirrors : Mirrors r start m m₀
  late : m₀.now + start ≤ m.now
  alike : m₀.ready ≠ [] → m.now = m₀.now + start

namespace Shadows

/-- A small step of the machine is one of the shadow, or is none of its business. -/
theorem work (h : Shadows r start m m₀) (hfree : invoker.Memoryless) (hhoused : m.Housed)
    (hcalm : m.Unshaken) (hr : r < m.runs.length) (hstep : m.step invoker = some m') :
    ∃ n, Shadows r start m' ((Machine.next invoker)^[n] m₀) := by
  obtain ⟨rest, hready, hturn⟩ := step_turn hstep
  cases howns : m.owns r (m.deeds invoker).1 with
  | false =>
    refine ⟨0, (hturn.untouched howns hhoused hready).mirrors hhoused h.mirrors, ?_, ?_⟩
    · rw [hturn.now_eq]
      exact h.late
    · rw [hturn.now_eq]
      exact h.alike
  | true =>
    have hsome : m₀.ready ≠ [] := by
      rw [h.mirrors.ready, hready]
      simp [Machine.soloLine, howns]
    have hnow := h.alike hsome
    obtain ⟨m₀', hstep₀, hmirrors⟩ :=
      h.mirrors.step_own hfree hhoused hcalm hready howns hr hnow hstep
    obtain ⟨-, -, hturn₀⟩ := step_turn hstep₀
    have hnext : (Machine.next invoker)^[1] m₀ = m₀' := by
      simp [Machine.next, hstep₀]
    have hnow' : m'.now = m₀'.now + start := by rw [hturn.now_eq, hturn₀.now_eq, hnow]
    exact ⟨1, hnext ▸ ⟨hmirrors, Nat.le_of_eq hnow'.symm, fun _ => hnow'⟩⟩

/-- Time passes for the shadow if a timer of the run is due, and then to the next timer. -/
theorem wait (h : Shadows r start m m₀) (hhoused : m.Housed) (hahead : m.Ahead)
    (hready : m.ready = []) (hle : ∀ timer ∈ m.timers, time ≤ timer.1) :
    ∃ n, Shadows r start (m.passTo time) ((Machine.next invoker)^[n] m₀) := by
  have hready₀ : m₀.ready = [] := by
    rw [h.mirrors.ready, hready]
    rfl
  by_cases hdue : ∃ timer ∈ m.timers, m.owns r timer.2 = true ∧ timer.1 ≤ time
  · obtain ⟨timer, hmem, howns, hle'⟩ := hdue
    obtain rfl : time = timer.1 := Nat.le_antisymm (hle timer hmem) hle'
    -- the timer is also one of the shadow, and the first one there
    have hsolo : (timer.1, m.place r timer.2) ∈ m.soloTimers r :=
      List.mem_map.2 ⟨timer, List.mem_filter.2 ⟨hmem, howns⟩, rfl⟩
    rw [← h.mirrors.timers] at hsolo
    obtain ⟨timer₀, hmem₀, heq⟩ := List.mem_map.1 hsolo
    have htime : timer₀.1 + start = timer.1 := congrArg Prod.fst heq
    have hnext : m₀.nextTime? = some timer₀.1 := by
      refine List.min?_eq_some_iff.2 ⟨List.mem_map_of_mem hmem₀, fun t ht => ?_⟩
      obtain ⟨other₀, hother₀, rfl⟩ := List.mem_map.1 ht
      have hother : (other₀.1 + start, other₀.2) ∈ m.soloTimers r :=
        h.mirrors.timers ▸ List.mem_map_of_mem hother₀
      obtain ⟨other, hother, heq⟩ := List.mem_map.1 hother
      have := hle other (List.mem_of_mem_filter hother)
      have : other.1 = other₀.1 + start := congrArg Prod.fst heq
      omega
    have hmove : (Machine.next invoker)^[1] m₀ = m₀.passTo timer₀.1 := by
      have hstep : m₀.step invoker = none := by simp [Machine.step, hready₀]
      simp [Machine.next, hstep, hnext]
    have hnow : (m.passTo timer.1).now = (m₀.passTo timer₀.1).now + start := by
      have := hahead timer hmem
      have := h.late
      show max m.now timer.1 = max m₀.now timer₀.1 + start
      omega
    refine ⟨1, ?_⟩
    rw [hmove]
    exact ⟨htime ▸ h.mirrors.passTo timer₀.1, Nat.le_of_eq hnow.symm, fun _ => hnow⟩
  · have huntouched : Untouched r m (m.passTo time) := by
      refine untouched_passTo fun timer hmem howns => Nat.lt_of_not_le fun hle => ?_
      exact hdue ⟨timer, hmem, howns, hle⟩
    exact ⟨0, huntouched.mirrors hhoused h.mirrors, Nat.le_trans h.late (Nat.le_max_left _ _),
      fun hsome => absurd hready₀ hsome⟩

/-- **Whatever the machine does is a move of the shadow or none.** -/
theorem flows (h : Shadows r start m m₀) (hfree : invoker.Memoryless) (hhoused : m.Housed)
    (hcalm : m.Unshaken) (hahead : m.Ahead) (hr : r < m.runs.length)
    (hflows : Machine.Flows invoker m m') :
    ∃ n, Shadows r start m' ((Machine.next invoker)^[n] m₀) := by
  cases hflows with
  | work hstep => exact h.work hfree hhoused hcalm hr hstep
  | wait hready hle => exact h.wait hhoused hahead hready hle
  | mix hperm hline =>
    exact ⟨0, (untouched_mix (hline r)).mirrors hhoused h.mirrors, h.late, h.alike⟩

/-- A run that is launched beside it is none of the business of the shadow. -/
theorem launch (h : Shadows r start m m₀) (hhoused : m.Housed) (hr : r < m.runs.length)
    (d : Definition) (input : Store) : Shadows r start (m.launch d input) m₀ :=
  ⟨(untouched_launch hr d input).mirrors hhoused h.mirrors, h.late, h.alike⟩

end Shadows

/-- No task works on a run before it is launched. -/
theorem Machine.Rooted.owns_length (h : m.Rooted) (id : Nat) : m.owns m.runs.length id = false := by
  rw [Bool.eq_false_iff]
  intro howns
  obtain ⟨task, htask, hrun⟩ := exists_task_of_owns howns
  exact absurd (h.run_lt id task htask) (Nat.not_lt.2 (Nat.le_of_eq hrun.symm))

/-- A run that has just been launched has a shadow that has just been launched. -/
theorem shadows_launch (hhoused : m.Housed) (hrooted : m.Rooted) (d : Definition)
    (input : Store) :
    Shadows m.runs.length m.now (m.launch d input) (({} : Machine).launch d input) := by
  have hold : ∀ id, id < m.tasks.length → (m.launch d input).owns m.runs.length id = false :=
    fun id hid => (owns_grow (workers_launch d input) hid).trans (hrooted.owns_length id)
  have hnew : (m.launch d input).owns m.runs.length m.tasks.length = true := by
    simp [Machine.owns, Machine.launch]
  have hplace : (m.launch d input).place m.runs.length m.tasks.length = 0 := by
    rw [place_grow (workers_launch d input) (Nat.le_refl _), Machine.place, List.count_eq_zero]
    intro hmem
    obtain ⟨id, hid⟩ := List.mem_iff_getElem?.1 (List.mem_of_mem_take hmem)
    have := hrooted.owns_length id
    rw [Machine.owns_iff.2 hid] at this
    cases this
  refine ⟨⟨?_, ?_, ?_, ?_⟩, Nat.le_of_eq (Nat.zero_add _), fun _ => (Nat.zero_add _).symm⟩
  · simp [Machine.launch]
  · have hnone : m.tasks.filter (·.run == m.runs.length) = [] := by
      refine List.filter_eq_nil_iff.2 fun task htask hrun => ?_
      obtain ⟨id, hid⟩ := List.mem_iff_getElem?.1 htask
      have := hrooted.run_lt id task hid
      have : task.run = m.runs.length := by simpa using hrun
      omega
    simp [Machine.soloTasks, Machine.launch, hnone, Task.solo, Task.plain, Control.plain]
  · have hnone : m.ready.filter ((m.launch d input).owns m.runs.length) = [] :=
      List.filter_eq_nil_iff.2 fun id hid => by simp [hold id (hhoused.ready id hid)]
    show [0] = ((m.ready ++ [m.tasks.length]).filter _).map _
    rw [List.filter_append, hnone]
    simp [hnew, hplace]
  · have hnone : (m.timers.filter fun timer =>
        (m.launch d input).owns m.runs.length timer.2) = [] :=
      List.filter_eq_nil_iff.2 fun timer ht => by simp [hold timer.2 (hhoused.timers timer ht)]
    show [] = (m.timers.filter _).map _
    rw [hnone]
    rfl

end Flowgraph.Run

import Flowgraph.Proofs.Run.Termination

/-!
# The line and the timers

A task is in the line or has a timer, and it is so only once. The tasks with timers are those that
wait for an activity (`Machine.Queued`). So once nothing is left in the line, whatever can be done
without letting time pass has been done: every task has stopped, waits for an activity, or waits
for a branch that does (`Reaches.waiting`).
-/

set_option autoImplicit false

namespace Flowgraph.Run

variable {invoker : Invoker} {d : Definition} {input : Store} {x : Scene} {m m' : Machine}
  {id j : Nat} {deeds : List Deed} {task : Task} {outcome : Outcome}

/-- Whether the tasks that are in the line or have a timer are so once, and those with timers wait
for an activity. -/
structure Machine.Queued (m : Machine) : Prop where
  once : (m.ready ++ m.timers.map (·.2)).Nodup
  known : ∀ id ∈ m.ready ++ m.timers.map (·.2), id < m.tasks.length
  waits : ∀ timer ∈ m.timers, ∀ task, m.tasks[timer.2]? = some task →
    ∃ step c ending, task.control = .receive step c ending

/-- A task is lined up when it is told about a branch that it waits for, unless it is in the line. -/
theorem Machine.notify_ready (parent branch : Nat) (outcome : Outcome) :
    (m.notify parent branch outcome).ready = m.ready ∨
      (parent ∉ m.ready ∧ (m.notify parent branch outcome).ready = m.ready ++ [parent] ∧
        ∃ task step missing ended, m.tasks[parent]? = some task ∧
          task.control = .join step missing ended) := by
  unfold Machine.notify
  split
  case h_1 run grandparent frames step missing ended htask =>
    unfold Machine.wake
    split
    case isTrue => exact Or.inl rfl
    case isFalse hnot =>
      exact Or.inr ⟨hnot, rfl, _, step, missing, ended, htask, rfl⟩
  case h_2 => exact Or.inl rfl

/-- The line when the task of a branch has ended. -/
theorem Machine.ready_of_ended {rest : List Nat} {run : Progress} {parent : Nat}
    (h : m.step invoker = some m') (hready : m.ready = id :: rest)
    (htask : m.tasks[id]? = some task) (hrun : m.runs[task.run]? = some run)
    (hparent : task.parent = some parent) (hframes : task.frames = [])
    (hc : task.control = .leave outcome) :
    m'.ready = rest ∨ (parent ∉ rest ∧ m'.ready = rest ++ [parent] ∧
      ∃ other step missing ended, m.tasks[parent]? = some other ∧
        other.control = .join step missing ended) := by
  have hstep : m.step invoker =
      some (((m.goOn id .stopped).pause).notify parent id outcome) := by
    unfold Machine.step
    rw [hready]
    simp only [htask, hrun, Machine.act, hc, Machine.leave, hframes, Machine.stop, hparent]
  rw [h] at hstep
  obtain rfl := Option.some.inj hstep
  have hpause : ((m.goOn id .stopped).pause).ready = rest := by
    show m.ready.tail = rest
    rw [hready, List.tail_cons]
  rcases Machine.notify_ready (m := (m.goOn id .stopped).pause) parent id outcome with
    hsame | ⟨hnot, hadded, other, step, missing, ended, hother, hjoin⟩
  · exact Or.inl (hsame.trans hpause)
  · rw [hpause] at hnot hadded
    refine Or.inr ⟨hnot, hadded, ?_⟩
    -- the task that waits is not the one that has ended
    have hset : (m.tasks.set id { task with control := .stopped })[parent]? = some other := by
      rw [← hother, ← modify_eq_set htask (f := fun t => { t with control := .stopped })]
      rfl
    rcases getElem?_set_cases hset with ⟨-, rfl⟩ | ⟨-, hbefore⟩
    · cases hjoin
    · exact ⟨other, step, missing, ended, hbefore, hjoin⟩

namespace Machine.Queued

/-- The task at the head of the line is nowhere else. -/
theorem head (h : m.Queued) {rest : List Nat} (hready : m.ready = id :: rest) :
    id ∉ rest ++ m.timers.map (·.2) ∧ (rest ++ m.timers.map (·.2)).Nodup := by
  have honce := h.once
  rw [hready, List.cons_append] at honce
  exact ⟨(List.nodup_cons.1 honce).1, (List.nodup_cons.1 honce).2⟩

theorem known_tail (h : m.Queued) {rest : List Nat} (hready : m.ready = id :: rest) :
    ∀ i ∈ rest ++ m.timers.map (·.2), i < m.tasks.length := by
  intro i hi
  refine h.known i ?_
  rw [hready]
  exact List.mem_cons_of_mem _ hi

/-- A task with a timer is not the one whose turn it is, and its control stays. -/
theorem waits_turn (h : m.Queued) {rest : List Nat} (hready : m.ready = id :: rest)
    (hturn : Turn invoker m id deeds m') {timer : Nat × Nat} (htimer : timer ∈ m.timers)
    (hj : m'.tasks[timer.2]? = some task) : ∃ step c ending, task.control = .receive step c ending := by
  have hmem : timer.2 ∈ m.timers.map (·.2) := List.mem_map_of_mem htimer
  have hne : timer.2 ≠ id := fun heq =>
    (h.head hready).1 (List.mem_append_right _ (heq ▸ hmem))
  cases hturn.fate hne hj with
  | kept hold => exact h.waits timer htimer _ hold
  | @told old _ _ hold =>
    obtain ⟨step, c, ending, hc⟩ := h.waits timer htimer old hold
    refine ⟨step, c, ending, ?_⟩
    show old.control.told _ = _
    rw [hc]
    rfl
  | born _ _ _ _ hjb =>
    have := h.known timer.2 (List.mem_append_right _ hmem)
    omega

/-- A task that waits for branches does not have a timer. -/
theorem timeless (h : m.Queued) {step : Step} {missing : Nat} {ended : List (Nat × Outcome)}
    (htask : m.tasks[j]? = some task) (hc : task.control = .join step missing ended) :
    j ∉ m.timers.map (·.2) := by
  intro hmem
  obtain ⟨timer, htimer, rfl⟩ := List.mem_map.1 hmem
  obtain ⟨_, _, _, hreceive⟩ := h.waits timer htimer task htask
  rw [hc] at hreceive
  cases hreceive

/-- In a turn the rest of the line and the timers stay. The order is kept if what comes to them
comes once, and waits for an activity where it gets a timer. -/
theorem of_perm (h : m.Queued) (new : List Nat) {rest : List Nat} (hready : m.ready = id :: rest)
    (hturn : Turn invoker m id deeds m')
    (hperm : (m'.ready ++ m'.timers.map (·.2)).Perm (new ++ (rest ++ m.timers.map (·.2))))
    (hnodup : new.Nodup)
    (hnew : ∀ i ∈ new, i ∉ rest ++ m.timers.map (·.2) ∧ i < m'.tasks.length)
    (htimers : ∀ timer ∈ m'.timers, timer ∈ m.timers ∨
      ∃ task step c ending, m'.tasks[timer.2]? = some task ∧
        task.control = .receive step c ending) : m'.Queued where
  once := hperm.nodup_iff.2 (List.nodup_append'.2
    ⟨hnodup, (h.head hready).2, fun i hi => (hnew i hi).1⟩)
  known i hi := by
    rcases List.mem_append.1 (hperm.mem_iff.1 hi) with hi | hi
    · exact (hnew i hi).2
    · exact Nat.lt_of_lt_of_le (h.known_tail hready i hi) hturn.length_tasks_le
  waits timer htimer task htask := by
    rcases htimers timer htimer with hold | ⟨other, step, c, ending, hother, hc⟩
    · exact h.waits_turn hready hturn hold htask
    · obtain rfl := Option.some.inj (hother.symm.trans htask)
      exact ⟨step, c, ending, hc⟩

/-- **A small step keeps the line and the timers in order.** -/
theorem work (h : m.Queued) (hstep : m.step invoker = some m') : m'.Queued := by
  obtain ⟨rest, hready, hturn⟩ := step_turn hstep
  generalize (m.deeds invoker).1 = id at hready hturn
  generalize (m.deeds invoker).2 = deeds at hturn
  have htail : m.ready.tail = rest := by rw [hready, List.tail_cons]
  have hid := (h.head hready).1
  have horder (new : List Nat) := h.of_perm new hready hturn
  cases hturn with
  | idle =>
    refine horder [] ?_ List.nodup_nil (List.forall_mem_nil _) fun _ => Or.inl
    show (m.ready.tail ++ _).Perm _
    rw [htail]
    rfl
  | @goes task run _ frames control ready timers htask hrun hadv hline =>
    -- the task comes back, to the head of the line or with a timer
    have hback : ∀ i ∈ [id], i ∉ rest ++ m.timers.map (·.2) ∧
        i < (m.tasks.set id ⟨task.run, task.parent, frames, control⟩).length := by
      rw [List.forall_mem_singleton, List.length_set]
      exact ⟨hid, lt_of_getElem? htask⟩
    rcases hline with ⟨rfl, rfl⟩ | ⟨step, c, ending, time, rfl, rfl, rfl⟩
    · refine horder [id] ?_ (List.nodup_singleton id) hback fun _ => Or.inl
      dsimp only
      rw [hready]
      rfl
    · refine horder [id] ?_ (List.nodup_singleton id) hback fun timer htimer => ?_
      · dsimp only
        rw [htail, List.map_append, ← List.append_assoc]
        exact List.perm_append_singleton id _
      · refine (List.mem_append.1 htimer).imp_right fun htimer => ?_
        rw [List.mem_singleton.1 htimer]
        exact ⟨_, step, c, ending, List.getElem?_set_self (lt_of_getElem? htask), rfl⟩
  | @forks task run step ids branches htask hrun =>
    have hlt := lt_of_getElem? htask
    have hborn : ∀ i ∈ List.range' m.tasks.length branches.length,
        m.tasks.length ≤ i ∧ i < m.tasks.length + branches.length := fun i => List.mem_range'_1.1
    refine horder (List.range' m.tasks.length branches.length ++ [id]) ?_ ?_ ?_ fun _ => Or.inl
    · dsimp only
      rw [htail]
      simp only [List.append_assoc, List.singleton_append]
      exact (List.perm_append_comm_assoc _ _ _).trans (List.Perm.append_left _ List.perm_middle)
    · refine List.nodup_append'.2 ⟨List.nodup_range', List.nodup_singleton id, fun i hi hi' => ?_⟩
      have := (hborn i hi).1
      have := List.mem_singleton.1 hi'
      omega
    · dsimp only
      rw [List.length_append, List.length_set, List.length_map]
      refine List.forall_mem_append.2 ⟨fun i hi => ⟨fun hold => ?_, (hborn i hi).2⟩, ?_⟩
      · exact Nat.not_lt.2 (hborn i hi).1 (h.known_tail hready i hold)
      · rw [List.forall_mem_singleton]
        exact ⟨hid, Nat.lt_of_lt_of_le hlt (Nat.le_add_right _ _)⟩
  | @ends task run outcome parent ready htask hrun hparent hframes hc =>
    have hwoken := Machine.ready_of_ended hstep hready htask hrun hparent hframes hc
    dsimp only at hwoken
    rcases hwoken with rfl | ⟨hnot, rfl, other, step, missing, ended, hother, hjoin⟩
    · exact horder [] .rfl List.nodup_nil (List.forall_mem_nil _) fun _ => Or.inl
    · refine horder [parent] ?_ (List.nodup_singleton parent) ?_ fun _ => Or.inl
      · dsimp only
        rw [List.append_assoc]
        exact List.perm_middle
      · rw [List.forall_mem_singleton, List.length_modify, List.length_set, List.mem_append, not_or]
        exact ⟨⟨hnot, h.timeless hother hjoin⟩, lt_of_getElem? hother⟩
  | returns htask =>
    refine horder [] ?_ List.nodup_nil (List.forall_mem_nil _) fun _ => Or.inl
    dsimp only
    rw [htail]
    rfl

/-- Tasks that have waited long enough move from the timers to the line. -/
theorem passTo (h : m.Queued) (time : Nat) : (m.passTo time).Queued := by
  have hperm : ((m.passTo time).ready ++ (m.passTo time).timers.map (·.2)).Perm
      (m.ready ++ m.timers.map (·.2)) := by
    show (m.ready ++ (m.timers.filter (·.1 ≤ time)).map (·.2) ++
      (m.timers.filter (time < ·.1)).map (·.2)).Perm _
    rw [List.append_assoc, ← List.map_append]
    refine List.Perm.append_left _ (List.Perm.map _ ?_)
    have hlater : m.timers.filter (fun timer => decide (time < timer.1)) =
        m.timers.filter fun timer => !decide (timer.1 ≤ time) :=
      List.filter_congr fun timer _ => by
        rw [← decide_not, decide_eq_decide, Nat.not_le]
    rw [hlater]
    exact List.filter_append_perm _ _
  exact ⟨hperm.nodup_iff.2 h.once, fun id hid => h.known id (hperm.mem_iff.1 hid),
    fun timer htimer => h.waits timer (List.mem_of_mem_filter htimer)⟩

end Machine.Queued

namespace Scene

/-- **The line and the timers are in order** in every scene that is reached. -/
theorem Reaches.queued (h : Reaches invoker (opening d input) x) : x.machine.Queued := by
  induction h with
  | refl =>
    refine ⟨List.nodup_singleton 0, fun id hid => ?_, List.forall_mem_nil _⟩
    rw [List.mem_singleton.1 hid]
    exact Nat.one_pos
  | tail _ hmove ih =>
    cases hmove with
    | work hstep => exact ih.work hstep
    | wait time => exact ih.passTo time
    | @reorder m _ _ hperm =>
      have hboth := hperm.append_right (m.timers.map (·.2))
      exact ⟨hboth.nodup_iff.2 ih.once, fun id hid => ih.known id (hboth.mem_iff.1 hid), ih.waits⟩

/-- **Once the line is empty**, every task has stopped, waits for an activity, or waits for branches
none of which it has been told about. -/
theorem Reaches.waiting (h : Reaches invoker (opening d input) x) (hready : x.machine.ready = [])
    (htask : x.machine.tasks[id]? = some task) :
    task.control = .stopped ∨ (∃ step c ending, task.control = .receive step c ending) ∨
      ∃ step missing, task.control = .join step missing [] := by
  rcases h.lively id task htask with hstopped | hmem | hmem | hjoin
  · exact Or.inl hstopped
  · rw [hready] at hmem
    cases hmem
  · obtain ⟨timer, htimer, rfl⟩ := List.mem_map.1 hmem
    exact Or.inr (Or.inl (h.queued.waits timer htimer task htask))
  · exact Or.inr (Or.inr hjoin)

end Scene

end Flowgraph.Run

import Flowgraph.Proofs.Run.Endings

/-!
# The tasks of one run

The tasks of several runs stand in one list, in the order in which they were started. The tasks of
one run are numbered among themselves by `Machine.place`, and the line and the timers of a run are
those of the machine without the tasks of other runs (`Machine.soloTasks`, `Machine.soloLine`,
`Machine.soloTimers`). New tasks come at the end, so they change nothing for those that are there.

All tasks that a machine names are there, and branches belong to the run of the task that waits
for them (`Machine.Housed`).
-/

set_option autoImplicit false

namespace Flowgraph.Run

/-! ### The elements of a list that pass a test -/

section Lists

variable {α β : Type} {p : α → Bool} {f : α → α} {l : List α} {i : Nat} {a : α}

/-- An element that passes is found among those that pass, after the earlier ones. -/
theorem getElem?_filter_countP (h : l[i]? = some a) (hp : p a = true) :
    (l.filter p)[(l.take i).countP p]? = some a := by
  induction l generalizing i with
  | nil => cases h
  | cons b rest ih =>
    cases i with
    | zero =>
      obtain rfl : b = a := by simpa using h
      simp [hp]
    | succ i =>
      have h := ih (by simpa using h : rest[i]? = some a)
      by_cases hb : p b = true
      · simpa [hb] using h
      · simpa [hb] using h

/-- A change of an element that passes before and after. -/
theorem filter_modify (h : l[i]? = some a) (hp : p a = true) (hf : p (f a) = true) :
    (l.modify i f).filter p = (l.filter p).modify ((l.take i).countP p) f := by
  induction l generalizing i with
  | nil => cases h
  | cons b rest ih =>
    cases i with
    | zero =>
      obtain rfl : b = a := by simpa using h
      simp [hp, hf]
    | succ i =>
      have h := ih (by simpa using h : rest[i]? = some a)
      by_cases hb : p b = true
      · simpa [hb] using h
      · simpa [hb] using h

/-- A change of an element that passes neither before nor after. -/
theorem filter_modify_of_neg (h : l[i]? = some a) (hp : p a = false) (hf : p (f a) = false) :
    (l.modify i f).filter p = l.filter p := by
  induction l generalizing i with
  | nil => cases h
  | cons b rest ih =>
    cases i with
    | zero =>
      obtain rfl : b = a := by simpa using h
      simp [hp, hf]
    | succ i =>
      have h := ih (by simpa using h : rest[i]? = some a)
      by_cases hb : p b = true <;> simp [hb, h]

/-- Changes in the same place keep the images of two lists equal. -/
theorem map_modify_congr {l₀ : List β} {γ : Type} {g : α → γ} {g₀ : β → γ} {f₀ : β → β}
    (h : l₀.map g₀ = l.map g) (hf : ∀ b a, g₀ b = g a → g₀ (f₀ b) = g (f a)) :
    (l₀.modify i f₀).map g₀ = (l.modify i f).map g := by
  apply List.ext_getElem?
  intro j
  have hj := congrArg (·[j]?) h
  simp only [List.getElem?_map, List.getElem?_modify] at hj ⊢
  cases hb : l₀[j]? with
  | none =>
    cases ha : l[j]? with
    | none => rfl
    | some a => simp [hb, ha] at hj
  | some b =>
    cases ha : l[j]? with
    | none => simp [hb, ha] at hj
    | some a =>
      have hsame : g₀ b = g a := by simpa [hb, ha] using hj
      by_cases hij : i = j <;> simp [hij, hsame, hf b a hsame]

end Lists

/-! ### Numbers among the tasks of a run -/

/-- The runs that the tasks work on. -/
def Machine.workers (m : Machine) : List Nat := m.tasks.map (·.run)

/-- The number of a task among those of a run. -/
def Machine.place (m : Machine) (r id : Nat) : Nat := (m.workers.take id).count r

variable {invoker : Invoker} {m m' : Machine} {r id j : Nat} {task : Task}

theorem Machine.owns_iff : m.owns r id = true ↔ m.workers[id]? = some r := by
  unfold Machine.owns Machine.workers
  rw [List.getElem?_map]
  cases m.tasks[id]? <;> simp

theorem owns_of_task (htask : m.tasks[id]? = some task) : m.owns task.run id = true := by
  simp [Machine.owns, htask]

theorem lt_of_owns (h : m.owns r id = true) : id < m.tasks.length := by
  have := lt_of_getElem? (Machine.owns_iff.1 h)
  simpa [Machine.workers] using this

theorem exists_task_of_owns (h : m.owns r id = true) :
    ∃ task, m.tasks[id]? = some task ∧ task.run = r := by
  unfold Machine.owns at h
  cases htask : m.tasks[id]? with
  | none => simp [htask] at h
  | some task => exact ⟨task, rfl, by simpa [htask] using h⟩

theorem Machine.place_eq_countP (r id : Nat) :
    m.place r id = (m.tasks.take id).countP (·.run == r) := by
  unfold Machine.place Machine.workers
  rw [← List.map_take, List.count, List.countP_map]
  rfl

/-- The tasks of a run keep their order. -/
theorem place_lt_place (h : m.owns r id = true) (hlt : id < j) : m.place r id < m.place r j := by
  have hid := Machine.owns_iff.1 h
  have hone : (m.workers.take (id + 1)).count r = (m.workers.take id).count r + 1 := by
    rw [List.take_add_one, hid]
    simp
  have hle : (m.workers.take (id + 1)).count r ≤ (m.workers.take j).count r :=
    (List.take_sublist_take_left hlt).count_le r
  unfold Machine.place
  omega

theorem place_inj (h : m.owns r id = true) (hj : m.owns r j = true) :
    m.place r id = m.place r j ↔ id = j := by
  refine ⟨fun heq => ?_, fun heq => heq ▸ rfl⟩
  rcases Nat.lt_trichotomy id j with hlt | rfl | hlt
  · have := place_lt_place h hlt
    omega
  · rfl
  · have := place_lt_place hj hlt
    omega

/-! ### What belongs to a run -/

/-- The end of a branch without its number, which is only read when the branch has panicked. -/
def unnumbered (news : Nat × Outcome) : Nat × Outcome := (0, news.2)

/-- A control without the numbers of the branches that have ended. -/
def Control.plain : Control → Control
  | .join step missing ended => .join step missing (ended.map unnumbered)
  | control => control

/-- A task without the numbers of its branches that have ended. -/
def Task.plain (task : Task) : Task := { task with control := task.control.plain }

/-- A task of the only run, with other numbers for the tasks. -/
def Task.solo (place : Nat → Nat) (task : Task) : Task where
  run := 0
  parent := task.parent.map place
  frames := task.frames
  control := task.control.plain

/-- The tasks of a run, as those of an only run. -/
def Machine.soloTasks (m : Machine) (r : Nat) : List Task :=
  (m.tasks.filter (·.run == r)).map (Task.solo (m.place r))

/-- The tasks of a run that are in a line. -/
def Machine.soloLine (m : Machine) (r : Nat) (line : List Nat) : List Nat :=
  (line.filter (m.owns r)).map (m.place r)

/-- The timers of a run. -/
def Machine.soloTimers (m : Machine) (r : Nat) : List (Nat × Nat) :=
  (m.timers.filter fun timer => m.owns r timer.2).map fun timer => (timer.1, m.place r timer.2)

/-- A change of tasks that leaves them on their runs. -/
theorem workers_modify {f : Task → Task} (hf : ∀ t, (f t).run = t.run) :
    ({ m with tasks := m.tasks.modify id f } : Machine).workers = m.workers := by
  have hmap : (m.tasks.modify id f).map (·.run) = (m.tasks.map (·.run)).modify id fun n => n :=
    map_modify hf
  show (m.tasks.modify id f).map (·.run) = _
  rw [hmap]
  exact List.modify_id _ _

/-- A change of tasks that leaves them their parents. -/
theorem parents_modify {f : Task → Task} (hf : ∀ t, (f t).parent = t.parent) :
    (m.tasks.modify id f).map (·.parent) = m.tasks.map (·.parent) := by
  have hmap : (m.tasks.modify id f).map (·.parent) =
      (m.tasks.map (·.parent)).modify id fun p => p := map_modify hf
  rw [hmap]
  exact List.modify_id _ _

section Congr

variable (h : m'.workers = m.workers)

include h

theorem owns_congr : m'.owns r = m.owns r := by
  funext id
  rw [Bool.eq_iff_iff, Machine.owns_iff, Machine.owns_iff, h]

theorem place_congr : m'.place r = m.place r := by
  funext id
  rw [Machine.place, h, Machine.place]

theorem soloLine_congr (line : List Nat) : m'.soloLine r line = m.soloLine r line := by
  rw [Machine.soloLine, owns_congr h, place_congr h, Machine.soloLine]

theorem soloTimers_congr (htimers : m'.timers = m.timers) :
    m'.soloTimers r = m.soloTimers r := by
  rw [Machine.soloTimers, owns_congr h, place_congr h, htimers, Machine.soloTimers]

end Congr

/-- The number of tasks is that of the next task. -/
theorem length_soloTasks : (m.soloTasks r).length = m.place r m.tasks.length := by
  rw [Machine.soloTasks, List.length_map, Machine.place_eq_countP, List.take_length,
    List.countP_eq_length_filter]

section Grow

variable {more : List Nat} (h : m'.workers = m.workers ++ more)

include h

/-- New tasks change nothing for the tasks that are there. -/
theorem owns_grow (hj : j < m.tasks.length) : m'.owns r j = m.owns r j := by
  have hlt : j < m.workers.length := by simpa [Machine.workers] using hj
  rw [Bool.eq_iff_iff, Machine.owns_iff, Machine.owns_iff, h, List.getElem?_append_left hlt]

theorem place_grow (hj : j ≤ m.tasks.length) : m'.place r j = m.place r j := by
  have hle : j ≤ m.workers.length := by simpa [Machine.workers] using hj
  rw [Machine.place, h, List.take_append_of_le_length hle, Machine.place]

theorem soloLine_grow {line : List Nat} (hline : ∀ j ∈ line, j < m.tasks.length) :
    m'.soloLine r line = m.soloLine r line := by
  unfold Machine.soloLine
  rw [List.filter_congr fun j hj => owns_grow h (hline j hj)]
  refine List.map_congr_left fun j hj => place_grow h ?_
  exact Nat.le_of_lt (hline j (List.mem_of_mem_filter hj))

theorem soloTimers_grow (htimers : m'.timers = m.timers)
    (hline : ∀ timer ∈ m.timers, timer.2 < m.tasks.length) :
    m'.soloTimers r = m.soloTimers r := by
  unfold Machine.soloTimers
  rw [htimers, List.filter_congr fun timer ht => owns_grow h (hline timer ht)]
  refine List.map_congr_left fun timer ht => ?_
  rw [place_grow h (Nat.le_of_lt (hline timer (List.mem_of_mem_filter ht)))]

theorem solo_grow (hparent : ∀ parent, task.parent = some parent → parent < m.tasks.length) :
    task.solo (m'.place r) = task.solo (m.place r) := by
  unfold Task.solo
  cases hp : task.parent with
  | none => rfl
  | some parent =>
    rw [Option.map_some, Option.map_some, place_grow h (Nat.le_of_lt (hparent parent hp))]

theorem soloTasks_grow {kids : List Task} (htasks : m'.tasks = m.tasks ++ kids)
    (hparents : ∀ parent, some parent ∈ m.tasks.map (·.parent) → parent < m.tasks.length) :
    m'.soloTasks r =
      m.soloTasks r ++ (kids.filter (·.run == r)).map (Task.solo (m'.place r)) := by
  unfold Machine.soloTasks
  rw [htasks, List.filter_append, List.map_append]
  refine congrArg (· ++ _) (List.map_congr_left fun task htask => solo_grow h fun parent hp => ?_)
  exact hparents parent (hp ▸ List.mem_map_of_mem (List.mem_of_mem_filter htask))

end Grow

theorem soloLine_append (line line' : List Nat) :
    m.soloLine r (line ++ line') = m.soloLine r line ++ m.soloLine r line' := by
  simp [Machine.soloLine]

theorem soloLine_of_owns {line : List Nat} (h : ∀ j ∈ line, m.owns r j = true) :
    m.soloLine r line = line.map (m.place r) := by
  rw [Machine.soloLine, List.filter_eq_self.2 h]

/-- New tasks of the run are numbered from the next number on. -/
theorem soloLine_range' {n : Nat} (h : m'.workers = m.workers ++ List.replicate n r) :
    m'.soloLine r (List.range' m.tasks.length n) =
      List.range' (m.place r m.tasks.length) n := by
  have hlength : m.workers.length = m.tasks.length := by simp [Machine.workers]
  have howns : ∀ j ∈ List.range' m.tasks.length n, m'.owns r j = true := by
    intro j hj
    obtain ⟨hle, hlt⟩ := List.mem_range'_1.1 hj
    rw [Machine.owns_iff, h, List.getElem?_append_right (by omega), List.getElem?_replicate,
      if_pos (by omega)]
  rw [soloLine_of_owns howns]
  have hplace : m.place r m.tasks.length = m.workers.count r := by
    rw [Machine.place, ← hlength, List.take_length]
  rw [List.range'_eq_map_range, List.range'_eq_map_range, List.map_map]
  refine List.map_congr_left fun k hk => ?_
  have hlt : k < n := List.mem_range.1 hk
  have htake : (m.workers ++ List.replicate n r).take (m.tasks.length + k) =
      m.workers ++ List.replicate k r := by
    rw [← hlength, List.take_length_add_append, List.take_replicate,
      Nat.min_eq_left (Nat.le_of_lt hlt)]
  show m'.place r (m.tasks.length + k) = m.place r m.tasks.length + k
  rw [Machine.place, h, htake, hplace]
  simp

/-! ### Every task that is named is there -/

/-- The tasks that are named in a machine exist, and a task has its parent in its own run. -/
structure Machine.Housed (m : Machine) : Prop where
  parents : ∀ (id : Nat) (task : Task) (parent : Nat), m.tasks[id]? = some task →
    task.parent = some parent → m.owns task.run parent = true
  ready : ∀ id ∈ m.ready, id < m.tasks.length
  timers : ∀ timer ∈ m.timers, timer.2 < m.tasks.length

theorem Machine.Housed.parent_lt (h : m.Housed) (parent : Nat)
    (hparent : some parent ∈ m.tasks.map (·.parent)) : parent < m.tasks.length := by
  obtain ⟨task, htask, heq⟩ := List.mem_map.1 hparent
  obtain ⟨id, hid⟩ := List.mem_iff_getElem?.1 htask
  exact lt_of_owns (h.parents id task parent hid heq)

/-- A task in the place of another one of the same run. -/
theorem workers_set (htask : m.tasks[id]? = some task) (frames : List Frame) (control : Control) :
    (m.tasks.set id ⟨task.run, task.parent, frames, control⟩).map (·.run) = m.workers := by
  rw [List.map_set]
  exact set_self (by simp [htask])

/-- A turn adds tasks for the run of the task whose turn it is, and no others. -/
theorem Turn.workers_eq {deeds : List Deed} (h : Turn invoker m id deeds m') :
    m'.workers = m.workers ∨ ∃ task n, m.tasks[id]? = some task ∧
      m'.workers = m.workers ++ List.replicate n task.run := by
  cases h with
  | idle => exact Or.inl rfl
  | goes htask hrun hadv => exact Or.inl (workers_set htask _ _)
  | @forks task run step ids branches htask =>
    refine Or.inr ⟨task, branches.length, htask, ?_⟩
    show List.map _ (m.tasks.set id _ ++ _) = _
    rw [List.map_append, workers_set htask]
    simp [Function.comp_def]
  | @ends task _ outcome parent _ htask =>
    refine Or.inl ?_
    show List.map _ ((m.tasks.set id _).modify parent (Task.told (id, outcome))) = _
    have hmap : ((m.tasks.set id { task with control := .stopped }).modify parent
        (Task.told (id, outcome))).map (·.run) = (m.tasks.set id _).map (·.run) :=
      workers_modify (m := { m with tasks := m.tasks.set id _ }) fun _ => rfl
    rw [hmap, workers_set htask]
  | returns htask => exact Or.inl (workers_set htask _ _)

/-- A task keeps its run in a turn. -/
theorem Turn.owns {deeds : List Deed} (h : Turn invoker m id deeds m')
    (howns : m.owns r j = true) : m'.owns r j = true := by
  rcases h.workers_eq with hsame | ⟨task, n, -, hgrown⟩
  · rw [owns_congr hsame]
    exact howns
  · rw [owns_grow hgrown (lt_of_owns howns)]
    exact howns

namespace Machine.Housed

theorem turn (h : m.Housed) {deeds : List Deed} (hturn : Turn invoker m id deeds m')
    (hid : id ∈ m.ready) : m'.Housed where
  parents j task parent hj hparent := by
    rcases hturn.origin hj with ⟨old, hold, hrun, hsame⟩ | ⟨-, hborn, old, hold, hrun⟩
    · rw [hrun]
      exact hturn.owns (h.parents j old parent hold (hsame ▸ hparent))
    · obtain rfl : id = parent := Option.some.inj (hborn.symm.trans hparent)
      rw [hrun]
      exact hturn.owns (owns_of_task hold)
  ready j hj := by
    have hle := hturn.length_tasks_le
    have hold : ∀ k ∈ m.ready.tail, k < m'.tasks.length := fun k hk =>
      Nat.lt_of_lt_of_le (h.ready k (List.mem_of_mem_tail hk)) hle
    cases hturn with
    | idle => exact hold j hj
    | goes htask hrun hadv hlined =>
      obtain ⟨rfl, -⟩ | ⟨_, _, _, _, -, rfl, -⟩ := hlined
      · exact Nat.lt_of_lt_of_le (h.ready j hj) hle
      · exact hold j hj
    | forks =>
      rcases List.mem_append.1 hj with hj | hj
      · rcases List.mem_append.1 hj with hj | hj
        · exact hold j hj
        · simpa using (List.mem_range'_1.1 hj).2
      · obtain rfl := List.mem_singleton.1 hj
        exact Nat.lt_of_lt_of_le (h.ready j hid) hle
    | ends htask hrun hparent hframes hc hready =>
      rcases hready with rfl | rfl
      · exact hold j hj
      · rcases List.mem_append.1 hj with hj | hj
        · exact hold j hj
        · obtain rfl := List.mem_singleton.1 hj
          exact Nat.lt_of_lt_of_le (lt_of_owns (h.parents id _ j htask hparent)) hle
    | returns => exact hold j hj
  timers timer htimer := by
    have hle := hturn.length_tasks_le
    have hold : ∀ timer ∈ m.timers, timer.2 < m'.tasks.length := fun timer htimer =>
      Nat.lt_of_lt_of_le (h.timers timer htimer) hle
    cases hturn with
    | goes htask hrun hadv hlined =>
      obtain ⟨-, rfl⟩ | ⟨_, _, _, _, -, -, rfl⟩ := hlined
      · exact hold timer htimer
      · rcases List.mem_append.1 htimer with htimer | htimer
        · exact hold timer htimer
        · obtain rfl := List.mem_singleton.1 htimer
          exact Nat.lt_of_lt_of_le (h.ready id hid) hle
    | idle | forks | ends | returns => exact hold timer htimer

/-- The time does not matter, nor the order of the line. -/
theorem moves (h : m.Housed) (hmoves : Machine.Moves invoker m m') : m'.Housed := by
  cases hmoves with
  | work hstep =>
    obtain ⟨rest, hready, hturn⟩ := step_turn hstep
    exact h.turn hturn (hready ▸ List.mem_cons_self ..)
  | wait time =>
    refine ⟨h.parents, fun id hid => ?_, fun timer htimer => ?_⟩
    · rcases List.mem_append.1 hid with hid | hid
      · exact h.ready id hid
      · obtain ⟨timer, htimer, rfl⟩ := List.mem_map.1 hid
        exact h.timers timer (List.mem_of_mem_filter htimer)
    · exact h.timers timer (List.mem_of_mem_filter htimer)
  | reorder hperm =>
    exact ⟨h.parents, fun id hid => h.ready id (hperm.mem_iff.1 hid), h.timers⟩

end Machine.Housed

theorem workers_launch (d : Definition) (input : Store) :
    (m.launch d input).workers = m.workers ++ [m.runs.length] := by
  simp [Machine.workers, Machine.launch]

theorem Machine.Housed.launch (h : m.Housed) (d : Definition) (input : Store) :
    (m.launch d input).Housed where
  parents j task parent hj hparent := by
    rcases task_of_launch hj with hold | ⟨-, rfl⟩
    · have howns := h.parents j task parent hold hparent
      rw [owns_grow (workers_launch d input) (lt_of_owns howns)]
      exact howns
    · cases hparent
  ready j hj := by
    have hlength : (m.launch d input).tasks.length = m.tasks.length + 1 := by simp [Machine.launch]
    rcases List.mem_append.1 hj with hj | hj
    · have := h.ready j hj
      omega
    · have := List.mem_singleton.1 hj
      omega
  timers timer htimer := by
    have hlength : (m.launch d input).tasks.length = m.tasks.length + 1 := by simp [Machine.launch]
    have := h.timers timer htimer
    omega

theorem Machine.housed_empty : ({} : Machine).Housed := by
  refine ⟨?_, ?_, ?_⟩ <;> simp

end Flowgraph.Run

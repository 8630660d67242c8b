import Flowgraph.Proofs.Run.Mirror

/-!
# Other runs

What a task does leaves everything of the other runs as it was (`Turn.untouched`): their variables
and events, their tasks, their places in the line and their timers. So does the launch of another
run (`untouched_launch`). A machine of one run that mirrors a run does so as long as the run is
untouched (`Untouched.mirrors`).
-/

set_option autoImplicit false

namespace Flowgraph.Run

variable {invoker : Invoker} {m m' m₀ : Machine} {r id start : Nat} {deeds : List Deed}
  {task : Task}

/-- What belongs to a run is the same in two machines; there may be more tasks of other runs in the
second. -/
structure Untouched (r : Nat) (m m' : Machine) : Prop where
  workers : ∃ more, m'.workers = m.workers ++ more
  owns : m'.owns r = m.owns r
  runs : m'.runs[r]? = m.runs[r]?
  tasks : m'.tasks.filter (·.run == r) = m.tasks.filter (·.run == r)
  ready : m'.ready.filter (m.owns r) = m.ready.filter (m.owns r)
  timers : (m'.timers.filter fun timer => m.owns r timer.2) =
    m.timers.filter fun timer => m.owns r timer.2

/-- What mirrors a run mirrors it as long as the run is untouched. -/
theorem Untouched.mirrors (h : Untouched r m m') (hhoused : m.Housed)
    (hmirrors : Mirrors r start m m₀) : Mirrors r start m' m₀ := by
  obtain ⟨more, hgrown⟩ := h.workers
  have hplace : ∀ j, j < m.tasks.length → m.place r j = m'.place r j := fun j hj =>
    (place_grow hgrown (Nat.le_of_lt hj)).symm
  refine ⟨?_, ?_, ?_, ?_⟩
  · rw [h.runs]
    exact hmirrors.runs
  · rw [hmirrors.tasks, Machine.soloTasks, Machine.soloTasks, h.tasks]
    refine List.map_congr_left fun task htask => ?_
    refine (solo_grow hgrown fun parent hp => hhoused.parent_lt parent ?_).symm
    exact hp ▸ List.mem_map_of_mem (List.mem_of_mem_filter htask)
  · rw [hmirrors.ready, Machine.soloLine, Machine.soloLine, h.owns, h.ready]
    exact List.map_congr_left fun j hj =>
      hplace j (hhoused.ready j (List.mem_of_mem_filter hj))
  · rw [hmirrors.timers, Machine.soloTimers, Machine.soloTimers, h.owns, h.timers]
    refine List.map_congr_left fun timer ht => ?_
    rw [hplace timer.2 (hhoused.timers timer (List.mem_of_mem_filter ht))]

/-- New tasks of other runs. -/
theorem owns_grow_other {more : List Nat} (h : m'.workers = m.workers ++ more) (hr : r ∉ more) :
    m'.owns r = m.owns r := by
  funext j
  rw [Bool.eq_iff_iff, Machine.owns_iff, Machine.owns_iff, h, List.getElem?_append]
  split
  · rfl
  · rename_i hge
    rw [List.getElem?_eq_none (Nat.not_lt.1 hge)]
    exact ⟨fun hj => absurd (List.mem_of_getElem? hj) hr, nofun⟩

/-! ### The turn of a task of another run -/

theorem run_ne_of_not_owns (hother : m.owns r id = false) (htask : m.tasks[id]? = some task) :
    task.run ≠ r := by
  simpa [Machine.owns, htask] using hother

/-- A change of a task of another run. -/
theorem filter_set_other (htask : m.tasks[id]? = some task) (hother : m.owns r id = false)
    (frames : List Frame) (control : Control) :
    (m.tasks.set id ⟨task.run, task.parent, frames, control⟩).filter (·.run == r) =
      m.tasks.filter (·.run == r) := by
  have hne : (task.run == r) = false := by simpa using run_ne_of_not_owns hother htask
  rw [← modify_eq_set htask fun _ => ⟨task.run, task.parent, frames, control⟩]
  exact filter_modify_of_neg htask hne hne

namespace Turn

variable (h : Turn invoker m id deeds m') (hother : m.owns r id = false)

include h hother

theorem other_workers : ∃ more, m'.workers = m.workers ++ more ∧ r ∉ more := by
  rcases h.workers_eq with hsame | ⟨task, n, htask, hgrown⟩
  · exact ⟨[], by simpa using hsame, List.not_mem_nil⟩
  · refine ⟨_, hgrown, fun hmem => ?_⟩
    exact run_ne_of_not_owns hother htask (List.eq_of_mem_replicate hmem).symm

theorem other_runs : m'.runs[r]? = m.runs[r]? := by
  rcases h.runs_eq with ⟨-, hruns⟩ | ⟨task, run, htask, hrun, hruns⟩
  · rw [hruns]
  · rw [hruns, List.getElem?_set_ne (run_ne_of_not_owns hother htask)]

theorem other_tasks (hhoused : m.Housed) :
    m'.tasks.filter (·.run == r) = m.tasks.filter (·.run == r) := by
  cases h with
  | idle => rfl
  | goes htask => exact filter_set_other htask hother _ _
  | forks htask =>
    rw [List.filter_append, filter_set_other htask hother]
    simp [run_ne_of_not_owns hother htask]
  | @ends task _ outcome parent _ htask hprogress hparent =>
    -- the task that is told belongs to the same run
    have hworkers : ({ m with tasks := m.tasks.set id ⟨task.run, task.parent, task.frames,
        .stopped⟩ } : Machine).workers = m.workers := workers_set htask _ _
    have howns := hhoused.parents id task parent htask hparent
    rw [← owns_congr hworkers] at howns
    obtain ⟨waiting, hwaiting, hsame⟩ := exists_task_of_owns howns
    have hneg : (waiting.run == r) = false := by
      simpa [hsame] using run_ne_of_not_owns hother htask
    rw [filter_modify_of_neg hwaiting hneg hneg]
    exact filter_set_other htask hother _ _
  | returns htask => exact filter_set_other htask hother _ _

theorem other_ready (hhoused : m.Housed) {rest : List Nat} (hready : m.ready = id :: rest) :
    m'.ready.filter (m.owns r) = m.ready.filter (m.owns r) := by
  have hfirst : m.ready.tail.filter (m.owns r) = m.ready.filter (m.owns r) := by
    rw [hready, List.tail_cons, List.filter_cons_of_neg (by simp [hother])]
  cases h with
  | idle => exact hfirst
  | goes htask hrun hadv hlined =>
    obtain ⟨rfl, -⟩ | ⟨_, _, _, _, -, rfl, -⟩ := hlined
    · rfl
    · exact hfirst
  | @forks task _ _ _ branches htask =>
    -- the tasks of the branches are new
    have hnew : (List.range' m.tasks.length branches.length).filter (m.owns r) = [] := by
      refine List.filter_eq_nil_iff.2 fun j hj howns => ?_
      have := lt_of_owns howns
      have := (List.mem_range'_1.1 hj).1
      omega
    rw [List.filter_append, List.filter_append, hfirst, hnew]
    simp [hother]
  | @ends task _ outcome parent _ htask hprogress hparent hframes hc hline =>
    rcases hline with rfl | rfl
    · exact hfirst
    · have hwaiting : m.owns r parent = false := by
        obtain ⟨waiting, hwaiting, hsame⟩ :=
          exists_task_of_owns (hhoused.parents id task parent htask hparent)
        simpa [Machine.owns, hwaiting, hsame] using run_ne_of_not_owns hother htask
      rw [List.filter_append, hfirst]
      simp [hwaiting]
  | returns => exact hfirst

theorem other_timers : (m'.timers.filter fun timer => m.owns r timer.2) =
    m.timers.filter fun timer => m.owns r timer.2 := by
  cases h with
  | goes htask hrun hadv hlined =>
    obtain ⟨-, rfl⟩ | ⟨_, _, _, _, -, -, rfl⟩ := hlined
    · rfl
    · rw [List.filter_append]
      simp [hother]
  | idle | forks | ends | returns => rfl

/-- **A turn of a task of another run leaves the run as it was.** -/
theorem untouched (hhoused : m.Housed) {rest : List Nat} (hready : m.ready = id :: rest) :
    Untouched r m m' := by
  obtain ⟨more, hgrown, hnot⟩ := h.other_workers hother
  exact ⟨⟨more, hgrown⟩, owns_grow_other hgrown hnot, h.other_runs hother,
    h.other_tasks hother hhoused, h.other_ready hother hhoused hready, h.other_timers hother⟩

end Turn

/-- **The launch of another run leaves a run as it was.** -/
theorem untouched_launch (hr : r < m.runs.length) (d : Definition)
    (input : Store) : Untouched r m (m.launch d input) where
  workers := ⟨_, workers_launch d input⟩
  owns := owns_grow_other (workers_launch d input) (by simp; omega)
  runs := List.getElem?_append_left hr
  tasks := by
    have hne : m.runs.length ≠ r := Nat.ne_of_gt hr
    simp [Machine.launch, hne]
  ready := by
    have hnew : m.owns r m.tasks.length = false := by
      rw [Bool.eq_false_iff]
      exact fun howns => absurd (lt_of_owns howns) (Nat.lt_irrefl _)
    simp [Machine.launch, hnew]
  timers := rfl

/-- The tasks of a run keep their order when the line is mixed. -/
theorem untouched_mix {ready : List Nat} (h : ready.filter (m.owns r) = m.ready.filter (m.owns r)) :
    Untouched r m { m with ready := ready } :=
  ⟨⟨[], (List.append_nil _).symm⟩, rfl, rfl, rfl, h, rfl⟩

end Flowgraph.Run

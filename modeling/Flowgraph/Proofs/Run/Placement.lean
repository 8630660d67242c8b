import Flowgraph.Proofs.Definition.References
import Flowgraph.Proofs.Run.Fate
import Flowgraph.Proofs.Run.Ledger

/-!
# Where tasks stand

The addresses of a ledger are right: **everything that is done is done at its address**. The
step that begins, that is called for, that forks or that ends under an address is the step that
the address leads to in the definition (`Scene.Placed`, `Reaches.placed`). Since addresses are
chains of references, facts about the references of a definition become facts about runs.

On the way to it comes the shape of the tasks (`Stack`, `Control.Placed`): which frames can lie
on which, and that a task that waits for an activity or for branches is inside of the step that
it waits for. All of this holds for any definition, input and invoker.
-/

set_option autoImplicit false

namespace Flowgraph.Run

open Machine (follow resolveAll)

/-! ### Frames and addresses -/

/-- Frames on which a step can be begun: no step waits there for an activity or for branches. -/
def Frame.Open : List Frame → Prop
  | .finish step :: _ => ∃ choice, step.work = .condition choice
  | _ => True

/-- The frames of a task, with the addresses of the step executions that it is inside of. -/
inductive Stack (d : Definition) : List Frame → List Address → Prop
  | nil : Stack d [] []
  | finish {step : Step} {a : Address} {frames : List Frame} {inside : List Address} :
      d.at? a = some step → Frame.Open frames → Stack d frames inside →
      Stack d (.finish step :: frames) (a :: inside)
  | sequence {step : Step} {before rest : List String} {frames : List Frame}
      {inside : List Address} :
      step.work = .sequence (before ++ rest) → Stack d (.finish step :: frames) inside →
      Stack d (.sequence rest :: .finish step :: frames) inside

/-- What a task can do next, where it is. -/
def Control.Placed (d : Definition) (trail : Trail) (frames : List Frame) : Control → Prop
  | .start => trail = {} ∧ frames = []
  | .enter step => d.at? trail.here = some step ∧ Frame.Open frames
  | .leave _ => True
  | .receive step c _ => (∃ rest, frames = .finish step :: rest) ∧ step.work = .activity c
  | .join step _ _ => (∃ rest, frames = .finish step :: rest) ∧
      ∃ ids branches, step.work = .parallel ids ∧ resolveAll d ids = .ok branches
  | .stopped => frames = []

/-- What is done at an address. -/
def Deed.Located (d : Definition) (a : Address) : Deed → Prop
  | .entered step => d.at? a = some step
  | .turned n => ∃ step r, d.at? a = some step ∧ step.references[n]? = some r
  | .called step c _ _ => d.at? a = some step ∧ step.work = .activity c ∧
      Text.blank c.activity = false
  | .answered step c _ => d.at? a = some step ∧ step.work = .activity c
  | .forked step kids => d.at? a = some step ∧ ∃ ids branches, step.work = .parallel ids ∧
      resolveAll d ids = .ok branches ∧ kids.length = branches.length
  | .finished step _ => d.at? a = some step
  | .begun _ | .ended _ | .returned _ => True

variable {d : Definition} {invoker : Invoker} {calls : List Invocation} {run : Progress}
  {frames frames' : List Frame} {control control' : Control} {deeds : List Deed} {trail : Trail}
  {step : Step} {a : Address} {inside : List Address}

theorem Stack.open_of_finish (h : Stack d (.finish step :: frames) inside) : Frame.Open frames := by
  cases h with
  | finish _ hopen _ => exact hopen

theorem Stack.tail_of_finish (h : Stack d (.finish step :: frames) inside) :
    ∃ a rest, inside = a :: rest ∧ d.at? a = some step ∧ Stack d frames rest := by
  cases h with
  | finish ha _ hrest => exact ⟨_, _, rfl, ha, hrest⟩

theorem Stack.inside_of_nil (h : Stack d [] inside) : inside = [] := by
  cases h
  rfl

/-- Following a reference leads to where the address says, or to nowhere. -/
theorem follow_placed {n : Nat} {r : Reference} (h : d.at? a = some step)
    (hr : step.references[n]? = some r) (hhere : trail.here = n :: a)
    (hopen : Frame.Open frames) : (follow d r.target).Placed d trail frames := by
  unfold follow
  cases ht : d.find? r.target with
  | none => trivial
  | some t =>
    refine ⟨?_, hopen⟩
    rw [hhere, Definition.at?_cons h hr, ht]

theorem references_work {n : Nat} {r : Reference} (h : step.work.references[n]? = some r) :
    step.references[n]? = some r := by
  rw [Step.references, List.getElem?_append_left (List.getElem?_eq_some_iff.1 h).1, h]

theorem references_next {target : String} (h : step.next = some target) :
    step.references[step.work.references.length]? = some ⟨.next, target⟩ := by
  simp [Step.references, h]

/-- The step that a sequence goes on with. -/
theorem references_place {before rest : List String} {target : String}
    (h : step.work = .sequence (before ++ target :: rest)) :
    step.references[Frame.place rest (.finish step :: frames)]? = some ⟨.steps, target⟩ := by
  simp [Frame.place, Step.references, Work.references, h]

/-- **A task goes on to where its ledger says.** -/
theorem Advance.placed (h : Advance invoker calls run frames control deeds frames' control')
    (hd : run.definition = d) (hstack : Stack d frames trail.inside)
    (hcontrol : control.Placed d trail frames) (id : Nat) :
    Stack d frames' (deeds.foldl Trail.record trail).inside ∧
      control'.Placed d (deeds.foldl Trail.record trail) frames' ∧
      ∀ e ∈ trail.entries id deeds, e.deed.Located d e.address := by
  subst hd
  cases h with
  | begin hroot =>
    obtain ⟨rfl, rfl⟩ := hcontrol
    exact ⟨hstack, ⟨hroot, trivial⟩, by simp [Trail.entries, Deed.Located]⟩
  | lost hroot => exact ⟨hstack, trivial, by simp [Trail.entries, Deed.Located]⟩
  | unnamed hwork hname =>
    exact ⟨.finish hcontrol.1 hcontrol.2 hstack, trivial,
      by simpa [Trail.entries, Deed.Located, Trail.address] using hcontrol.1⟩
  | call hwork hname hinv =>
    refine ⟨.finish hcontrol.1 hcontrol.2 hstack, ⟨⟨_, rfl⟩, hwork⟩, ?_⟩
    simpa [Trail.entries, Deed.Located, Trail.address, Trail.record, hname, hwork] using
      hcontrol.1
  | @sequence _ step steps hwork =>
    have hnone : step.work = .sequence ([] ++ steps) := hwork
    exact ⟨.sequence hnone (.finish hcontrol.1 hcontrol.2 hstack), trivial,
      by simpa [Trail.entries, Deed.Located, Trail.address] using hcontrol.1⟩
  | missing hwork hall =>
    exact ⟨.finish hcontrol.1 hcontrol.2 hstack, trivial,
      by simpa [Trail.entries, Deed.Located, Trail.address] using hcontrol.1⟩
  | branchless hwork hall =>
    exact ⟨.finish hcontrol.1 hcontrol.2 hstack, trivial,
      by simpa [Trail.entries, Deed.Located, Trail.address] using hcontrol.1⟩
  | choose hwork hto htarget =>
    -- a condition is the only step on whose frame another one is begun
    obtain ⟨r, hr, rfl⟩ := Option.map_eq_some_iff.1 htarget
    have hr := references_work hr
    refine ⟨.finish hcontrol.1 hcontrol.2 hstack,
      follow_placed hcontrol.1 hr rfl ⟨_, hwork⟩, ?_⟩
    simp only [Trail.entries, List.mem_cons, List.not_mem_nil, or_false, forall_eq_or_imp,
      forall_eq]
    exact ⟨hcontrol.1, _, _, hcontrol.1, hr⟩
  | pass hwork hto =>
    exact ⟨.finish hcontrol.1 hcontrol.2 hstack, trivial,
      by simpa [Trail.entries, Deed.Located, Trail.address] using hcontrol.1⟩
  | next hnext =>
    obtain ⟨a, rest, hinside, ha, hrest⟩ := hstack.tail_of_finish
    refine ⟨?_, ?_, ?_⟩
    · simpa [Trail.record, hinside] using hrest
    · exact follow_placed ha (references_next hnext) (by simp [Trail.record, hinside])
        hstack.open_of_finish
    · simpa [Trail.entries, Deed.Located, Trail.address, hinside] using ha
  | finish hdone =>
    obtain ⟨a, rest, hinside, ha, hrest⟩ := hstack.tail_of_finish
    refine ⟨?_, trivial, ?_⟩
    · simpa [Trail.record, hinside] using hrest
    · simpa [Trail.entries, Deed.Located, Trail.address, hinside] using ha
  | @child _ target rest =>
    -- the frame knows how many steps of the sequence are left, and so which one this is
    cases hstack with
    | @sequence step before _ frames _ hwork hstack =>
      obtain ⟨a, outside, hinside, ha, -⟩ := hstack.tail_of_finish
      have hr : step.references[Frame.place rest (.finish step :: frames)]? =
          some ⟨.steps, target⟩ := references_place hwork
      have hmore : step.work = .sequence ((before ++ [target]) ++ rest) := by simpa using hwork
      refine ⟨.sequence hmore hstack, ?_, ?_⟩
      · exact follow_placed ha hr (by simp [Trail.record, hinside]) trivial
      · simp only [Trail.entries, List.mem_singleton, forall_eq]
        refine ⟨_, _, ?_, hr⟩
        simpa [Trail.address, hinside] using ha
  | closed hdone =>
    cases hstack with
    | sequence hwork hstack => exact ⟨hstack, trivial, by simp [Trail.entries]⟩
  | answer =>
    obtain ⟨⟨rest, rfl⟩, hwork⟩ := hcontrol
    obtain ⟨a, rest, hinside, ha, -⟩ := hstack.tail_of_finish
    refine ⟨hstack, trivial, ?_⟩
    simpa [Trail.entries, Deed.Located, Trail.address, hinside, hwork] using ha
  | panic => exact ⟨hstack, trivial, by simp [Trail.entries]⟩
  | joined hmissing => exact ⟨hstack, trivial, by simp [Trail.entries]⟩
  | take hmissing => exact ⟨hstack, hcontrol, by simp [Trail.entries]⟩
  | broken hblame => exact ⟨hstack, trivial, by simp [Trail.entries]⟩

/-! ### Every task and every entry -/

/-- Where the tasks of a run of a definition stand, and what has been done where. -/
structure Scene.Placed (d : Definition) (x : Scene) : Prop where
  /-- There is one run. -/
  run : ∃ run, x.machine.runs = [run] ∧ run.definition = d
  /-- The first task is there. -/
  first : 0 < x.machine.tasks.length
  /-- The ledger knows where each task is. -/
  trails : x.ledger.trails.length = x.machine.tasks.length
  /-- Each task works on the run, inside of the steps that the ledger says. -/
  tasks : ∀ (id : Nat) (task : Task) (trail : Trail),
    x.machine.tasks[id]? = some task → x.ledger.trails[id]? = some trail →
    task.run = 0 ∧ Stack d task.frames trail.inside ∧ task.control.Placed d trail task.frames
  /-- Only the first task is on its own; the others were started by a task before them. -/
  parents : ∀ (id : Nat) (task : Task), x.machine.tasks[id]? = some task →
    (task.parent = none ↔ id = 0) ∧ ∀ p, task.parent = some p → p < id
  /-- What has been done was done by one of the tasks, and at its address. -/
  entries : ∀ e ∈ x.ledger.history, e.task < x.machine.tasks.length ∧
    e.deed.Located d e.address

/-- Branches that are resolved are those that are found. -/
theorem resolveAll_map {ids : List String} {branches : List Step}
    (h : resolveAll d ids = .ok branches) : ids.map d.find? = branches.map some := by
  induction ids generalizing branches with
  | nil =>
    cases h
    rfl
  | cons id ids ih =>
    unfold resolveAll at h
    cases hid : d.find? id with
    | none => rw [hid] at h; cases h
    | some s =>
      rw [hid] at h
      cases hrest : resolveAll d ids with
      | error missing => rw [hrest] at h; cases h
      | ok rest =>
        rw [hrest] at h
        cases h
        rw [List.map_cons, List.map_cons, hid, ih hrest]

theorem length_resolveAll {ids : List String} {branches : List Step}
    (h : resolveAll d ids = .ok branches) : branches.length = ids.length := by
  simpa using (congrArg List.length (resolveAll_map h)).symm

/-- The branches of a step are the steps that its references lead to. -/
theorem resolveAll_getElem? {ids : List String} {branches : List Step} {b : Step} {n : Nat}
    (h : resolveAll d ids = .ok branches) (hb : branches[n]? = some b) :
    ∃ target, ids[n]? = some target ∧ d.find? target = some b := by
  have hn : (ids.map d.find?)[n]? = some (some b) := by
    rw [resolveAll_map h, List.getElem?_map, hb, Option.map_some]
  rw [List.getElem?_map] at hn
  exact Option.map_eq_some_iff.1 hn

/-- Resolving fails at an id that no step has. -/
theorem resolveAll_error {ids : List String} {id : String}
    (h : resolveAll d ids = .error id) : id ∈ ids ∧ d.find? id = none := by
  induction ids with
  | nil => cases h
  | cons first ids ih =>
    unfold resolveAll at h
    cases hfirst : d.find? first with
    | none =>
      rw [hfirst] at h
      obtain rfl : first = id := Except.error.inj h
      exact ⟨List.mem_cons_self .., hfirst⟩
    | some step =>
      rw [hfirst] at h
      cases hrest : resolveAll d ids with
      | error missing =>
        rw [hrest] at h
        obtain rfl : missing = id := Except.error.inj h
        exact (ih hrest).imp_left (List.mem_cons_of_mem _)
      | ok rest =>
        rw [hrest] at h
        cases h

/-- The address of a branch leads to the branch. -/
theorem at?_branch {ids : List String} {branches : List Step} {b : Step} {n : Nat}
    (ha : d.at? a = some step) (hwork : step.work = .parallel ids)
    (h : resolveAll d ids = .ok branches) (hb : branches[n]? = some b) :
    d.at? (n :: a) = some b := by
  obtain ⟨target, hn, hfind⟩ := resolveAll_getElem? h hb
  have hr : step.references[n]? = some ⟨.branches, target⟩ := by
    have hrefs : step.references = ids.map (⟨.branches, ·⟩) ++
        (step.next.map (⟨.next, ·⟩)).toList := by
      simp [Step.references, Work.references, hwork]
    rw [hrefs, List.getElem?_append_left (by simpa using lt_of_getElem? hn)]
    simp [hn]
  rw [Definition.at?_cons ha hr, hfind]

theorem Advance.branches (h : Advance invoker calls run frames control deeds frames' control') :
    ∀ deed ∈ deeds, ∀ t : Trail, t.branches deed = [] := by
  cases h <;> simp [Trail.branches]

theorem told_placed {news : Nat × Outcome} (h : control.Placed d trail frames) :
    (control.told news).Placed d trail frames := by
  cases control <;> exact h

namespace Scene.Placed

variable {x : Scene} {m m' : Machine} {l : Ledger} {id : Nat} {task : Task}

theorem opening (d : Definition) (input : Store) : (Scene.opening d input).Placed d where
  run := ⟨_, rfl, rfl⟩
  first := by simp [Scene.opening, Machine.launch]
  trails := by simp [Scene.opening, Machine.launch]
  tasks id task trail htask htrail := by
    obtain ⟨rfl, rfl⟩ := Scene.task_of_opening htask
    obtain rfl : trail = {} := (Option.some.inj htrail).symm
    exact ⟨rfl, .nil, rfl, rfl⟩
  parents id task htask := by
    obtain ⟨rfl, rfl⟩ := Scene.task_of_opening htask
    exact ⟨by simp, fun p hp => by cases hp⟩
  entries := by
    rw [Scene.history_opening]
    exact List.forall_mem_nil _

/-- The ledger knows where a task is. -/
theorem exists_trail (h : x.Placed d) (htask : x.machine.tasks[id]? = some task) :
    ∃ trail, x.ledger.trails[id]? = some trail := by
  obtain ⟨hid, -⟩ := List.getElem?_eq_some_iff.1 htask
  exact getElem?_of_lt (by rw [h.trails]; exact hid)

/-- The trail of another task after a turn. -/
theorem trails_other (h : Scene.Placed d ⟨m, l⟩) {j : Nat} (hne : j ≠ id)
    (hj : m.tasks[j]? = some task) : (l.record id deeds).trails[j]? = l.trails[j]? := by
  obtain ⟨trail, htrail⟩ := h.exists_trail hj
  exact Ledger.trails_record_ne (lt_of_getElem? htrail) (Ne.symm hne)

/-- Where a task stands. -/
theorem exists_placed (h : x.Placed d) (htask : x.machine.tasks[id]? = some task) :
    task.run = 0 ∧ ∃ trail : Trail, Stack d task.frames trail.inside ∧
      task.control.Placed d trail task.frames := by
  obtain ⟨trail, htrail⟩ := h.exists_trail htask
  obtain ⟨hzero, hstack, hcontrol⟩ := h.tasks id task trail htask htrail
  exact ⟨hzero, trail, hstack, hcontrol⟩

/-- A task that has stopped has nothing to come back to. -/
theorem frames_of_stopped (h : x.Placed d) (htask : x.machine.tasks[id]? = some task)
    (hstopped : task.control = .stopped) : task.frames = [] := by
  obtain ⟨-, trail, -, hcontrol⟩ := h.exists_placed htask
  rw [hstopped] at hcontrol
  exact hcontrol

theorem definition_of_getElem? (h : x.Placed d) {n : Nat} (hrun : x.machine.runs[n]? = some run) :
    x.machine.runs = [run] ∧ run.definition = d := by
  obtain ⟨only, honly, hd⟩ := h.run
  rw [honly, List.getElem?_singleton] at hrun
  split at hrun
  · cases hrun
    exact ⟨honly, hd⟩
  · cases hrun

theorem runs_set (h : x.Placed d) {n : Nat} (hrun : x.machine.runs[n]? = some run)
    {run' : Progress} (hd : run'.definition = run.definition) :
    ∃ only, x.machine.runs.set n run' = [only] ∧ only.definition = d := by
  obtain ⟨honly, hdef⟩ := h.definition_of_getElem? hrun
  rw [honly] at hrun ⊢
  rw [List.getElem?_singleton] at hrun
  split at hrun
  · rename_i hn
    rw [hn]
    exact ⟨run', rfl, by rw [hd, hdef]⟩
  · cases hrun

/-- One task changes, and stands where its ledger says. -/
theorem set (h : Scene.Placed d ⟨m, l⟩) (htask : m.tasks[id]? = some task)
    (hbranches : ∀ deed ∈ deeds, ∀ t : Trail, t.branches deed = [])
    (hplaced : ∀ trail, l.trails[id]? = some trail →
      Stack d frames (deeds.foldl Trail.record trail).inside ∧
        control.Placed d (deeds.foldl Trail.record trail) frames ∧
        ∀ e ∈ trail.entries id deeds, e.deed.Located d e.address)
    {runs : List Progress} (hruns : ∃ run, runs = [run] ∧ run.definition = d)
    {now : Nat} {calls : List Invocation} {ready : List Nat} {timers : List (Nat × Nat)} :
    Scene.Placed d ⟨⟨now, runs, m.tasks.set id ⟨task.run, task.parent, frames, control⟩, ready,
      timers, calls⟩, l.record id deeds⟩ := by
  obtain ⟨trail, htrail⟩ := h.exists_trail htask
  obtain ⟨hzero, -, -⟩ := h.tasks id task trail htask htrail
  obtain ⟨hstack', hcontrol', hentries⟩ := hplaced trail htrail
  have htrails := Ledger.trails_record htrail hbranches
  have hlt : id < m.tasks.length := lt_of_getElem? htask
  refine ⟨hruns, ?first, ?trails, ?tasks, ?parents, ?entries⟩
  case first => simpa using h.first
  case trails =>
    show (l.record id deeds).trails.length = _
    rw [htrails]
    simpa using h.trails
  case tasks =>
    intro j t tr hj htr
    dsimp only at hj htr
    rcases getElem?_set_cases hj with ⟨rfl, rfl⟩ | ⟨hne, hj⟩
    · rw [Ledger.trails_record_self htrail] at htr
      obtain rfl := Option.some.inj htr
      exact ⟨hzero, hstack', hcontrol'⟩
    · rw [h.trails_other hne hj] at htr
      exact h.tasks j t tr hj htr
  case parents =>
    intro j t hj
    rcases getElem?_set_cases hj with ⟨rfl, rfl⟩ | ⟨-, hj⟩
    · exact h.parents j task htask
    · exact h.parents j t hj
  case entries =>
    intro e he
    dsimp only at he ⊢
    rw [Ledger.history_record htrail, List.mem_append] at he
    rw [List.length_set]
    rcases he with he | he
    · exact h.entries e he
    · exact ⟨by rw [Trail.task_of_mem_entries he]; exact hlt, hentries e he⟩

/-- A task starts branches. -/
theorem forks (h : Scene.Placed d ⟨m, l⟩) (htask : m.tasks[id]? = some task)
    (hrun : m.runs[task.run]? = some run) (hc : task.control = .enter step) {ids : List String}
    (hwork : step.work = .parallel ids) {branches : List Step}
    (hall : resolveAll run.definition ids = .ok branches) {ready : List Nat} :
    Scene.Placed d ⟨{ m with
      tasks := m.tasks.set id
          ⟨task.run, task.parent, .finish step :: task.frames, .join step branches.length []⟩ ++
        branches.map fun b => ⟨task.run, some id, [], .enter b⟩
      runs := m.runs.set task.run (run.record
        [.entered step, .forked step (List.range' m.tasks.length branches.length)])
      ready := ready },
      l.record id
        [.entered step, .forked step (List.range' m.tasks.length branches.length)]⟩ := by
  obtain ⟨trail, htrail⟩ := h.exists_trail htask
  obtain ⟨hzero, hstack, hcontrol⟩ := h.tasks id task trail htask htrail
  have hruns : ∀ deeds, ∃ only, m.runs.set task.run (run.record deeds) = [only] ∧
      only.definition = d := fun deeds => h.runs_set hrun rfl
  obtain ⟨-, rfl⟩ := h.definition_of_getElem? hrun
  rw [hc] at hcontrol
  obtain ⟨hhere, hopen⟩ := hcontrol
  have hlt : id < m.tasks.length := lt_of_getElem? htask
  have hlen : l.trails.length = m.tasks.length := h.trails
  refine ⟨hruns _, ?first, ?trails, ?tasks, ?parents, ?entries⟩
  case first => exact Nat.lt_of_lt_of_le h.first (by simp)
  case trails =>
    dsimp only
    rw [Ledger.trails_record_forked htrail]
    simp [hlen]
  case tasks =>
    intro j t tr hj htr
    dsimp only at hj htr
    rcases getElem?_append_cases hj with hj | ⟨hle, hj⟩
    · rcases getElem?_set_cases hj with ⟨rfl, rfl⟩ | ⟨hne, hj⟩
      · rw [Ledger.trails_record_self htrail] at htr
        obtain rfl := Option.some.inj htr
        exact ⟨hzero, .finish hhere hopen hstack, ⟨_, rfl⟩, ids, branches, hwork, hall⟩
      · rw [h.trails_other hne hj] at htr
        exact h.tasks j t tr hj htr
    · rw [List.length_set] at hle hj
      obtain ⟨k, rfl⟩ := Nat.exists_eq_add_of_le hle
      rw [Nat.add_sub_cancel_left, List.getElem?_map] at hj
      obtain ⟨b, hb, rfl⟩ := Option.map_eq_some_iff.1 hj
      rw [← hlen] at htr
      obtain rfl := Ledger.trail_of_kid htrail htr
      exact ⟨hzero, .nil, at?_branch hhere hwork hall hb, trivial⟩
  case parents =>
    intro j t hj
    dsimp only at hj
    rcases getElem?_append_cases hj with hj | ⟨hle, hj⟩
    · rcases getElem?_set_cases hj with ⟨rfl, rfl⟩ | ⟨-, hj⟩
      · exact h.parents j task htask
      · exact h.parents j t hj
    · rw [List.length_set] at hle
      simp only [List.getElem?_map, Option.map_eq_some_iff] at hj
      obtain ⟨b, -, rfl⟩ := hj
      refine ⟨⟨nofun, fun hj => ?_⟩, fun p hp => ?_⟩
      · omega
      · cases hp
        omega
  case entries =>
    intro e he
    dsimp only at he ⊢
    rw [Ledger.history_record htrail, List.mem_append] at he
    rw [List.length_append, List.length_set]
    rcases he with he | he
    · exact ⟨Nat.lt_of_lt_of_le (h.entries e he).1 (Nat.le_add_right _ _), (h.entries e he).2⟩
    · refine ⟨by rw [Trail.task_of_mem_entries he]; omega, ?_⟩
      simp only [Trail.entries, List.mem_cons, List.not_mem_nil, or_false] at he
      rcases he with rfl | rfl
      · exact hhere
      · exact ⟨hhere, ids, branches, hwork, hall, by simp⟩

/-- A task learns about one of its branches. -/
theorem told (h : Scene.Placed d ⟨m, l⟩) (parent : Nat) (news : Nat × Outcome) :
    Scene.Placed d ⟨{ m with tasks := m.tasks.modify parent (Task.told news) }, l⟩ := by
  refine ⟨h.run, ?first, ?trails, ?tasks, ?parents, ?entries⟩
  case first => simpa using h.first
  case trails => simpa using h.trails
  case tasks =>
    intro j t tr hj htr
    obtain ⟨old, hold, ⟨-, rfl⟩ | ⟨-, rfl⟩⟩ := getElem?_modify_cases hj
    · exact h.tasks j _ tr hold htr
    · obtain ⟨hzero, hstack, hcontrol⟩ := h.tasks j old tr hold htr
      exact ⟨hzero, hstack, told_placed hcontrol⟩
  case parents =>
    intro j t hj
    obtain ⟨old, hold, ⟨-, rfl⟩ | ⟨-, rfl⟩⟩ := getElem?_modify_cases hj
    · exact h.parents j _ hold
    · exact h.parents j old hold
  case entries =>
    intro e he
    simpa using h.entries e he

/-- **A turn leaves every task where its ledger says.** -/
theorem turn (h : Scene.Placed d ⟨m, l⟩) (hturn : Turn invoker m id deeds m') :
    Scene.Placed d ⟨m', l.record id deeds⟩ := by
  cases hturn with
  | idle => exact ⟨h.run, h.first, h.trails, h.tasks, h.parents, h.entries⟩
  | goes htask hrun hadv hline =>
    refine h.set htask hadv.branches (fun trail htrail => ?_) (h.runs_set hrun (by rfl))
    obtain ⟨-, hstack, hcontrol⟩ := h.tasks _ _ trail htask htrail
    exact hadv.placed (h.definition_of_getElem? hrun).2 hstack hcontrol _
  | forks htask hrun hc hwork hall hne => exact h.forks htask hrun hc hwork hall
  | ends htask hrun hparent hframes hc hready hwoken =>
    refine Scene.Placed.told
      (h.set htask ?_ (fun trail htrail => ?_) (h.runs_set hrun (by rfl))) _ _
    · simp [Trail.branches]
    · obtain ⟨-, hstack, -⟩ := h.tasks _ _ trail htask htrail
      exact ⟨hstack, hframes, by simp [Trail.entries, Deed.Located]⟩
  | returns htask hrun hparent hframes hc =>
    refine h.set htask ?_ (fun trail htrail => ?_) (h.runs_set hrun (by rfl))
    · simp [Trail.branches]
    · obtain ⟨-, hstack, -⟩ := h.tasks _ _ trail htask htrail
      exact ⟨hstack, hframes, by simp [Trail.entries, Deed.Located]⟩

/-- The history after a turn. -/
theorem history_record (h : Scene.Placed d ⟨m, l⟩) (hturn : Turn invoker m id deeds m') :
    ∃ trail : Trail, (∀ task, m.tasks[id]? = some task → l.trails[id]? = some trail) ∧
      (l.record id deeds).history = l.history ++ trail.entries id deeds := by
  cases htask : m.tasks[id]? with
  | none =>
    rcases hturn.runs_eq with ⟨rfl, -⟩ | ⟨task, -, hsome, -, -⟩
    · exact ⟨{}, fun _ hsome => (Option.some_ne_none _ hsome.symm).elim, by simp [Trail.entries]⟩
    · rw [htask] at hsome
      cases hsome
  | some task =>
    obtain ⟨trail, htrail⟩ := h.exists_trail htask
    exact ⟨trail, fun _ _ => htrail, Ledger.history_record htrail⟩

end Scene.Placed

/-- **In every scene that is reached, everything stands where the ledger says.** -/
theorem Scene.Reaches.placed {x : Scene} {input : Store}
    (h : Reaches invoker (Scene.opening d input) x) : x.Placed d := by
  refine h.induct (Scene.Placed.opening d input) ?turn ?same
  case turn =>
    intro m m' l id deeds _ hplaced hturn
    exact hplaced.turn hturn
  case same =>
    intro m m' l htasks hruns _ hplaced
    obtain ⟨hrun, hfirst, htrails, hall, hparents, hentries⟩ := hplaced
    dsimp only at *
    rw [← htasks] at hfirst htrails hall hparents hentries
    rw [← hruns] at hrun
    exact ⟨hrun, hfirst, htrails, hall, hparents, hentries⟩

end Flowgraph.Run

import Flowgraph.Proofs.Run.FirstFailure
import Flowgraph.Proofs.Run.Apart

/-!
# Runs settle what their definition means

What the tasks of a scene still come to, put together, is the `plan` of the scene: the changes of
all tasks, the later ones first, since a task that waits goes on after its branches. **The plan,
applied to the variables as they are, comes to the same at any moment of a run**, namely to what
the root means for the input (`Reaches.settles`). A turn takes away a part of the change of one
task, which is not the first one in the plan to be made; it may be made first because it commutes
with all changes before it (`commutes_plan`).

So a run that has returned has brought about what the root means, or has failed just where that
fails (`Reaches.settled`), whatever the schedule was.
-/

set_option autoImplicit false

namespace Flowgraph.Run

open Machine (follow resolveAll)
open Change

variable {d : Definition} {e : Step → Change} {f : Invocation → Activity.Result}
  {invoker : Invoker} {input : Store} {x : Scene} {m m' : Machine} {l : Ledger} {id : Nat}
  {deeds : List Deed} {history new : List Entry} {tasks : List Task} {task : Task} {trail : Trail}

/-! ### What tasks have been told -/

/-- Whether what tasks have been told about their branches is how these have ended. -/
def Scene.Heard (x : Scene) : Prop :=
  ∀ (p : Nat) (task : Task) (step : Step) (missing : Nat) (ended : List (Nat × Outcome)),
    x.machine.tasks[p]? = some task → task.control = .join step missing ended →
      ∀ news ∈ ended, outcomeOf x.ledger.history news.1 = some news.2

/-- **Tasks are told the truth** about their branches. -/
theorem Scene.Reaches.heard (h : Scene.Reaches invoker (Scene.opening d input) x) : x.Heard := by
  refine h.induct ?start ?turn ?same
  case start =>
    intro p task step missing ended htask hc
    rw [(task_of_opening htask).2] at hc
    cases hc
  case turn =>
    intro m m' l id deeds hreach hheard hturn p task step missing ended htask hc news hnews
    obtain ⟨trail, -, hhistory⟩ := hreach.placed.history_record hturn
    dsimp only at htask ⊢
    rw [hhistory]
    -- what has been told before the turn
    have hbefore : ∀ old missing ended, m.tasks[p]? = some old →
        old.control = .join step missing ended → news ∈ ended →
          outcomeOf (l.history ++ trail.entries id deeds) news.1 = some news.2 :=
      fun old missing ended hold hc hnews =>
        outcomeOf_append_of_some (hheard p old step missing ended hold hc news hnews)
    by_cases hne : p = id
    · subst hne
      cases hturn.own htask with
      | idle hold => exact hbefore _ _ _ hold hc hnews
      | goes hold _ hadv =>
        dsimp only at hc
        subst hc
        obtain ⟨branch, hjoin, -, -⟩ := hadv.join_inv
        exact hbefore _ _ _ hold hjoin (List.mem_cons_of_mem _ hnews)
      | forks =>
        obtain ⟨-, -, rfl⟩ := Control.join.inj hc
        cases hnews
      | stops => cases hc
    · cases hturn.fate hne htask with
      | kept hold => exact hbefore _ _ _ hold hc hnews
      | @told old child outcome hold hchild _ hdeeds =>
        obtain ⟨before, hjoin, rfl⟩ := Control.told_eq_join hc
        rcases List.mem_append.1 hnews with hnews | hnews
        · exact hbefore _ _ _ hold hjoin hnews
        · subst hdeeds
          obtain rfl := List.mem_singleton.1 hnews
          have hnone : outcomeOf l.history id = none :=
            hreach.orderly.outcomeOf_eq_none hchild (Scene.Joining.running_of_ended hturn hchild)
          rw [outcomeOf_append, hnone, outcomeOf_entries]
          rfl
      | born => cases hc
  case same =>
    intro m m' l htasks _ _ hheard p task step missing ended htask hc
    dsimp only at htasks htask
    rw [htasks] at htask
    exact hheard p task step missing ended htask hc

/-! ### The plan -/

/-- What some tasks still come to after a history, each by itself. -/
def plan (d : Definition) (e : Step → Change) (history : List Entry) (tasks : List Task) :
    List Change :=
  tasks.mapIdx fun id task => task.change d e (outcomeOf history id)

theorem getElem?_plan (id : Nat) : (plan d e history tasks)[id]? =
    tasks[id]?.map fun task => task.change d e (outcomeOf history id) := List.getElem?_mapIdx

theorem plan_of_getElem? (h : tasks[id]? = some task) :
    (plan d e history tasks)[id]? = some (task.change d e (outcomeOf history id)) := by
  rw [getElem?_plan, h, Option.map_some]

theorem plan_set : plan d e history (tasks.set id task) =
    (plan d e history tasks).set id (task.change d e (outcomeOf history id)) := List.mapIdx_set

/-- Nothing that is not an end makes a difference to tasks that have stopped. -/
theorem plan_append (h : deeds.findSome? Deed.ending? = none) :
    plan d e (history ++ trail.entries id deeds) tasks = plan d e history tasks := by
  have hsame : ∀ j, outcomeOf (history ++ trail.entries id deeds) j = outcomeOf history j := by
    intro j
    have hnew : outcomeOf (trail.entries id deeds) j = none := by
      by_cases hj : j = id
      · rw [hj, outcomeOf_entries, h]
      · exact outcomeOf_entries_ne hj
    rw [outcomeOf_append, hnew, Option.or_none]
  simp only [plan, hsame]

theorem plan_told {parent : Nat} {news : Nat × Outcome} :
    plan d e history (tasks.modify parent (Task.told news)) = plan d e history tasks := by
  apply List.ext_getElem?
  intro j
  rw [getElem?_plan, getElem?_plan, List.getElem?_modify]
  cases tasks[j]? with
  | none => rfl
  | some task =>
    by_cases hj : parent = j
    · simp [hj, change_told]
    · simp [hj]

/-- A task that is about to end leaves the plan as it is when it ends. -/
theorem plan_stopped {outcome : Outcome} {deed : Deed} (htask : tasks[id]? = some task)
    (hc : task.control = .leave outcome) (hnone : outcomeOf history id = none)
    (hdeed : deed.ending? = some outcome) :
    plan d e (history ++ trail.entries id [deed]) (tasks.set id { task with control := .stopped }) =
      plan d e history tasks := by
  apply List.ext_getElem?
  intro j
  rw [getElem?_plan, getElem?_plan, outcomeOf_append]
  by_cases hj : j = id
  · subst hj
    rw [List.getElem?_set_self (lt_of_getElem? htask), htask, hnone, outcomeOf_entries]
    simp only [List.findSome?_cons, hdeed, Option.none_or, Option.map_some, Task.change, hc]
    cases outcome <;> rfl
  · rw [List.getElem?_set_ne (Ne.symm hj), outcomeOf_entries_ne hj, Option.or_none]

/-- The branches of a step that has just been entered come to what the steps mean. -/
theorem plan_branches {run : Nat} (branches : List Step) :
    plan d e history (tasks ++ branches.map fun b => ⟨run, some id, [], .enter b⟩) =
      plan d e history tasks ++ branches.map e := by
  rw [plan, List.mapIdx_append]
  congr 1
  apply List.ext_getElem?
  intro j
  rw [List.getElem?_mapIdx, List.getElem?_map, List.getElem?_map]
  cases branches[j]? with
  | none => rfl
  | some b => exact congrArg some andThen_keep

namespace Scene

/-- A task that has stopped is all done, or has failed for good. -/
theorem Placed.change_of_outcome (hplaced : x.Placed d) (horderly : x.Orderly)
    (htask : x.machine.tasks[id]? = some task) {outcome : Outcome}
    (houtcome : outcomeOf x.ledger.history id = some outcome) :
    task.change d e (some outcome) = if outcome = .done then keep else fail := by
  have hcontrol := horderly.stopped_of_outcomeOf htask houtcome
  have hframes := hplaced.frames_of_stopped htask hcontrol
  rw [Task.change, hcontrol, hframes]
  by_cases hdone : outcome = .done
  · subst hdone
    rfl
  · have hne : some outcome ≠ some .done := fun heq => hdone (Option.some.inj heq)
    rw [if_neg hdone, Control.change, if_neg hne, fail_andThen]

/-- A task that has ended other than well makes the plan fail. -/
theorem Placed.fail_mem_plan (hplaced : x.Placed d) (horderly : x.Orderly) {outcome : Outcome}
    (houtcome : outcomeOf x.ledger.history id = some outcome) (hnot : outcome ≠ .done) :
    fail ∈ plan d e x.ledger.history x.machine.tasks := by
  obtain ⟨entry, hentry, hending⟩ := List.exists_of_findSome?_eq_some houtcome
  split at hending
  case isFalse => cases hending
  case isTrue hid =>
    subst hid
    obtain ⟨task, htask⟩ := getElem?_of_lt (hplaced.entry_lt hentry)
    have hchange := hplaced.change_of_outcome (e := e) horderly htask houtcome
    rw [if_neg hnot] at hchange
    refine List.mem_of_getElem? (i := entry.task) ?_
    rw [plan_of_getElem? htask, houtcome, hchange]

/-! ### Every turn keeps to the plan -/

/-- **What a task does commutes with all of the plan that comes before it**: the tasks that come
before it are its branches, which are done, or keep to other variables. -/
theorem Reaches.commutes_plan (hsound : d.Sound) (hseparate : d.Separate) (hmeans : Means d e f)
    (h : Reaches invoker (opening d input) x) (htask : x.machine.tasks[id]? = some task)
    (hacts : task.control.Acts) {c : Change} (hc : Confined (task.reads d) (task.writes d) c) :
    ∀ p ∈ (plan d e x.ledger.history x.machine.tasks).drop (id + 1), Commutes p c := by
  intro p hp
  obtain ⟨n, hn⟩ := List.mem_iff_getElem?.1 hp
  rw [List.getElem?_drop, getElem?_plan] at hn
  obtain ⟨later, hlater, rfl⟩ := Option.map_eq_some_iff.1 hn
  rcases h.apart hseparate id (id + 1 + n) task later (by omega) htask hlater with hunder | hclear
  · have hdone := h.orderly.done_of_under htask hacts hunder
    rw [hdone, h.placed.change_of_outcome h.orderly hlater hdone, if_pos rfl]
    exact .keep
  · obtain ⟨-, trail, -, hcontrol⟩ := h.placed.exists_placed hlater
    exact (Task.confined hmeans hsound hcontrol).commutes hc hclear.right
      fun key hkey => (hclear.left key hkey).2

/-- A task that goes on by itself takes a part out of the plan. -/
theorem Reaches.settles_goes (hsound : d.Sound) (hseparate : d.Separate) (hmeans : Means d e f)
    (hanswers : invoker.Answers f) (h : Reaches invoker (opening d input) ⟨m, l⟩)
    {run : Progress} {frames : List Frame} {control : Control} (hruns : m.runs = [run])
    (htask : m.tasks[id]? = some task)
    (hadv : Advance invoker m.calls run task.frames task.control deeds frames control) :
    settle ((plan d e l.history m.tasks).set id
        (Task.change d e (outcomeOf l.history id) ⟨task.run, task.parent, frames, control⟩))
      (Store.values (run.record deeds).store) =
    settle (plan d e l.history m.tasks) (Store.values run.store) := by
  obtain ⟨-, trail, hstack, hcontrol⟩ := h.placed.exists_placed htask
  obtain ⟨run', hrun', hd⟩ := h.placed.run
  obtain rfl : run = run' := by simpa [hruns] using hrun'
  have hplan : (plan d e l.history m.tasks)[id]? =
      some (task.change d e (outcomeOf l.history id)) := plan_of_getElem? htask
  have hparts : Parts (Store.values run.store) (Store.values (run.record deeds).store) task.control
      (task.change d e (outcomeOf l.history id))
      (Task.change d e (outcomeOf l.history id) ⟨task.run, task.parent, frames, control⟩) :=
    hadv.change hsound hmeans hanswers hd hcontrol
  cases hparts with
  | whole hsame hvalues =>
    rw [hvalues, hsame, set_self hplan]
  | part hacts hpart =>
    -- the rest of what the task comes to is confined to the same variables
    obtain ⟨-, hcontrol', -⟩ := hadv.placed hd hstack hcontrol id
    have hfollows : Task.Follows d ⟨task.run, task.parent, frames, control⟩ task := hadv.upcoming hd
    have hbefore : Confined (task.reads d) (task.writes d)
        (task.change d e (outcomeOf l.history id)) := Task.confined hmeans hsound hcontrol
    have hafter : Confined (task.reads d) (task.writes d)
        (Task.change d e (outcomeOf l.history id) ⟨task.run, task.parent, frames, control⟩) :=
      (Task.confined hmeans hsound hcontrol').mono hfollows.reads_subset hfollows.writes_subset
    refine settle_part hplan (fun p hp => ⟨?_, ?_⟩) hpart
    · exact h.commutes_plan hsound hseparate hmeans htask hacts hbefore p hp
    · exact h.commutes_plan hsound hseparate hmeans htask hacts hafter p hp
  | @broken step missing branch outcome ended hjoin hnot hfail hvalues =>
    -- a branch has failed, and so has the whole plan
    have hended := h.heard id task step missing _ htask hjoin _ (List.mem_cons_self ..)
    have hmem := h.placed.fail_mem_plan (e := e) h.orderly hended hnot
    rw [hvalues, hfail, settle_of_fail hmem,
      settle_of_fail (List.mem_set (lt_of_getElem? hplan) fail)]

/-- A task that starts branches shares its part of the plan with them. -/
theorem Reaches.settles_forks (hsound : d.Sound) (hseparate : d.Separate) (hmeans : Means d e f)
    (h : Reaches invoker (opening d input) ⟨m, l⟩) {step : Step} {ids : List String}
    {branches : List Step} (htask : m.tasks[id]? = some task) (hc : task.control = .enter step)
    (hwork : step.work = .parallel ids) (hall : resolveAll d ids = .ok branches) :
    settle ((plan d e l.history m.tasks).set id
        (framesChange d e (.finish step :: task.frames)) ++ branches.map e) =
      settle (plan d e l.history m.tasks) := by
  obtain ⟨-, trail, -, hcontrol⟩ := h.placed.exists_placed htask
  rw [hc] at hcontrol
  have hmem := Definition.at?_mem hcontrol.1
  have hupcoming : step ∈ task.upcoming d := by simp [Task.upcoming, hc, Control.upcoming]
  have hbranches : Confined (task.reads d) (task.writes d) (settle (branches.map e)) := by
    refine .settle fun c hc => ?_
    obtain ⟨b, hb, rfl⟩ := List.mem_map.1 hc
    obtain ⟨n, hn⟩ := List.mem_iff_getElem?.1 hb
    obtain ⟨target, htarget, hfind⟩ := resolveAll_getElem? hall hn
    have hreference := Step.exists_reference_branches hwork (List.mem_of_getElem? htarget)
    have hleads : d.Leads step b := .single (Definition.refers_of_find? hreference hfind)
    exact (hmeans.confined hsound b (Definition.find?_mem hfind)).mono
      (fun key hkey => ⟨step, hupcoming, hleads.reads_subset hkey⟩)
      (fun key hkey => ⟨step, hupcoming, hleads.writes_subset hkey⟩)
  refine settle_fork (plan_of_getElem? htask)
    (h.commutes_plan hsound hseparate hmeans htask (by rw [hc]; trivial) hbranches) ?_
  rw [Task.change, hc, framesChange_finish, ← andThen_assoc, ← toward_branches hall]
  show (e step).andThen _ = _
  rw [hmeans step hmem, workChange, hwork]

/-- **A run settles what the root means**: what is still to come makes of the variables what the
root makes of the input, at any moment. -/
theorem Reaches.settles (hsound : d.Sound) (hseparate : d.Separate) (hmeans : Means d e f)
    (hanswers : invoker.Answers f) (h : Reaches invoker (opening d input) x) :
    settle (plan d e x.ledger.history x.machine.tasks)
        (Store.values (Run.replay input x.ledger.history)) =
      toward d e d.root (Store.values input) := by
  refine h.induct ?start ?turn ?same
  case start =>
    show (toward d e d.root).andThen keep _ = _
    rw [andThen_keep]
    rfl
  case turn =>
    intro m m' l id deeds hreach hsettles hturn
    obtain ⟨⟨run, hruns, hstore⟩, -⟩ := hreach.replay
    obtain ⟨trail, -, hhistory⟩ := hreach.placed.history_record hturn
    dsimp only at hsettles hruns hstore ⊢
    rw [← hsettles, hhistory, replay_append, replay_entries, ← hstore]
    cases hturn with
    | idle =>
      rw [plan_append rfl]
      rfl
    | goes htask hrun hadv =>
      have honly := (hreach.placed.definition_of_getElem? hrun).1
      obtain rfl := List.singleton_inj.1 (hruns.symm.trans honly)
      rw [plan_append hadv.no_ending, plan_set]
      exact hreach.settles_goes hsound hseparate hmeans hanswers hruns htask hadv
    | @forks task _ step _ branches htask hrun hc hwork hall hne =>
      rw [(hreach.placed.definition_of_getElem? hrun).2] at hall
      rw [plan_append rfl, plan_branches, plan_set]
      have hforks := hreach.settles_forks hsound hseparate hmeans htask hc hwork hall
      exact congrFun hforks _
    | ends htask hrun hparent hframes hc =>
      have hnone := hreach.orderly.outcomeOf_eq_none htask (by rw [hc]; rfl)
      rw [plan_told, plan_stopped htask hc hnone rfl]
      rfl
    | returns htask hrun hparent hframes hc =>
      have hnone := hreach.orderly.outcomeOf_eq_none htask (by rw [hc]; rfl)
      rw [plan_stopped htask hc hnone rfl]
      rfl
  case same =>
    intro m m' l htasks _ _ hsettles
    dsimp only at hsettles ⊢
    rw [htasks]
    exact hsettles

/-- **What a run that has returned comes to** is what the root means for the input: it has failed
if that fails, and otherwise its variables are those that the root leads to. -/
theorem Reaches.settled (hsound : d.Sound) (hseparate : d.Separate) (hmeans : Means d e f)
    (hanswers : invoker.Answers f) (h : Reaches invoker (opening d input) x)
    (hreturned : (outcomeOf x.ledger.history 0).isSome) :
    toward d e d.root (Store.values input) =
      if outcomeOf x.ledger.history 0 = some .done then
        some (Store.values (Run.replay input x.ledger.history))
      else none := by
  rw [← h.settles hsound hseparate hmeans hanswers]
  split
  case isTrue hdone =>
    rw [settle_of_keep]
    · rfl
    · intro c hc
      obtain ⟨id, hid⟩ := List.mem_iff_getElem?.1 hc
      rw [getElem?_plan] at hid
      obtain ⟨task, htask, rfl⟩ := Option.map_eq_some_iff.1 hid
      have hresult := h.orderly.all_done h.placed hdone htask
      rw [hresult, h.placed.change_of_outcome h.orderly htask hresult, if_pos rfl]
  case isFalse hnot =>
    obtain ⟨outcome, houtcome⟩ := Option.isSome_iff_exists.1 hreturned
    have hnot : outcome ≠ .done := fun heq => hnot (heq ▸ houtcome)
    rw [settle_of_fail (h.placed.fail_mem_plan h.orderly houtcome hnot)]
    rfl

end Scene

end Flowgraph.Run

import Flowgraph.Proofs.Run.Branches
import Flowgraph.Proofs.Definition.Chains
import Flowgraph.Proofs.Run.Weight

/-!
# Each step execution is begun once

The address of a step execution is its name: **no address is entered twice in a run**
(`Reaches.entered_once`). For any address, the times that it has been entered and the places from
which a task can still come to it add up to at most one (`Scene.Once`): what a task enters or turns
to, it no longer has ahead of it.

In the same way, every address that has been entered has either been finished or is one that a task
is inside of (`Reaches.balanced`).
-/

set_option autoImplicit false

namespace Flowgraph.Run

open Machine (follow resolveAll)

/-! ### Step executions in a history -/

/-- Whether a deed begins the execution of a step. -/
def Deed.Begins : Deed → Bool
  | .entered _ => true
  | _ => false

/-- Whether a deed is the end of the execution of a step. -/
def Deed.Finishes : Deed → Bool
  | .finished _ _ => true
  | _ => false

/-- How often an address has been entered. -/
def begun (a : Address) (history : List Entry) : Nat :=
  history.countP fun e => e.deed.Begins && e.address == a

/-- How often an address has been finished. -/
def finished (a : Address) (history : List Entry) : Nat :=
  history.countP fun e => e.deed.Finishes && e.address == a

section

variable {a : Address} {history new : List Entry} {e : Entry}

@[simp] theorem begun_nil : begun a [] = 0 := rfl

@[simp] theorem finished_nil : finished a [] = 0 := rfl

theorem begun_append : begun a (history ++ new) = begun a history + begun a new :=
  List.countP_append

theorem finished_append : finished a (history ++ new) = finished a history + finished a new :=
  List.countP_append

theorem begun_cons : begun a (e :: history) =
    (if e.deed.Begins && e.address == a then 1 else 0) + begun a history := by
  rw [begun, List.countP_cons, Nat.add_comm]
  rfl

theorem finished_cons : finished a (e :: history) =
    (if e.deed.Finishes && e.address == a then 1 else 0) + finished a history := by
  rw [finished, List.countP_cons, Nat.add_comm]
  rfl

theorem begun_pos {step : Step} (he : e ∈ history) (hdeed : e.deed = .entered step) :
    0 < begun e.address history := by
  refine List.countP_pos_iff.2 ⟨e, he, ?_⟩
  simp [hdeed, Deed.Begins]

theorem finished_pos {step : Step} {outcome : Outcome} (he : e ∈ history)
    (hdeed : e.deed = .finished step outcome) : 0 < finished e.address history := by
  refine List.countP_pos_iff.2 ⟨e, he, ?_⟩
  simp [hdeed, Deed.Finishes]

/-- An address that has been entered at all. -/
theorem exists_of_begun_pos (h : 0 < begun a history) :
    ∃ e ∈ history, ∃ step, e.deed = .entered step ∧ e.address = a := by
  obtain ⟨e, he, hbegins⟩ := List.countP_pos_iff.1 h
  rw [Bool.and_eq_true, beq_iff_eq] at hbegins
  refine ⟨e, he, ?_⟩
  cases hdeed : e.deed with
  | entered step => exact ⟨step, rfl, hbegins.2⟩
  | _ =>
    rw [hdeed] at hbegins
    cases hbegins.1

end

/-! ### What lies ahead of a task -/

/-- How many of the ways lead to a goal: an address lies on every way to what is beyond it. -/
def leading (goal : Address) (ways : List Address) : Nat :=
  (ways.map fun a => if a <:+ goal then 1 else 0).sum

/-- How many references the step of the innermost frame has for its work. -/
def Frame.width : List Frame → Nat
  | .finish step :: _ => step.work.references.length
  | _ => 0

/-- The addresses that a task can turn to when it comes back to its frames. -/
def Frame.ways : List Frame → List Address → List Address
  | .finish step :: frames, a :: inside =>
    (step.work.references.length :: a) :: Frame.ways frames inside
  | .sequence rest :: frames, inside =>
    (List.range' (Frame.width frames - rest.length) rest.length).map (· :: inside.headD []) ++
      Frame.ways frames inside
  | _, _ => []

/-- The address that a task turns to by what it does next. -/
def Control.ways (trail : Trail) : Control → List Address
  | .start | .enter _ => [trail.here]
  | _ => []

/-- The addresses that a task can still turn to. -/
def Task.ways (task : Task) (trail : Trail) : List Address :=
  task.control.ways trail ++ Frame.ways task.frames trail.inside

section

variable {goal a : Address} {ways ways' inside : List Address} {frames : List Frame} {step : Step}
  {trail : Trail}

@[simp] theorem leading_nil : leading goal [] = 0 := rfl

@[simp] theorem leading_cons :
    leading goal (a :: ways) = (if a <:+ goal then 1 else 0) + leading goal ways := by
  rw [leading, List.map_cons, List.sum_cons, leading]

@[simp] theorem leading_append :
    leading goal (ways ++ ways') = leading goal ways + leading goal ways' := by
  rw [leading, List.map_append, List.sum_append, leading, leading]

@[simp] theorem ways_finish : Frame.ways (.finish step :: frames) (a :: inside) =
    (step.work.references.length :: a) :: Frame.ways frames inside := rfl

@[simp] theorem ways_sequence {rest : List String} :
    Frame.ways (.sequence rest :: frames) inside =
      (List.range' (Frame.width frames - rest.length) rest.length).map (· :: inside.headD []) ++
        Frame.ways frames inside := rfl

@[simp] theorem ways_start : Control.start.ways trail = [trail.here] := rfl

@[simp] theorem ways_enter : (Control.enter step).ways trail = [trail.here] := rfl

@[simp] theorem ways_leave {outcome : Outcome} : (Control.leave outcome).ways trail = [] := rfl

@[simp] theorem ways_receive {c : Call} {ending : Ending} :
    (Control.receive step c ending).ways trail = [] := rfl

@[simp] theorem ways_join {missing : Nat} {ended : List (Nat × Outcome)} :
    (Control.join step missing ended).ways trail = [] := rfl

@[simp] theorem ways_told {control : Control} {news : Nat × Outcome} :
    (control.told news).ways trail = control.ways trail := by
  cases control <;> rfl

theorem exists_of_leading_pos (h : 0 < leading goal ways) : ∃ v ∈ ways, v <:+ goal := by
  induction ways with
  | nil => cases h
  | cons v ways ih =>
    by_cases hv : v <:+ goal
    · exact ⟨v, List.mem_cons_self .., hv⟩
    · rw [leading_cons, if_neg hv, Nat.zero_add] at h
      obtain ⟨u, hu, hgoal⟩ := ih h
      exact ⟨u, List.mem_cons_of_mem _ hu, hgoal⟩

theorem leading_pos {v : Address} (hv : v ∈ ways) (hgoal : v <:+ goal) : 0 < leading goal ways := by
  obtain ⟨before, after, rfl⟩ := List.append_of_mem hv
  rw [leading_append, leading_cons, if_pos hgoal]
  omega

/-- What a task does when it follows a reference, it can do. -/
theorem leading_follow_le (goal : Address) (d : Definition) (target : String)
    (h : trail.here = a) :
    leading goal ((follow d target).ways trail) ≤ if a <:+ goal then 1 else 0 := by
  subst h
  unfold follow
  split
  · simp
  · exact Nat.zero_le _

/-- The ways on from an address that lead to a goal: one at most, and none if that is the
address itself. -/
theorem leading_on_le (goal a : Address) {on : List Nat} (hon : on.Nodup) :
    (if a = goal then 1 else 0) + leading goal (on.map (· :: a)) ≤ if a <:+ goal then 1 else 0 := by
  induction on with
  | nil =>
    by_cases ha : a = goal
    · rw [if_pos ha, if_pos (ha ▸ List.suffix_refl a)]
      exact Nat.le_refl 1
    · rw [if_neg ha]
      exact Nat.zero_le _
  | cons n on ih =>
    obtain ⟨hn, hon⟩ := List.nodup_cons.1 hon
    rw [List.map_cons, leading_cons]
    by_cases hsuffix : n :: a <:+ goal
    · -- no other way leads there, and the goal is not reached yet
      have hnone : leading goal (on.map (· :: a)) = 0 := by
        by_contra hsome
        obtain ⟨v, hv, hother⟩ := exists_of_leading_pos (Nat.pos_of_ne_zero hsome)
        obtain ⟨k, hk, rfl⟩ := List.mem_map.1 hv
        exact hn (by rwa [Definition.eq_of_suffix hsuffix hother])
      have hne : a ≠ goal := by
        rintro rfl
        have := hsuffix.length_le
        simp at this
      rw [if_pos hsuffix, if_neg hne, hnone, if_pos ((List.suffix_cons n a).trans hsuffix)]
    · rw [if_neg hsuffix, Nat.zero_add]
      exact ih hon

/-- The ways on by some of the references of a step's work, and by its next step. -/
theorem leading_next_le (goal a : Address) {on : List Nat} {next : Nat} (hon : on.Nodup)
    (hnext : ∀ n ∈ on, n < next) :
    (if a = goal then 1 else 0) +
        ((if next :: a <:+ goal then 1 else 0) + leading goal (on.map (· :: a))) ≤
      if a <:+ goal then 1 else 0 := by
  have hnodup : (next :: on).Nodup :=
    List.nodup_cons.2 ⟨fun hmem => Nat.lt_irrefl _ (hnext next hmem), hon⟩
  have hle := leading_on_le goal a hnodup
  rwa [List.map_cons, leading_cons] at hle

/-- The ways of a task lead on from the step executions that it is inside of. -/
theorem exists_of_mem_ways {d : Definition} {v : Address} (h : Stack d frames inside)
    (hv : v ∈ Frame.ways frames inside) : ∃ n, ∃ a ∈ inside, v = n :: a := by
  induction h with
  | nil => cases hv
  | finish ha hopen hstack ih =>
    rcases List.mem_cons.1 hv with rfl | hv
    · exact ⟨_, _, List.mem_cons_self .., rfl⟩
    · obtain ⟨n, b, hb, rfl⟩ := ih hv
      exact ⟨n, b, List.mem_cons_of_mem _ hb, rfl⟩
  | sequence hwork hstack ih =>
    rcases List.mem_append.1 hv with hv | hv
    · obtain ⟨n, -, rfl⟩ := List.mem_map.1 hv
      obtain ⟨a, rest, rfl, -, -⟩ := hstack.tail_of_finish
      exact ⟨n, a, List.mem_cons_self .., rfl⟩
    · exact ih hv

end

variable {d : Definition} {invoker : Invoker} {calls : List Invocation} {run : Progress}
  {frames frames' : List Frame} {control control' : Control} {deeds : List Deed} {trail : Trail}

/-- Deeds that begin nothing leave nothing begun. -/
theorem begun_entries_of_none {a : Address} {id : Nat} (h : ∀ deed ∈ deeds, deed.Begins = false) :
    begun a (trail.entries id deeds) = 0 := by
  refine List.countP_eq_zero.2 fun e he => ?_
  rw [h e.deed (Trail.deed_mem_of_mem_entries he)]
  simp

theorem begun_entries_entered {a : Address} {id : Nat} {step : Step}
    (h : ∀ deed ∈ deeds, deed.Begins = false) :
    begun a (trail.entries id (.entered step :: deeds)) = if trail.here = a then 1 else 0 := by
  rw [Trail.entries, begun_cons, begun_entries_of_none h]
  simp [Deed.Begins, Trail.address]

/-- **What a task enters or turns to, it no longer has ahead of it.** -/
theorem Advance.leading_le (h : Advance invoker calls run frames control deeds frames' control')
    (hstack : Stack d frames trail.inside) (goal : Address) (id : Nat) :
    begun goal (trail.entries id deeds) +
        (leading goal (control'.ways (deeds.foldl Trail.record trail)) +
          leading goal (Frame.ways frames' (deeds.foldl Trail.record trail).inside)) ≤
      leading goal (control.ways trail) + leading goal (Frame.ways frames trail.inside) := by
  cases h with
  | begin hroot | lost hroot =>
    rw [begun_entries_of_none (by simp [Deed.Begins])]
    simp [Trail.record]
  | @unnamed _ step | @missing _ step | @branchless _ step | @pass _ step | @call _ step =>
    have hle := leading_next_le goal trail.here List.nodup_nil
      (List.forall_mem_nil (· < step.work.references.length))
    rw [begun_entries_entered (by simp [Deed.Begins])]
    simp only [List.map_nil, leading_nil, List.foldl_cons, List.foldl_nil, Trail.record,
      ways_enter, ways_leave, ways_receive, ways_finish, leading_cons] at hle ⊢
    omega
  | @sequence _ step steps hwork =>
    have hlength : step.work.references.length = steps.length := by
      simp [hwork, Work.references]
    have hnext : ∀ n ∈ List.range' 0 steps.length, n < steps.length := by
      simp [List.mem_range'_1]
    have hle := leading_next_le goal trail.here List.nodup_range' hnext
    rw [begun_entries_entered (by simp)]
    simp only [List.foldl_cons, List.foldl_nil, Trail.record, ways_enter, ways_leave, leading_nil,
      ways_sequence, leading_append, Frame.width, hlength, Nat.sub_self, List.headD_cons,
      ways_finish, leading_cons] at hle ⊢
    omega
  | @choose _ step choice target n hwork hto htarget =>
    obtain ⟨r, hr, -⟩ := Option.map_eq_some_iff.1 htarget
    have hn := lt_of_getElem? hr
    have hnext : ∀ k ∈ [n], k < step.work.references.length := by simpa using hn
    have hle := leading_next_le goal trail.here (List.nodup_singleton n) hnext
    have hhere : ([Deed.entered step, .turned n].foldl Trail.record trail).here =
        n :: trail.here := rfl
    have hfollow := leading_follow_le goal run.definition target hhere
    rw [begun_entries_entered (by simp [Deed.Begins])]
    simp only [List.map_cons, List.map_nil, leading_nil, List.foldl_cons, List.foldl_nil,
      Trail.record, ways_enter, ways_finish, leading_cons, List.headD_cons] at hle hfollow ⊢
    omega
  | @next _ step target hnext =>
    obtain ⟨a, rest, hinside, -, -⟩ := hstack.tail_of_finish
    have hhere : ([Deed.finished step .done].foldl Trail.record trail).here =
        step.work.references.length :: a := by simp [Trail.record, hinside]
    have hfollow := leading_follow_le goal run.definition target hhere
    rw [begun_entries_of_none (by simp [Deed.Begins])]
    simp only [List.foldl_cons, List.foldl_nil, Trail.record, ways_leave, hinside, leading_nil,
      List.headD_cons, List.tail_cons, ways_finish, leading_cons] at hfollow ⊢
    omega
  | @finish _ step outcome hdone =>
    obtain ⟨a, rest, hinside, -, -⟩ := hstack.tail_of_finish
    rw [begun_entries_of_none (by simp [Deed.Begins])]
    simp only [List.foldl_cons, List.foldl_nil, Trail.record, ways_leave, hinside, leading_nil,
      List.tail_cons, ways_finish, leading_cons]
    omega
  | @child _ target rest =>
    cases hstack with
    | @sequence step before _ frames _ hwork hstack =>
      have hwidth : step.work.references.length = before.length + (rest.length + 1) := by
        simp [hwork, Work.references]
      have hplace : Frame.place rest (.finish step :: frames) = before.length := by
        simp [Frame.place, hwidth]
      have hhere : ([Deed.turned before.length].foldl Trail.record trail).here =
          before.length :: trail.inside.headD [] := rfl
      have hfollow := leading_follow_le goal run.definition target hhere
      -- the child that comes next is the first of those that are left
      have hrange : List.range' (before.length + (rest.length + 1) - (rest.length + 1))
          (rest.length + 1) = before.length ::
            List.range' (before.length + (rest.length + 1) - rest.length) rest.length := by
        have hnext : before.length + (rest.length + 1) - rest.length = before.length + 1 := by
          omega
        rw [Nat.add_sub_cancel, List.range'_succ, hnext]
      rw [begun_entries_of_none (by simp [Deed.Begins])]
      simp only [List.foldl_cons, List.foldl_nil, Trail.record, ways_leave, ways_sequence,
        leading_nil, leading_append, Frame.width, hplace, hwidth, List.length_cons, hrange,
        List.map_cons, leading_cons] at hfollow ⊢
      omega
  | closed hdone =>
    rw [begun_entries_of_none (by simp)]
    simp only [List.foldl_nil, ways_leave, ways_sequence, leading_append]
    omega
  | answer | panic | joined | broken | take =>
    rw [begun_entries_of_none (by simp [Deed.Begins])]
    simp [Trail.record]

/-! ### What lies ahead of all tasks -/

/-- A change at the same place of two lists. -/
theorem zip_set {α β : Type} {l : List α} {l' : List β} {i : Nat} {a : α} {b : β} :
    (l.set i a).zip (l'.set i b) = (l.zip l').set i (a, b) := by
  induction l generalizing l' i with
  | nil => rfl
  | cons c l ih =>
    cases l' with
    | nil => cases i <;> rfl
    | cons c' l' =>
      cases i with
      | zero => rfl
      | succ i => simp only [List.set_cons_succ, List.zip_cons_cons, ih]

/-- Two summands at different places. -/
theorem add_le_sum_map {α : Type} {l : List α} {f : α → Nat} {i j : Nat} {a b : α}
    (hi : l[i]? = some a) (hj : l[j]? = some b) (hne : i ≠ j) : f a + f b ≤ (l.map f).sum := by
  induction l generalizing i j with
  | nil => cases hi
  | cons c l ih =>
    have hmem : ∀ {k : Nat} {c : α}, l[k]? = some c → f c ≤ (l.map f).sum := fun hk =>
      List.le_sum_of_mem (List.mem_map.2 ⟨_, List.mem_of_getElem? hk, rfl⟩)
    rw [List.map_cons, List.sum_cons]
    cases i with
    | zero =>
      cases j with
      | zero => exact absurd rfl hne
      | succ j =>
        obtain rfl : c = a := Option.some.inj hi
        have := hmem hj
        omega
    | succ i =>
      cases j with
      | zero =>
        obtain rfl : c = b := Option.some.inj hj
        have := hmem hi
        omega
      | succ j =>
        have := ih hi hj fun heq => hne (by rw [heq])
        omega

/-- By how many ways some tasks can still come to an address. -/
def ahead (goal : Address) (tasks : List Task) (trails : List Trail) : Nat :=
  ((tasks.zip trails).map fun p => leading goal (p.1.ways p.2)).sum

section

variable {goal : Address} {tasks : List Task} {trails : List Trail} {id : Nat} {task : Task}

theorem getElem?_zip (htask : tasks[id]? = some task) (htrail : trails[id]? = some trail) :
    (tasks.zip trails)[id]? = some (task, trail) :=
  List.getElem?_zip_eq_some.2 ⟨htask, htrail⟩

/-- The ways of one task are among those of all. -/
theorem leading_le_ahead (goal : Address) (htask : tasks[id]? = some task)
    (htrail : trails[id]? = some trail) :
    leading goal (task.ways trail) ≤ ahead goal tasks trails :=
  List.le_sum_of_mem (List.mem_map.2 ⟨_, List.mem_of_getElem? (getElem?_zip htask htrail), rfl⟩)

theorem exists_of_ahead_pos (h : 0 < ahead goal tasks trails) :
    ∃ (id : Nat) (task : Task) (trail : Trail), tasks[id]? = some task ∧
      trails[id]? = some trail ∧ ∃ v ∈ task.ways trail, v <:+ goal := by
  by_contra hnone
  refine absurd (List.sum_eq_zero fun n hn => ?_) (Nat.ne_of_gt h)
  obtain ⟨⟨task, trail⟩, hmem, rfl⟩ := List.mem_map.1 hn
  obtain ⟨id, hid⟩ := List.mem_iff_getElem?.1 hmem
  obtain ⟨htask, htrail⟩ := List.getElem?_zip_eq_some.1 hid
  by_contra hpos
  exact hnone ⟨id, task, trail, htask, htrail, exists_of_leading_pos (Nat.pos_of_ne_zero hpos)⟩

/-- One task and its trail change. -/
theorem ahead_set (goal : Address) (task' : Task) (trail' : Trail)
    (htask : tasks[id]? = some task) (htrail : trails[id]? = some trail) :
    ahead goal (tasks.set id task') (trails.set id trail') + leading goal (task.ways trail) =
      ahead goal tasks trails + leading goal (task'.ways trail') := by
  rw [ahead, zip_set]
  exact sum_map_set (fun p : Task × Trail => leading goal (p.1.ways p.2)) (task', trail')
    (getElem?_zip htask htrail)

/-- What a task learns about a branch is no way to anywhere. -/
theorem ahead_told {news : Nat × Outcome} {parent : Nat} :
    ahead goal (tasks.modify parent (Task.told news)) trails = ahead goal tasks trails := by
  unfold ahead
  congr 1
  apply List.ext_getElem?
  intro j
  simp only [List.getElem?_map, List.zip, List.getElem?_zipWith, List.getElem?_modify]
  cases tasks[j]? with
  | none => rfl
  | some task =>
    cases trails[j]? with
    | none => rfl
    | some trail =>
      by_cases hj : parent = j
      · simp [hj, Task.ways, Task.told]
      · simp [hj]

/-- New branches have before them the branches of the step that they are started by. -/
theorem ahead_kids (goal : Address) (id run : Nat) (branches : List Step) (a : Address) :
    ahead goal (branches.map fun b => (⟨run, some id, [], .enter b⟩ : Task))
        ((List.range branches.length).map fun n => ({ here := n :: a } : Trail)) =
      leading goal ((List.range branches.length).map (· :: a)) := by
  rw [ahead, leading, List.map_map]
  congr 1
  apply List.ext_getElem
  · simp
  · intro n hn hn'
    simp [Task.ways, Frame.ways]

end

namespace Scene

variable {goal : Address} {x : Scene} {m m' : Machine} {l : Ledger} {input : Store} {id : Nat}
  {task : Task}

/-- **No turn leads to an address in more ways than led to it before.** -/
theorem Placed.ahead_turn (h : Placed d ⟨m, l⟩) (hturn : Turn invoker m id deeds m')
    (goal : Address) :
    begun goal (l.record id deeds).history + ahead goal m'.tasks (l.record id deeds).trails ≤
      begun goal l.history + ahead goal m.tasks l.trails := by
  obtain ⟨trail, htrail, hhistory⟩ := h.history_record hturn
  rw [hhistory, begun_append, Nat.add_assoc]
  refine Nat.add_le_add_left ?_ _
  have hstops : ∀ task outcome, m.tasks[id]? = some task → task.frames = [] →
      task.control = .leave outcome → (∀ deed ∈ deeds, ∀ t : Trail, t.branches deed = []) →
      ahead goal (m.tasks.set id { task with control := .stopped }) (l.record id deeds).trails =
        ahead goal m.tasks l.trails := by
    intro task outcome htask hframes hc hbranches
    rw [Ledger.trails_record (htrail task htask) hbranches]
    have hset := ahead_set goal { task with control := .stopped }
      (deeds.foldl Trail.record trail) htask (htrail task htask)
    simpa [Task.ways, hframes, hc, Frame.ways, Control.ways] using hset
  cases hturn with
  | idle => simp [Trail.entries, Machine.pause]
  | @goes task _ _ frames control _ _ htask hrun hadv =>
    have htrail := htrail task htask
    obtain ⟨-, hstack, -⟩ := h.tasks id task trail htask htrail
    have hle := hadv.leading_le hstack goal id
    have hset := ahead_set goal ⟨task.run, task.parent, frames, control⟩
      (deeds.foldl Trail.record trail) htask htrail
    rw [Ledger.trails_record htrail hadv.branches]
    simp only [Task.ways, leading_append] at hset
    dsimp only
    omega
  | @forks task run step ids branches htask hrun hc hwork hall hne =>
    have htrail := htrail task htask
    have hwidth : branches.length = step.work.references.length := by
      simp [hwork, Work.references, length_resolveAll hall]
    have hnext : ∀ n ∈ List.range branches.length, n < step.work.references.length := by
      simp [hwidth]
    have hle := leading_next_le goal trail.here List.nodup_range hnext
    have hset := ahead_set goal
      ⟨task.run, task.parent, .finish step :: task.frames, .join step branches.length []⟩
      { trail with inside := trail.here :: trail.inside } htask htrail
    rw [Ledger.trails_record_forked htrail, List.length_range', ahead, List.zip_append
      (by simpa using h.trails.symm), List.map_append, List.sum_append]
    have hkids := ahead_kids goal id task.run branches trail.here
    rw [begun_entries_entered (by simp [Deed.Begins])]
    simp only [Task.ways, hc, ways_enter, ways_join, ways_finish, leading_append, leading_cons,
      leading_nil, ahead] at hset hkids ⊢
    omega
  | ends htask hrun hparent hframes hc =>
    rw [begun_entries_of_none (by simp [Deed.Begins]), Nat.zero_add, ahead_told,
      hstops _ _ htask hframes hc (by simp [Trail.branches])]
  | returns htask hrun hparent hframes hc =>
    rw [begun_entries_of_none (by simp [Deed.Begins]), Nat.zero_add,
      hstops _ _ htask hframes hc (by simp [Trail.branches])]

/-- **An address that has been entered, or that a task can come to, is there only once.** -/
theorem Reaches.once (h : Reaches invoker (opening d input) x) (goal : Address) :
    begun goal x.ledger.history + ahead goal x.machine.tasks x.ledger.trails ≤ 1 := by
  refine h.induct ?start ?turn ?same
  case start =>
    simp only [begun_nil, ahead, opening, Machine.launch, List.nil_append,
      List.zip_cons_cons, List.zip_nil_right, List.map_cons, List.map_nil, List.sum_cons,
      List.sum_nil, Task.ways, ways_start, Frame.ways, leading_append, leading_cons, leading_nil]
    split <;> simp
  case turn =>
    intro m m' l id deeds hreach hle hturn
    exact Nat.le_trans (hreach.placed.ahead_turn hturn goal) hle
  case same =>
    intro m m' l htasks hruns hcalls hle
    dsimp only at hle ⊢
    rwa [htasks]

/-- What a task can turn to has not been entered. -/
theorem Reaches.begun_eq_zero (h : Reaches invoker (opening d input) x)
    (htask : x.machine.tasks[id]? = some task) (htrail : x.ledger.trails[id]? = some trail)
    {v : Address} (hv : v ∈ task.ways trail) (hgoal : v <:+ goal) :
    begun goal x.ledger.history = 0 := by
  have honce := h.once goal
  have hle := leading_le_ahead goal htask htrail
  have hpos := leading_pos hv hgoal
  omega

/-- No two tasks can turn to the same. -/
theorem Reaches.eq_of_ways (h : Reaches invoker (opening d input) x) {i j : Nat}
    {task' : Task} {trail' : Trail} (hi : x.machine.tasks[i]? = some task)
    (hi' : x.ledger.trails[i]? = some trail) (hj : x.machine.tasks[j]? = some task')
    (hj' : x.ledger.trails[j]? = some trail') {v v' : Address} (hv : v ∈ task.ways trail)
    (hgoal : v <:+ goal) (hv' : v' ∈ task'.ways trail') (hgoal' : v' <:+ goal) : i = j := by
  by_contra hne
  have honce := h.once goal
  have hle : leading goal (task.ways trail) + leading goal (task'.ways trail') ≤ _ :=
    add_le_sum_map (f := fun p : Task × Trail => leading goal (p.1.ways p.2))
      (getElem?_zip hi hi') (getElem?_zip hj hj') hne
  have hpos := leading_pos hv hgoal
  have hpos' := leading_pos hv' hgoal'
  rw [ahead] at honce
  omega

end Scene

/-! ### What a turn marks -/

/-- Whether a deed begins or ends the execution of a step. -/
def Deed.Marks (deed : Deed) : Bool := deed.Begins || deed.Finishes

/-- What a turn marks: the beginning of a step, the end of one, or nothing. -/
inductive Marking (m : Machine) (id : Nat) : List Deed → Prop
  | enters {task : Task} {step : Step} {more : List Deed} : m.tasks[id]? = some task →
      task.control = .enter step → (∀ deed ∈ more, deed.Marks = false) →
      Marking m id (.entered step :: more)
  | finishes {task : Task} {step : Step} {outcome : Outcome} {frames : List Frame} :
      m.tasks[id]? = some task → task.frames = .finish step :: frames →
      task.control = .leave outcome → Marking m id [.finished step outcome]
  | nothing {deeds : List Deed} : (∀ deed ∈ deeds, deed.Marks = false) → Marking m id deeds

section

variable {m m' : Machine} {l : Ledger} {id : Nat} {a : Address} {deed : Deed} {step : Step}

theorem Turn.marking (h : Turn invoker m id deeds m') : Marking m id deeds := by
  cases h with
  | @goes task _ _ _ _ _ _ htask hrun hadv =>
    generalize hframes : task.frames = before at hadv
    generalize hc : task.control = control at hadv
    cases hadv with
    | unnamed | sequence | missing | branchless | pass | call | choose =>
      exact .enters htask hc (by simp [Deed.Marks, Deed.Begins, Deed.Finishes])
    | next | finish => exact .finishes htask hframes hc
    | _ => exact .nothing (by simp [Deed.Marks, Deed.Begins, Deed.Finishes])
  | forks htask hrun hc =>
    exact .enters htask hc (by simp [Deed.Marks, Deed.Begins, Deed.Finishes])
  | _ => exact .nothing (by simp [Deed.Marks, Deed.Begins, Deed.Finishes])

theorem Deed.begins_of_not_marks (h : deed.Marks = false) : deed.Begins = false :=
  (Bool.or_eq_false_iff.1 h).1

theorem Deed.finishes_of_not_marks (h : deed.Marks = false) : deed.Finishes = false :=
  (Bool.or_eq_false_iff.1 h).2

/-- Deeds that finish nothing leave nothing finished. -/
theorem finished_entries_of_none (h : ∀ deed ∈ deeds, deed.Finishes = false) :
    finished a (trail.entries id deeds) = 0 := by
  refine List.countP_eq_zero.2 fun e he => ?_
  rw [h e.deed (Trail.deed_mem_of_mem_entries he)]
  simp

/-- Only what is marked changes where a task is inside of. -/
theorem inside_of_not_marks (h : ∀ deed ∈ deeds, deed.Marks = false) :
    (deeds.foldl Trail.record trail).inside = trail.inside := by
  induction deeds generalizing trail with
  | nil => rfl
  | cons deed deeds ih =>
    rw [List.foldl_cons, ih fun d hd => h d (List.mem_cons_of_mem _ hd)]
    have hdeed := h deed (List.mem_cons_self ..)
    cases deed with
    | entered step => cases hdeed
    | finished step outcome => cases hdeed
    | _ => rfl

/-- An entry that marks something is the first of its turn. -/
theorem Marking.of_entries (h : Marking m id deeds) {before after : List Entry} {e : Entry}
    (hentries : trail.entries id deeds = before ++ e :: after) (he : e.deed.Marks = true) :
    before = [] ∧ ∃ task, m.tasks[id]? = some task ∧
      ((∃ step, task.control = .enter step ∧ e = ⟨id, trail.here, .entered step⟩) ∨
        ∃ step outcome frames, task.frames = .finish step :: frames ∧
          task.control = .leave outcome ∧
          e = ⟨id, trail.inside.headD [], .finished step outcome⟩) := by
  -- nothing is marked by what comes after the first deed
  have hlater : ∀ (trail : Trail) {more : List Deed}, (∀ deed ∈ more, deed.Marks = false) →
      e ∉ trail.entries id more := by
    intro trail more hmore hmem
    rw [hmore e.deed (Trail.deed_mem_of_mem_entries hmem)] at he
    cases he
  cases h with
  | @enters task step more htask hc hmore =>
    cases before with
    | nil => exact ⟨rfl, task, htask, Or.inl ⟨step, hc, (List.cons.inj hentries).1.symm⟩⟩
    | cons first before =>
      refine absurd ?_ (hlater (trail.record (.entered step)) hmore)
      rw [(List.cons.inj hentries).2]
      simp
  | @finishes task step outcome frames htask hframes hc =>
    cases before with
    | nil =>
      refine ⟨rfl, task, htask, Or.inr ⟨step, outcome, frames, hframes, hc, ?_⟩⟩
      exact (List.cons.inj hentries).1.symm
    | cons first before =>
      have hnil := (List.cons.inj hentries).2
      simp [Trail.entries] at hnil
  | nothing hnone =>
    refine absurd ?_ (hlater trail hnone)
    rw [hentries]
    simp

end

/-! ### Step executions that are under way -/

/-- How often an address is one that a task is inside of. -/
def underway (a : Address) (trails : List Trail) : Nat := (trails.map (·.inside.count a)).sum

section

variable {m m' : Machine} {l : Ledger} {id : Nat} {a : Address}

theorem count_le_underway {trails : List Trail} (htrail : trails[id]? = some trail) :
    trail.inside.count a ≤ underway a trails :=
  List.le_sum_of_mem (List.mem_map.2 ⟨trail, List.mem_of_getElem? htrail, rfl⟩)

theorem underway_pos {trails : List Trail} (htrail : trails[id]? = some trail)
    (ha : a ∈ trail.inside) : 0 < underway a trails :=
  Nat.lt_of_lt_of_le (List.count_pos_iff.2 ha) (count_le_underway htrail)

theorem exists_of_underway_pos {trails : List Trail} (h : 0 < underway a trails) :
    ∃ (id : Nat) (trail : Trail), trails[id]? = some trail ∧ a ∈ trail.inside := by
  by_contra hnone
  refine absurd (List.sum_eq_zero fun n hn => ?_) (Nat.ne_of_gt h)
  obtain ⟨trail, hmem, rfl⟩ := List.mem_map.1 hn
  obtain ⟨id, hid⟩ := List.mem_iff_getElem?.1 hmem
  exact List.count_eq_zero.2 fun ha => hnone ⟨id, trail, hid, ha⟩

theorem Ledger.underway_record (a : Address) (deeds : List Deed)
    (htrail : l.trails[id]? = some trail) :
    underway a (l.record id deeds).trails + trail.inside.count a =
      underway a l.trails + (deeds.foldl Trail.record trail).inside.count a := by
  obtain ⟨kids, htrails, hkids⟩ := exists_trails_record deeds htrail
  have hset := sum_map_set (fun trail : Trail => trail.inside.count a)
    (deeds.foldl Trail.record trail) htrail
  have hnone : (kids.map (·.inside.count a)).sum = 0 := by
    refine List.sum_eq_zero fun n hn => ?_
    obtain ⟨kid, hkid, rfl⟩ := List.mem_map.1 hn
    rw [hkids kid hkid, List.count_nil]
  rw [underway, htrails, List.map_append, List.sum_append, hnone, Nat.add_zero]
  exact hset

/-- An address is entered before it is finished, and both happen once at most. -/
def MarkedOnce (before : List Entry) (e : Entry) : Prop :=
  (∀ step, e.deed = .entered step → begun e.address before = 0) ∧
    ∀ step outcome, e.deed = .finished step outcome →
      begun e.address before = 1 ∧ finished e.address before = 0

namespace Scene

/-- **What has been entered has been finished or is under way**, and stays so in a turn. -/
theorem Placed.balanced_turn (h : Placed d ⟨m, l⟩) (hturn : Turn invoker m id deeds m')
    (hbefore : begun a l.history = finished a l.history + underway a l.trails) :
    begun a (l.record id deeds).history =
      finished a (l.record id deeds).history + underway a (l.record id deeds).trails := by
  obtain ⟨trail, htrail, hhistory⟩ := h.history_record hturn
  rw [hhistory, begun_append, finished_append]
  cases hturn.marking with
  | @enters task step more htask hc hmore =>
    have hrecord := Ledger.underway_record a (.entered step :: more) (htrail task htask)
    rw [List.foldl_cons, inside_of_not_marks hmore, Trail.record, List.count_cons] at hrecord
    rw [begun_entries_entered fun deed hd => Deed.begins_of_not_marks (hmore deed hd),
      finished_entries_of_none fun deed hd => by
        rcases List.mem_cons.1 hd with rfl | hd
        · rfl
        · exact Deed.finishes_of_not_marks (hmore deed hd)]
    simp only [beq_iff_eq] at hrecord
    omega
  | @finishes task step outcome frames htask hframes hc =>
    obtain ⟨-, hstack, -⟩ := h.tasks id task trail htask (htrail task htask)
    rw [hframes] at hstack
    obtain ⟨b, rest, hinside, -, -⟩ := hstack.tail_of_finish
    have hrecord := Ledger.underway_record a [.finished step outcome] (htrail task htask)
    rw [List.foldl_cons, List.foldl_nil, Trail.record, hinside, List.tail_cons,
      List.count_cons] at hrecord
    rw [begun_entries_of_none (by simp [Deed.Begins]), Trail.entries, Trail.entries, finished_cons,
      finished_nil]
    simp only [Deed.Finishes, Trail.address, hinside, List.headD_cons, Bool.true_and, beq_iff_eq]
      at hrecord ⊢
    omega
  | nothing hnone =>
    rw [begun_entries_of_none fun deed hd => Deed.begins_of_not_marks (hnone deed hd),
      finished_entries_of_none fun deed hd => Deed.finishes_of_not_marks (hnone deed hd)]
    rcases hturn.runs_eq with ⟨rfl, -⟩ | ⟨task, -, htask, -, -⟩
    · exact hbefore
    · have hrecord := Ledger.underway_record a deeds (htrail task htask)
      rw [inside_of_not_marks hnone] at hrecord
      omega

variable {x : Scene} {input : Store} {task : Task}

/-- **What has been entered has been finished or is under way.** -/
theorem Reaches.balanced (h : Reaches invoker (opening d input) x) (a : Address) :
    begun a x.ledger.history = finished a x.ledger.history + underway a x.ledger.trails := by
  refine h.induct (by rfl) ?turn ?same
  case turn =>
    intro m m' l id deeds hreach hbefore hturn
    exact hreach.placed.balanced_turn hturn hbefore
  case same =>
    intro m m' l htasks hruns hcalls hbefore
    exact hbefore

/-- What a task is inside of has been entered, once, and has not been finished. -/
theorem Reaches.of_inside (h : Reaches invoker (opening d input) x)
    (htrail : x.ledger.trails[id]? = some trail) (ha : a ∈ trail.inside) :
    begun a x.ledger.history = 1 ∧ finished a x.ledger.history = 0 ∧
      underway a x.ledger.trails = 1 := by
  have honce := h.once a
  have hbalanced := h.balanced a
  have hpos := underway_pos htrail ha
  omega

/-- No two tasks are inside of the same step execution. -/
theorem Reaches.eq_of_inside (h : Reaches invoker (opening d input) x) {i j : Nat}
    {trail' : Trail} (hi : x.ledger.trails[i]? = some trail)
    (hj : x.ledger.trails[j]? = some trail') (ha : a ∈ trail.inside) (ha' : a ∈ trail'.inside) :
    i = j := by
  by_contra hne
  obtain ⟨-, -, hone⟩ := h.of_inside hi ha
  have hle : trail.inside.count a + trail'.inside.count a ≤ underway a x.ledger.trails :=
    add_le_sum_map (f := fun trail : Trail => trail.inside.count a) hi hj hne
  have hpos := List.count_pos_iff.2 ha
  have hpos' := List.count_pos_iff.2 ha'
  omega

/-- **No address is entered twice or finished twice.** -/
theorem Reaches.marked_once (h : Reaches invoker (opening d input) x) :
    Throughout MarkedOnce x.ledger.history := by
  refine h.induct throughout_nil ?turn ?same
  case turn =>
    intro m m' l id deeds hreach honce hturn
    obtain ⟨trail, htrail, hhistory⟩ := hreach.placed.history_record hturn
    rw [hhistory]
    refine honce.append fun before e after hentries => ?_
    constructor
    · intro step hdeed
      obtain ⟨rfl, task, htask, ⟨entered, hc, rfl⟩ | ⟨_, _, _, _, _, rfl⟩⟩ :=
        hturn.marking.of_entries hentries (by rw [hdeed]; rfl)
      · rw [List.append_nil]
        exact hreach.begun_eq_zero htask (htrail task htask)
          (v := trail.here) (by simp [Task.ways, hc]) (List.suffix_refl _)
      · cases hdeed
    · intro step outcome hdeed
      obtain ⟨rfl, task, htask, ⟨entered, hc, rfl⟩ | ⟨_, _, _, hframes, _, rfl⟩⟩ :=
        hturn.marking.of_entries hentries (by rw [hdeed]; rfl)
      · cases hdeed
      · obtain ⟨-, hstack, -⟩ := hreach.placed.tasks id task trail htask (htrail task htask)
        rw [hframes] at hstack
        obtain ⟨a, rest, hinside, -, -⟩ := hstack.tail_of_finish
        obtain ⟨hbegun, hfinished, -⟩ := hreach.of_inside (a := a) (htrail task htask)
          (by simp [hinside])
        rw [List.append_nil, hinside]
        exact ⟨hbegun, hfinished⟩
  case same =>
    intro m m' l htasks hruns hcalls honce
    exact honce

end Scene

end

end Flowgraph.Run

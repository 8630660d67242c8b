import Flowgraph.Proofs.Run.Meaning

/-!
# What tasks still come to

A task that is on its way has a meaning as well: that of what it does next and of what it comes
back to (`Task.change`). A turn of the task takes a part of it away, and what the turn does to the
variables is that part (`Advance.change`). Most turns take nothing away; those that do are the
beginning of an activity or a condition, which settles what is done by the values that it finds,
and the taking of an answer.

The meaning of a task is confined to the variables of the steps that are still to come
(`Task.confined`), and these become fewer (`Advance.upcoming`).
-/

set_option autoImplicit false

namespace Flowgraph.Run

open Machine (follow resolveAll)
open Change

section

variable (d : Definition) (e : Step → Change)

/-- What is left to do in a frame. -/
def Frame.change : Frame → Change
  | .finish step => onward d e step.next
  | .sequence rest => inTurn (rest.map (toward d e))

/-- What a task does next. That of a task that has stopped depends on how it has ended; branches
speak for themselves. -/
def Control.change (result : Option Outcome) : Control → Change
  | .start => toward d e d.root
  | .enter step => e step
  | .leave .done => keep
  | .leave _ => fail
  | .receive step c (.result r) => Completion.change ⟨step, c, r⟩
  | .receive _ _ (.panic _) => fail
  | .join .. => keep
  | .stopped => if result = some .done then keep else fail

/-- What is left to do in the frames of a task, one after the other. -/
def framesChange (frames : List Frame) : Change := inTurn (frames.map (Frame.change d e))

/-- What a task still comes to by itself. -/
def Task.change (result : Option Outcome) (task : Task) : Change :=
  (task.control.change d e result).andThen (framesChange d e task.frames)

end

variable {d : Definition} {e : Step → Change} {f : Invocation → Activity.Result}
  {result : Option Outcome} {frames : List Frame} {step : Step} {target : String}

theorem framesChange_finish : framesChange d e (.finish step :: frames) =
    (onward d e step.next).andThen (framesChange d e frames) := rfl

theorem framesChange_sequence {steps : List String} :
    framesChange d e (.sequence steps :: frames) =
      (inTurn (steps.map (toward d e))).andThen (framesChange d e frames) := rfl

theorem framesChange_child {rest : List String} :
    framesChange d e (.sequence (target :: rest) :: frames) =
      (toward d e target).andThen (framesChange d e (.sequence rest :: frames)) :=
  andThen_assoc

theorem change_follow (target : String) :
    (follow d target).change d e result = toward d e target := by
  unfold follow toward
  cases d.find? target <;> rfl

/-- A task that is about to end other than well comes to nothing. -/
theorem change_leave {outcome : Outcome} (h : outcome ≠ .done) :
    (Control.leave outcome).change d e result = fail := by
  cases outcome with
  | done => exact absurd rfl h
  | _ => rfl

theorem change_told {news : Nat × Outcome} {task : Task} :
    (task.told news).change d e result = task.change d e result := by
  obtain ⟨run, parent, frames, control⟩ := task
  cases control <;> rfl

/-- Branches come to what the references to them come to. -/
theorem toward_branches {ids : List String} {branches : List Step}
    (h : resolveAll d ids = .ok branches) : ids.map (toward d e) = branches.map e := by
  have hmap := congrArg (List.map fun t => Option.elim t keep e) (resolveAll_map h)
  rw [List.map_map, List.map_map] at hmap
  exact hmap

/-! ### What a turn takes away -/

/-- Whether the results of an invoker are those of a function of the call. -/
def Invoker.Answers (invoker : Invoker) (f : Invocation → Activity.Result) : Prop :=
  ∀ earlier call, (invoker earlier call).ending = .result (f call)

/-- Whether a task is where a turn can take away a part of its meaning. -/
def Control.Acts : Control → Prop
  | .enter _ => True
  | .receive .. => True
  | _ => False

/-- What becomes of the meaning of a task in a turn of its own, and of the values. -/
inductive Parts (v v' : Values) (control : Control) (before after : Change) : Prop
  /-- Nothing has changed. -/
  | whole : after = before → v' = v → Parts v v' control before after
  /-- A part has been done, with what it does to the variables. -/
  | part : control.Acts → after v' = before v → Parts v v' control before after
  /-- The task has given up, since a branch has not succeeded. -/
  | broken {step : Step} {missing branch : Nat} {outcome : Outcome} {ended : List (Nat × Outcome)} :
      control = .join step missing ((branch, outcome) :: ended) → outcome ≠ .done → after = fail →
      v' = v → Parts v v' control before after

/-- **A turn of a task does a part of what the task comes to.** -/
theorem Advance.change {invoker : Invoker} {calls : List Invocation} {run : Progress}
    {frames frames' : List Frame} {control control' : Control} {deeds : List Deed} {trail : Trail}
    (h : Advance invoker calls run frames control deeds frames' control') (hsound : d.Sound)
    (hmeans : Means d e f) (hanswers : invoker.Answers f) (hd : run.definition = d)
    (hplaced : control.Placed d trail frames) :
    Parts (Store.values run.store) (Store.values (run.record deeds).store) control
      ((control.change d e result).andThen (framesChange d e frames))
      ((control'.change d e result).andThen (framesChange d e frames')) := by
  subst hd
  have hstep : ∀ step, control = .enter step → step ∈ run.definition.steps ∧
      control.change run.definition e result = (workChange run.definition e f step).andThen
        (onward run.definition e step.next) := by
    rintro step rfl
    have hmem := Definition.at?_mem hplaced.1
    exact ⟨hmem, hmeans step hmem⟩
  cases h with
  | begin hroot =>
    refine .whole ?_ rfl
    have hroot : run.definition.find? run.definition.root = some _ := hroot
    simp only [Control.change, toward, hroot, Option.elim_some]
  | lost hnone =>
    obtain ⟨root, hroot⟩ := hsound.rootStep
    rw [hroot] at hnone
    cases hnone
  | unnamed hwork hblank =>
    rw [hsound.named (hstep _ rfl).1 hwork] at hblank
    cases hblank
  | @call _ step c _ hwork hname hinv =>
    subst hinv
    refine .part trivial ?_
    rw [(hstep _ rfl).2, workChange, hwork, hanswers, framesChange_finish, andThen_assoc]
    rfl
  | sequence hwork =>
    refine .whole ?_ rfl
    rw [(hstep _ rfl).2, workChange, hwork, framesChange_sequence, framesChange_finish,
      andThen_assoc]
    rfl
  | missing hwork hall =>
    obtain ⟨hmem, hnone⟩ := resolveAll_error hall
    obtain ⟨r, hr, rfl⟩ := Step.exists_reference_branches hwork hmem
    obtain ⟨t, ht⟩ := hsound.target (hstep _ rfl).1 hr
    rw [ht] at hnone
    cases hnone
  | branchless hwork hall =>
    refine .whole ?_ rfl
    rw [(hstep _ rfl).2, workChange, hwork]
    dsimp only
    rw [toward_branches hall]
    rfl
  | @choose _ step choice target _ hwork hto =>
    refine .part trivial ?_
    rw [(hstep _ rfl).2, workChange, hwork, change_follow, framesChange_finish, andThen_assoc]
    rw [holds_eq] at hto
    simp only [andThen, hto]
    rfl
  | pass hwork hto =>
    refine .part trivial ?_
    rw [(hstep _ rfl).2, workChange, hwork, framesChange_finish, andThen_assoc]
    rw [holds_eq] at hto
    simp only [andThen, hto]
    rfl
  | next hnext =>
    refine .whole ?_ rfl
    rw [change_follow, framesChange_finish, hnext]
    rfl
  | @finish _ step outcome hdone =>
    refine .whole ?_ rfl
    by_cases ho : outcome = .done
    · subst ho
      rw [framesChange_finish, hdone rfl]
      rfl
    · rw [change_leave ho, fail_andThen, fail_andThen]
  | child =>
    refine .whole ?_ rfl
    rw [change_follow, framesChange_child]
    rfl
  | @closed _ _ outcome hdone =>
    refine .whole ?_ rfl
    by_cases ho : outcome = .done
    · subst ho
      rw [hdone rfl]
      rfl
    · rw [change_leave ho, fail_andThen, fail_andThen]
  | @answer _ step c r =>
    refine .part trivial ?_
    have hvalues : Store.values (run.record [.answered step c r]).store =
        (Completion.mk step c r).update (Store.values run.store) :=
      values_effect_answered step c r run.store
    rw [hvalues]
    by_cases hsuccess : r.success = true
    · have hchange : Completion.change ⟨step, c, r⟩ (Store.values run.store) = some _ :=
        if_pos hsuccess
      rw [if_pos hsuccess]
      simp only [Control.change, andThen, hchange]
      rfl
    · have hchange : Completion.change ⟨step, c, r⟩ (Store.values run.store) = none :=
        if_neg hsuccess
      rw [if_neg hsuccess]
      simp only [Control.change, andThen, hchange]
      rfl
  | panic => exact .whole rfl rfl
  | joined => exact .whole rfl rfl
  | take => exact .whole rfl rfl
  | broken hblame =>
    refine .broken rfl ?_ rfl rfl
    rintro rfl
    cases hblame

/-! ### What a task is still about -/

/-- The steps that a frame leads to next. -/
def Frame.upcoming (d : Definition) : Frame → List Step
  | .finish step => (step.next.bind d.find?).toList
  | .sequence rest => rest.filterMap d.find?

/-- The steps that a control leads to next, or is inside of. -/
def Control.upcoming (d : Definition) : Control → List Step
  | .start => d.rootStep?.toList
  | .enter step => [step]
  | .receive step _ _ => [step]
  | _ => []

/-- The steps that a task has before it; more come after them. -/
def Task.upcoming (d : Definition) (task : Task) : List Step :=
  task.control.upcoming d ++ task.frames.flatMap (Frame.upcoming d)

/-- The variables that a task can still write. -/
def Task.writes (d : Definition) (task : Task) : Set String :=
  {key | ∃ s ∈ task.upcoming d, key ∈ d.writes s}

/-- The variables that a task can still read. -/
def Task.reads (d : Definition) (task : Task) : Set String :=
  {key | ∃ s ∈ task.upcoming d, key ∈ d.reads s}

variable {s t : Step} {task : Task} {reads writes : Set String}

theorem mem_upcoming_finish (h : t ∈ (Frame.finish step).upcoming d) : d.Refers step t := by
  obtain ⟨target, hnext, hfind⟩ := Option.bind_eq_some_iff.1 (Option.mem_toList.1 h)
  exact Definition.refers_of_find? (Step.exists_reference_next hnext) hfind

theorem mem_upcoming_sequence {rest : List String} :
    t ∈ (Frame.sequence rest).upcoming d ↔ ∃ id ∈ rest, d.find? id = some t :=
  List.mem_filterMap

theorem mem_upcoming_follow : t ∈ (follow d target).upcoming d ↔ d.find? target = some t := by
  unfold follow
  cases d.find? target with
  | none => simp [Control.upcoming]
  | some u => simp [Control.upcoming, eq_comm]

/-! ### The meaning of a task is confined -/

theorem Means.confined_toward (hmeans : Means d e f) (hsound : d.Sound)
    (h : ∀ t, d.find? target = some t → d.reads t ⊆ reads ∧ d.writes t ⊆ writes) :
    Confined reads writes (toward d e target) := by
  refine Run.confined_toward fun t ht => ?_
  obtain ⟨hreads, hwrites⟩ := h t ht
  exact (hmeans.confined hsound t (Definition.find?_mem ht)).mono hreads hwrites

theorem Frame.confined (hmeans : Means d e f) (hsound : d.Sound) {frame : Frame}
    (h : ∀ t ∈ frame.upcoming d, d.reads t ⊆ reads ∧ d.writes t ⊆ writes) :
    Confined reads writes (frame.change d e) := by
  cases frame with
  | finish step =>
    show Confined reads writes (onward d e step.next)
    cases hnext : step.next with
    | none => exact .keep
    | some target =>
      refine hmeans.confined_toward hsound fun t ht => h t ?_
      simp [Frame.upcoming, hnext, ht]
  | sequence rest =>
    refine .inTurn fun c hc => ?_
    obtain ⟨id, hid, rfl⟩ := List.mem_map.1 hc
    exact hmeans.confined_toward hsound fun t ht => h t (mem_upcoming_sequence.2 ⟨id, hid, ht⟩)

theorem Control.confined (hmeans : Means d e f) (hsound : d.Sound) {control : Control}
    {trail : Trail} (hplaced : control.Placed d trail frames)
    (h : ∀ t ∈ control.upcoming d, d.reads t ⊆ reads ∧ d.writes t ⊆ writes) :
    Confined reads writes (control.change d e result) := by
  cases control with
  | start =>
    refine hmeans.confined_toward hsound fun t ht => h t ?_
    exact Option.mem_toList.2 ht
  | enter step =>
    obtain ⟨hreads, hwrites⟩ := h step (List.mem_singleton_self step)
    exact (hmeans.confined hsound step (Definition.at?_mem hplaced.1)).mono hreads hwrites
  | leave outcome => cases outcome with
    | done => exact .keep
    | _ => exact .fail
  | receive step c ending =>
    obtain ⟨hreads, hwrites⟩ := h step (List.mem_singleton_self step)
    cases ending with
    | panic payload => exact .fail
    | result r =>
      have hcompletion := @confined_completion ⟨step, c, r⟩ hplaced.2
      exact hcompletion.mono (Set.empty_subset _)
        (Definition.keys_subset_writes.trans hwrites)
  | join => exact .keep
  | stopped =>
    show Confined reads writes (if result = some .done then keep else Change.fail)
    split
    · exact .keep
    · exact .fail

/-- **The meaning of a task is confined** to what the steps before it read and write. -/
theorem Task.confined (hmeans : Means d e f) (hsound : d.Sound) {trail : Trail}
    (hplaced : task.control.Placed d trail task.frames) :
    Confined (task.reads d) (task.writes d) (task.change d e result) := by
  have hall : ∀ t ∈ task.upcoming d, d.reads t ⊆ task.reads d ∧ d.writes t ⊆ task.writes d :=
    fun t ht => ⟨fun key hkey => ⟨t, ht, hkey⟩, fun key hkey => ⟨t, ht, hkey⟩⟩
  refine (Control.confined hmeans hsound hplaced fun t ht =>
    hall t (List.mem_append_left _ ht)).andThen (.inTurn fun c hc => ?_)
  obtain ⟨frame, hframe, rfl⟩ := List.mem_map.1 hc
  exact Frame.confined hmeans hsound fun t ht =>
    hall t (List.mem_append_right _ (List.mem_flatMap.2 ⟨frame, hframe, ht⟩))

/-- **A task leads to nothing new**: whatever it has before it after a turn, it had before it, or
something that leads there. -/
theorem Advance.upcoming {invoker : Invoker} {calls : List Invocation} {run : Progress}
    {frames frames' : List Frame} {control control' : Control} {deeds : List Deed}
    (h : Advance invoker calls run frames control deeds frames' control')
    (hd : run.definition = d) :
    ∀ t ∈ control'.upcoming d ++ frames'.flatMap (Frame.upcoming d),
      ∃ s ∈ control.upcoming d ++ frames.flatMap (Frame.upcoming d), d.Leads s t := by
  subst hd
  have hkept : ∀ t ∈ control.upcoming run.definition ++
      frames.flatMap (Frame.upcoming run.definition),
      ∃ s ∈ control.upcoming run.definition ++ frames.flatMap (Frame.upcoming run.definition),
        run.definition.Leads s t := fun t ht => ⟨t, ht, .refl⟩
  -- what a step that is entered leads to
  have hentered : ∀ step, control = .enter step → ∀ t, run.definition.Refers step t →
      ∃ s ∈ control.upcoming run.definition ++ frames.flatMap (Frame.upcoming run.definition),
        run.definition.Leads s t := by
    rintro step rfl t ht
    exact ⟨step, List.mem_append_left _ (List.mem_singleton_self step), .single ht⟩
  intro t ht
  cases h with
  | begin hroot =>
    apply hkept
    simpa only [Control.upcoming, hroot, Option.toList_some] using ht
  | lost hroot => exact hkept t (List.mem_append_right _ ht)
  | unnamed | missing | branchless | pass =>
    simp only [Control.upcoming, List.nil_append, List.flatMap_cons, List.mem_append] at ht
    rcases ht with ht | ht
    · exact hentered _ rfl t (mem_upcoming_finish ht)
    · exact hkept t (List.mem_append_right _ ht)
  | call =>
    simp only [Control.upcoming, List.flatMap_cons, List.mem_append] at ht
    rcases ht with ht | ht | ht
    · exact hkept t (List.mem_append_left _ ht)
    · exact hentered _ rfl t (mem_upcoming_finish ht)
    · exact hkept t (List.mem_append_right _ ht)
  | sequence hwork =>
    simp only [Control.upcoming, List.nil_append, List.flatMap_cons, List.mem_append,
      mem_upcoming_sequence] at ht
    rcases ht with ⟨id, hid, ht⟩ | ht | ht
    · have hreference := Step.exists_reference_steps hwork hid
      exact hentered _ rfl t (Definition.refers_of_find? hreference ht)
    · exact hentered _ rfl t (mem_upcoming_finish ht)
    · exact hkept t (List.mem_append_right _ ht)
  | choose hwork hto =>
    simp only [mem_upcoming_follow, List.flatMap_cons, List.mem_append] at ht
    rcases ht with ht | ht | ht
    · have hreference := Step.exists_reference_choice hwork hto
      exact hentered _ rfl t (Definition.refers_of_find? hreference ht)
    · exact hentered _ rfl t (mem_upcoming_finish ht)
    · exact hkept t (List.mem_append_right _ ht)
  | next hnext =>
    apply hkept
    simp only [mem_upcoming_follow, List.flatMap_cons, List.mem_append, Frame.upcoming,
      hnext, Option.bind_some, Option.mem_toList] at ht ⊢
    exact Or.inr ht
  | finish | closed =>
    apply hkept
    simp only [Control.upcoming, List.nil_append, List.flatMap_cons, List.mem_append] at ht ⊢
    exact Or.inr ht
  | child =>
    apply hkept
    simp only [mem_upcoming_follow, List.flatMap_cons, List.mem_append, mem_upcoming_sequence,
      List.exists_mem_cons_iff] at ht ⊢
    rcases ht with ht | ht | ht
    · exact Or.inr (Or.inl (Or.inl ht))
    · exact Or.inr (Or.inl (Or.inr ht))
    · exact Or.inr (Or.inr ht)
  | answer => exact hkept t (List.mem_append_right _ ht)
  | panic => exact hkept t (List.mem_append_right _ ht)
  | joined | take | broken => exact hkept t ht

end Flowgraph.Run

import Flowgraph.Proofs.Run.Dispatch

/-!
# The task of a branch

A step execution lies in a branch if the chain of references that leads to it goes through a
reference to a branch. The last such reference of the chain is the *innermost branch* around the
execution (`Definition.branch?`). What lies in no branch is done by the first task of a run, and
all else by the task that was started for the innermost branch around it (`Reaches.homes`).
-/

set_option autoImplicit false

namespace Flowgraph

namespace Definition

open Run (Address)

variable {d : Definition} {a : Address} {n : Nat} {step : Step}

/-- Whether a reference of a step execution, by its number, leads to a branch. -/
def forksAt (d : Definition) (a : Address) (n : Nat) : Bool :=
  match (d.at? a).map Step.work with
  | some (.parallel ids) => n < ids.length
  | _ => false

/-- Where the innermost branch begins that a step execution lies in, if it lies in one. -/
def branch? (d : Definition) : Address → Option Address
  | [] => none
  | n :: a => if d.forksAt a n then some (n :: a) else d.branch? a

theorem forksAt_parallel {ids : List String} (h : d.at? a = some step)
    (hwork : step.work = .parallel ids) (hn : n < ids.length) : d.forksAt a n = true := by
  simp [forksAt, h, hwork, hn]

theorem forksAt_of_ne (h : d.at? a = some step) (hwork : ∀ ids, step.work ≠ .parallel ids) :
    d.forksAt a n = false := by
  unfold forksAt
  rw [h, Option.map_some]
  cases hkind : step.work with
  | parallel ids => exact absurd hkind (hwork ids)
  | _ => rfl

/-- The next step of a step with branches is not one of the branches. -/
theorem forksAt_next (h : d.at? a = some step) :
    d.forksAt a step.work.references.length = false := by
  unfold forksAt
  rw [h, Option.map_some]
  cases hkind : step.work with
  | parallel ids => simp [Work.references]
  | _ => rfl

/-- **A step execution lies in no branch if none of the references that lead to it is one to a
branch.** -/
theorem branch?_eq_none_iff :
    d.branch? a = none ↔ ∀ n b, n :: b <:+ a → d.forksAt b n = false := by
  induction a with
  | nil => simp [branch?]
  | cons k a ih =>
    unfold branch?
    by_cases hforks : d.forksAt a k = true
    · rw [if_pos hforks]
      refine iff_of_false (by simp) fun hnone => ?_
      have hfalse := hnone k a (List.suffix_refl _)
      rw [hforks] at hfalse
      cases hfalse
    · rw [if_neg hforks, ih]
      constructor
      · intro hnone n b hsuffix
        rcases List.suffix_cons_iff.1 hsuffix with heq | hsuffix
        · obtain ⟨rfl, rfl⟩ := List.cons.inj heq
          exact Bool.eq_false_iff.2 hforks
        · exact hnone n b hsuffix
      · exact fun hnone n b hsuffix => hnone n b (hsuffix.trans (List.suffix_cons k a))

end Definition

namespace Run

open Machine (follow resolveAll)

variable {invoker : Invoker} {d : Definition} {input : Store} {x : Scene} {m m' : Machine}
  {l : Ledger} {id j : Nat} {deeds : List Deed} {task : Task} {trail trail' : Trail}
  {history new : List Entry} {a c : Address} {calls : List Invocation} {run : Progress}
  {frames frames' : List Frame} {control control' : Control}

/-- Whether a task is the one for the innermost branch around a step execution, or the first one
if there is no branch around it. -/
def Homes (d : Definition) (history : List Entry) (id : Nat) (a : Address) : Prop :=
  (id = 0 ∧ d.branch? a = none) ∨
    ∃ p b step kids n, (⟨p, b, .forked step kids⟩ : Entry) ∈ history ∧ kids[n]? = some id ∧
      d.branch? a = some (n :: b)

theorem Homes.append (h : Homes d history id a) : Homes d (history ++ new) id a :=
  h.imp_right fun ⟨p, b, step, kids, n, hmem, hkid, hbranch⟩ =>
    ⟨p, b, step, kids, n, List.mem_append_left _ hmem, hkid, hbranch⟩

/-- What is reached by a reference that does not lead to a branch lies in the same branch. -/
theorem Homes.cons {n : Nat} (h : Homes d history id a) (hnot : d.forksAt a n = false) :
    Homes d history id (n :: a) := by
  unfold Homes Definition.branch?
  rw [hnot]
  exact h

/-- The task that is started for a branch is the one of that branch. -/
theorem Homes.of_forked {p n : Nat} {step : Step} {kids : List Nat}
    (hmem : (⟨p, a, .forked step kids⟩ : Entry) ∈ history)
    (hlocated : (Deed.forked step kids).Located d a) (hkid : kids[n]? = some id) :
    Homes d history id (n :: a) := by
  obtain ⟨hat, ids, branches, hwork, hall, hlength⟩ := hlocated
  have hn : n < ids.length := by
    rw [← length_resolveAll hall, ← hlength]
    exact lt_of_getElem? hkid
  have hforks := Definition.forksAt_parallel hat hwork hn
  exact Or.inr ⟨p, a, step, kids, n, hmem, hkid, by simp [Definition.branch?, hforks]⟩

/-- Whether a deed is part of the execution of a step. -/
def Deed.OfStep : Deed → Bool
  | .begun _ | .ended _ | .returned _ => false
  | _ => true

theorem Advance.done_at (h : Advance invoker calls run frames control deeds frames' control')
    (hstack : Stack d frames trail.inside) (hcontrol : control.Placed d trail frames)
    {e : Entry} (he : e ∈ trail.entries id deeds) (hof : e.deed.OfStep = true) :
    (∃ step more, control = .enter step ∧ deeds = .entered step :: more ∧
      e.address = trail.here) ∨ e.address ∈ trail.inside := by
  have hinside : ∀ {step rest}, Stack d (.finish step :: rest) trail.inside →
      trail.inside.headD [] ∈ trail.inside := by
    intro step rest hstack
    obtain ⟨b, outside, hinside, -, -⟩ := hstack.tail_of_finish
    simp [hinside]
  cases h with
  | unnamed | sequence | missing | branchless | pass =>
    rw [List.mem_singleton.1 he]
    exact Or.inl ⟨_, _, rfl, rfl, rfl⟩
  | call | choose =>
    refine Or.inl ⟨_, _, rfl, rfl, ?_⟩
    rcases List.mem_cons.1 he with rfl | he
    · rfl
    · rw [List.mem_singleton.1 he]
      rfl
  | next | finish =>
    rw [List.mem_singleton.1 he]
    exact Or.inr (hinside hstack)
  | child =>
    rw [List.mem_singleton.1 he]
    cases hstack with
    | sequence hwork hstack => exact Or.inr (hinside hstack)
  | answer =>
    rw [List.mem_singleton.1 he]
    obtain ⟨⟨rest, rfl⟩, -⟩ := hcontrol
    exact Or.inr (hinside hstack)
  | begin | lost =>
    rw [List.mem_singleton.1 he] at hof
    cases hof
  | _ => cases he

/-- **What is part of the execution of a step** is done by a task that enters the step in this turn
or is inside of it. -/
theorem Scene.Placed.done_at (h : Scene.Placed d ⟨m, l⟩) (hturn : Turn invoker m id deeds m')
    (hid : ∀ task, m.tasks[id]? = some task → l.trails[id]? = some trail)
    {e : Entry} (he : e ∈ trail.entries id deeds) (hof : e.deed.OfStep = true) :
    ∃ task, m.tasks[id]? = some task ∧
      ((∃ step more, task.control = .enter step ∧ deeds = .entered step :: more ∧
        e.address = trail.here) ∨ e.address ∈ trail.inside) := by
  cases hturn with
  | idle => cases he
  | goes htask hrun hadv =>
    obtain ⟨-, hstack, hcontrol⟩ := h.tasks _ _ trail htask (hid _ htask)
    exact ⟨_, htask, hadv.done_at hstack hcontrol he hof⟩
  | forks htask hrun hc =>
    refine ⟨_, htask, Or.inl ⟨_, _, hc, rfl, ?_⟩⟩
    rcases List.mem_cons.1 he with rfl | he
    · rfl
    · rw [List.mem_singleton.1 he]
      rfl
  | ends | returns =>
    rw [List.mem_singleton.1 he] at hof
    cases hof

/-- A task does not turn to a branch by itself. -/
theorem Advance.turns (h : Advance invoker calls run frames control deeds frames' control')
    (hstack : Stack d frames trail.inside) (hcontrol : control.Placed d trail frames)
    (hc : c ∈ control'.ways (deeds.foldl Trail.record trail)) :
    c ∈ control.ways trail ∨ ∃ n b, c = n :: b ∧ d.forksAt b n = false ∧
      (b ∈ trail.inside ∨ b ∈ control.ways trail) := by
  cases h with
  | begin => exact Or.inl hc
  | @choose _ step choice target n hwork hto htarget =>
    refine Or.inr ⟨n, trail.here, mem_ways_follow hc, ?_, Or.inr (List.mem_singleton_self _)⟩
    exact Definition.forksAt_of_ne hcontrol.1 fun ids hids => by
      rw [hwork] at hids
      cases hids
  | @next _ step target hnext =>
    obtain ⟨a, rest, hinside, ha, -⟩ := hstack.tail_of_finish
    have hhere := mem_ways_follow hc
    simp only [List.foldl_cons, List.foldl_nil, Trail.record, hinside, List.headD_cons] at hhere
    exact Or.inr ⟨_, a, hhere, Definition.forksAt_next ha, Or.inl (by simp [hinside])⟩
  | @child _ target rest =>
    cases hstack with
    | @sequence step before _ frames _ hwork hstack =>
      obtain ⟨a, outside, hinside, ha, -⟩ := hstack.tail_of_finish
      have hhere := mem_ways_follow hc
      simp only [List.foldl_cons, List.foldl_nil, Trail.record, hinside, List.headD_cons] at hhere
      refine Or.inr ⟨_, a, hhere, ?_, Or.inl (by simp [hinside])⟩
      exact Definition.forksAt_of_ne ha fun ids hids => by
        rw [hwork] at hids
        cases hids
  | _ => cases hc

namespace Scene

/-- **Each task works in a branch of its own**: wherever it is or is about to be, it is the task for
the innermost branch there. -/
theorem Reaches.homes_of_at (h : Reaches invoker (opening d input) x)
    (htask : x.machine.tasks[id]? = some task) (htrail : x.ledger.trails[id]? = some trail)
    (hat : task.At trail a) : Homes d x.ledger.history id a := by
  suffices hall : ∀ id task trail a, x.machine.tasks[id]? = some task →
      x.ledger.trails[id]? = some trail → task.At trail a → Homes d x.ledger.history id a from
    hall id task trail a htask htrail hat
  refine h.induct ?start ?turn ?same
  case start =>
    intro id task trail a htask htrail hat
    obtain ⟨rfl, rfl⟩ := task_of_opening htask
    obtain rfl : trail = {} := (Option.some.inj htrail).symm
    obtain rfl : a = [] := by simpa [Task.At, Control.ways] using hat
    exact Or.inl ⟨rfl, rfl⟩
  case turn =>
    intro m m' l id deeds hreach ih hturn j task trail' a htask htrail hat
    have hplaced := hreach.placed
    dsimp only at ih htask htrail ⊢
    obtain ⟨trail, hid, hhistory⟩ := hplaced.history_record hturn
    rw [hhistory]
    rcases hat with hinside | hways
    · -- what the task is inside of, it was inside of before or about to enter
      rcases hplaced.inside_cases hturn htrail hinside with
        ⟨before, hbefore, ha⟩ | ⟨old, before, step, rfl, hold, hbefore, hc, rfl⟩
      · obtain ⟨old, hold⟩ := getElem?_of_lt (l := m.tasks) (i := j)
          (hplaced.trails ▸ lt_of_getElem? hbefore)
        exact (ih j old before a hold hbefore (Or.inl ha)).append
      · exact (ih j old before _ hold hbefore (Or.inr (by simp [hc]))).append
    · by_cases hne : j = id
      · subst hne
        cases hturn.own htask with
        | idle hold => exact (ih j _ _ a hold htrail (Or.inr hways)).append
        | goes hold hrun hadv =>
          rw [Ledger.trails_record_self (hid _ hold)] at htrail
          cases htrail
          obtain ⟨-, hstack, hcontrol⟩ := hplaced.tasks j _ trail hold (hid _ hold)
          rcases hadv.turns hstack hcontrol hways with hbefore | ⟨n, b, rfl, hnot, hb⟩
          · exact (ih j _ trail a hold (hid _ hold) (Or.inr hbefore)).append
          · exact ((ih j _ trail b hold (hid _ hold) hb).append).cons hnot
        | forks => cases hways
        | stops => cases hways
      · cases hturn.fate hne htask with
        | kept hold =>
          rw [hplaced.trails_other hne hold] at htrail
          exact (ih j _ _ a hold htrail (Or.inr hways)).append
        | told hold =>
          rw [hplaced.trails_other hne hold] at htrail
          exact (ih j _ _ a hold htrail (Or.inr (ways_told ▸ hways))).append
        | @born old step b branches k hold hc hdeeds hb hjk =>
          subst hdeeds
          rw [hjk, ← hplaced.trails] at htrail
          obtain rfl := Ledger.trail_of_kid (hid _ hold) htrail
          obtain rfl : a = k :: trail.here := List.mem_singleton.1 hways
          have hmem : (⟨id, trail.here, .forked step
              (List.range' m.tasks.length branches.length)⟩ : Entry) ∈ l.history ++
                trail.entries id
                  [.entered step, .forked step (List.range' m.tasks.length branches.length)] := by
            simp [Trail.entries, Trail.address, Trail.record]
          have hlocated := ((hplaced.turn hturn).entries _ (by rw [hhistory]; exact hmem)).2
          refine Homes.of_forked hmem hlocated ?_
          rw [hjk]
          simp [lt_of_getElem? hb]
  case same =>
    intro m m' l htasks hruns hcalls ih
    dsimp only at ih ⊢
    rwa [htasks]

/-- **What is part of the execution of a step** is done by the task for the innermost branch around
it, or by the first task if there is no branch around it. -/
theorem Reaches.homes (h : Reaches invoker (opening d input) x) :
    ∀ e ∈ x.ledger.history, e.deed.OfStep = true → Homes d x.ledger.history e.task e.address := by
  refine h.induct (List.forall_mem_nil _) ?turn ?same
  case turn =>
    intro m m' l id deeds hreach ih hturn e he hof
    obtain ⟨trail, hid, hhistory⟩ := hreach.placed.history_record hturn
    dsimp only at ih he ⊢
    rw [hhistory] at he ⊢
    rcases List.mem_append.1 he with he | he
    · exact (ih e he hof).append
    · rw [Trail.task_of_mem_entries he]
      obtain ⟨task, htask, hat⟩ := hreach.placed.done_at hturn hid he hof
      refine (hreach.homes_of_at htask (hid task htask) ?_).append
      rcases hat with ⟨step, more, hc, -, haddress⟩ | hinside
      · rw [haddress, Task.At, hc]
        exact Or.inr (List.mem_singleton_self _)
      · exact Or.inl hinside
  case same =>
    intro m m' l htasks hruns hcalls ih
    exact ih

end Scene

end Run

end Flowgraph

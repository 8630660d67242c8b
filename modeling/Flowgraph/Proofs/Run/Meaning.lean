import Flowgraph.Proofs.Run.Change
import Mathlib.Data.Set.Lattice

/-!
# What steps come to

If the results of activities depend on nothing but the calls, then each step of a sound definition
has a meaning of its own, the change of the variables that it comes to together with everything
after it (`Means`, `exists_meaning`). The branches of a step are taken here one
after the other, in some order; that this is what a run does, in whatever order it interleaves
them, is not said here.

The variables that such a change can read and write show in the definition: they are those of the
activities and conditions that the references lead to (`Definition.reads`, `Definition.writes`). The
meaning of a step is confined to them (`Means.confined`).
-/

set_option autoImplicit false

namespace Flowgraph

open Run Run.Change

/-! ### Variables of steps -/

/-- The variables that a step writes itself: the results of an activity go to its id, and the data
to its result variable. -/
def Step.keys (s : Step) : Set String :=
  match s.work with
  | .activity c => {key | key = s.id ∨ c.resultVariable = some key}
  | _ => ∅

/-- The variables that a step reads itself, as arguments of an activity or by a condition. -/
def Step.looks (s : Step) : Set String :=
  match s.work with
  | .activity c => {key | ∃ argument ∈ c.arguments, Variable.reference? argument.2 = some key}
  | .condition choice => {key | Condition.operand? choice.arguments "variable" = some key}
  | _ => ∅

namespace Step

variable {s : Step} {key : String}

theorem mem_keys {c : Call} (hwork : s.work = .activity c) :
    key ∈ s.keys ↔ key = s.id ∨ c.resultVariable = some key := by
  unfold keys
  rw [hwork]
  exact Iff.rfl

theorem mem_looks_activity {c : Call} (hwork : s.work = .activity c) :
    key ∈ s.looks ↔ ∃ argument ∈ c.arguments, Variable.reference? argument.2 = some key := by
  unfold looks
  rw [hwork]
  exact Iff.rfl

theorem mem_looks_condition {choice : Choice} (hwork : s.work = .condition choice) :
    key ∈ s.looks ↔ Condition.operand? choice.arguments "variable" = some key := by
  unfold looks
  rw [hwork]
  exact Iff.rfl

end Step

namespace Definition

variable {d : Definition} {s t : Step}

/-- Whether references lead from one step to another one, in any number of steps. -/
def Leads (d : Definition) : Step → Step → Prop := Relation.ReflTransGen d.Refers

/-- The variables that are written by the steps that a step leads to. -/
def writes (d : Definition) (s : Step) : Set String := {key | ∃ t, d.Leads s t ∧ key ∈ t.keys}

/-- The variables that are read by the steps that a step leads to. -/
def reads (d : Definition) (s : Step) : Set String := {key | ∃ t, d.Leads s t ∧ key ∈ t.looks}

/-- Whether what a branch writes is neither written nor read by another branch of the same step. -/
def Separate (d : Definition) : Prop :=
  ∀ s ∈ d.steps, ∀ branches, s.work = .parallel branches → ∀ (i j : Nat) (a b : Step), i ≠ j →
    branches[i]?.bind d.find? = some a → branches[j]?.bind d.find? = some b →
      ∀ key ∈ d.writes a, key ∉ d.writes b ∧ key ∉ d.reads b

theorem keys_subset_writes : s.keys ⊆ d.writes s := fun _ hkey => ⟨s, .refl, hkey⟩

theorem looks_subset_reads : s.looks ⊆ d.reads s := fun _ hkey => ⟨s, .refl, hkey⟩

theorem Leads.writes_subset (h : d.Leads s t) : d.writes t ⊆ d.writes s :=
  fun _ ⟨u, hu, hkey⟩ => ⟨u, h.trans hu, hkey⟩

theorem Leads.reads_subset (h : d.Leads s t) : d.reads t ⊆ d.reads s :=
  fun _ ⟨u, hu, hkey⟩ => ⟨u, h.trans hu, hkey⟩

/-- A step without references leads to itself alone. -/
theorem Leads.eq_of_nil (h : d.Leads s t) (hnone : s.references = []) : t = s := by
  rcases Relation.ReflTransGen.cases_head h with heq | ⟨u, ⟨r, hr, -⟩, -⟩
  · exact heq.symm
  · rw [hnone] at hr
    cases hr

theorem writes_of_nil (hnone : s.references = []) : d.writes s = s.keys := by
  refine Set.Subset.antisymm ?_ keys_subset_writes
  rintro key ⟨t, hleads, hkey⟩
  rwa [hleads.eq_of_nil hnone] at hkey

theorem reads_of_nil (hnone : s.references = []) : d.reads s = s.looks := by
  refine Set.Subset.antisymm ?_ looks_subset_reads
  rintro key ⟨t, hleads, hkey⟩
  rwa [hleads.eq_of_nil hnone] at hkey

end Definition

namespace Run

/-! ### Arguments and conditions by values -/

/-- The arguments with the values that they stand for. -/
def resolveIn (arguments : Arguments) (v : Values) : Store :=
  arguments.foldl (fun resolved (name, argument) =>
    match (match Variable.reference? argument with
      | some key => v key
      | none => some argument) with
    | some value => Assoc.insert name value resolved
    | none => resolved) []

/-- Whether a condition holds for some values. -/
def holdsIn (arguments : Arguments) (v : Values) : Bool :=
  match Condition.operand? arguments "variable",
    (Condition.operand? arguments "operator").bind Condition.Operator.ofName? with
  | some subject, some operator =>
    Condition.compare operator (v subject) (Assoc.get? "value" arguments)
  | _, _ => false

theorem holds_eq (arguments : Arguments) (store : Store) :
    Condition.holds arguments store = holdsIn arguments (Store.values store) := rfl

/-- Arguments depend on the variables that they refer to. -/
theorem resolveIn_congr {arguments : Arguments} {v u : Values}
    (h : ∀ argument ∈ arguments, ∀ key, Variable.reference? argument.2 = some key →
      v key = u key) : resolveIn arguments v = resolveIn arguments u := by
  unfold resolveIn
  apply List.foldl_ext
  rintro resolved ⟨name, argument⟩ hmem
  dsimp only
  cases hkey : Variable.reference? argument with
  | none => rfl
  | some key =>
    have hsame := h (name, argument) hmem key hkey
    simp only [hsame]

/-- A condition depends on the variable that it is about. -/
theorem holdsIn_congr {arguments : Arguments} {v u : Values}
    (h : ∀ key, Condition.operand? arguments "variable" = some key → v key = u key) :
    holdsIn arguments v = holdsIn arguments u := by
  unfold holdsIn
  cases hkey : Condition.operand? arguments "variable" with
  | none => rfl
  | some key =>
    cases (Condition.operand? arguments "operator").bind Condition.Operator.ofName? with
    | none => rfl
    | some operator =>
      dsimp only
      rw [h key hkey]

/-! ### The meaning of steps -/

/-- What the end of an activity comes to. -/
def Completion.change (c : Completion) : Change := fun v =>
  if c.result.success then some (c.update v) else none

/-- What an activity comes to, if its result depends on the call alone. -/
def callChange (f : Invocation → Activity.Result) (s : Step) (c : Call) : Change := fun v =>
  Completion.change ⟨s, c, f ⟨c.activity, resolveIn c.arguments v⟩⟩ v

section

variable (d : Definition) (e : Step → Change)

/-- What a reference comes to; one that does not resolve is passed over. -/
def toward (target : String) : Change := (d.find? target).elim keep e

/-- What a reference comes to that may be missing. -/
def onward (target : Option String) : Change := target.elim keep (toward d e)

variable (f : Invocation → Activity.Result)

/-- What the work of a step comes to. -/
def workChange (s : Step) : Change :=
  match s.work with
  | .activity c => callChange f s c
  | .sequence steps => inTurn (steps.map (toward d e))
  | .parallel branches => settle (branches.map (toward d e))
  | .condition choice => fun v =>
    onward d e (if holdsIn choice.arguments v then choice.onSuccess else choice.onFailure) v

/-- Whether each step means its work and then its next step. -/
def Means : Prop := ∀ s ∈ d.steps, e s = (workChange d e f s).andThen (onward d e s.next)

end

variable {d : Definition} {e e' : Step → Change} {f : Invocation → Activity.Result} {s : Step}
  {reads writes : Set String}

theorem toward_congr {target : String} (h : ∀ t, d.find? target = some t → e t = e' t) :
    toward d e target = toward d e' target := by
  unfold toward
  cases ht : d.find? target with
  | none => rfl
  | some t => exact h t ht

theorem onward_congr {target : Option String}
    (h : ∀ id t, target = some id → d.find? id = some t → e t = e' t) :
    onward d e target = onward d e' target := by
  cases target with
  | none => rfl
  | some id => exact toward_congr (h id · rfl)

/-- What the work of a step comes to depends on the steps that it refers to. -/
theorem workChange_congr (h : ∀ t, d.Refers s t → e t = e' t) :
    workChange d e f s = workChange d e' f s := by
  unfold workChange
  cases hwork : s.work with
  | activity c => rfl
  | sequence steps =>
    dsimp only
    congr 1
    exact List.map_congr_left fun id hid => toward_congr fun t ht =>
      h t (Definition.refers_of_find? (Step.exists_reference_steps hwork hid) ht)
  | parallel branches =>
    dsimp only
    congr 1
    exact List.map_congr_left fun id hid => toward_congr fun t ht =>
      h t (Definition.refers_of_find? (Step.exists_reference_branches hwork hid) ht)
  | condition choice =>
    funext v
    dsimp only
    rw [onward_congr fun id t hid ht =>
      h t (Definition.refers_of_find? (Step.exists_reference_choice hwork hid) ht)]

/-- **Every step of a sound definition has a meaning.** -/
theorem exists_meaning (h : d.Sound)
    (f : Invocation → Activity.Result) : ∃ e, Means d e f := by
  apply h.exists_values
  intro s _ e e' hsame
  dsimp only
  rw [workChange_congr hsame, onward_congr fun id t hid ht =>
    hsame t (Definition.refers_of_find? (Step.exists_reference_next hid) ht)]

/-! ### Meanings are confined -/

/-- A completion writes its variables, whatever they are before, or leaves them alone. -/
theorem update_alike (c : Completion) (v u : Values) (key : String) :
    c.update v key = c.update u key ∨ (c.update v key = v key ∧ c.update u key = u key) := by
  unfold Completion.update
  by_cases hid : key = c.step.id
  · subst hid
    exact Or.inl (by rw [Function.update_self, Function.update_self])
  · rw [Function.update_of_ne hid, Function.update_of_ne hid]
    cases c.call.resultVariable with
    | none => exact Or.inr ⟨rfl, rfl⟩
    | some name =>
      dsimp only
      by_cases hsuccess : c.result.success = true
      · rw [if_pos hsuccess, if_pos hsuccess]
        by_cases hname : key = name
        · subst hname
          exact Or.inl (by rw [Function.update_self, Function.update_self])
        · exact Or.inr ⟨Function.update_of_ne hname .., Function.update_of_ne hname ..⟩
      · rw [if_neg hsuccess, if_neg hsuccess]
        exact Or.inr ⟨rfl, rfl⟩

/-- A completion writes the id of its step and the result variable. -/
theorem update_of_notMem {c : Completion} (v : Values) {key : String} (hid : key ≠ c.step.id)
    (hvariable : c.call.resultVariable ≠ some key) : c.update v key = v key := by
  unfold Completion.update
  rw [Function.update_of_ne hid]
  cases hname : c.call.resultVariable with
  | none => rfl
  | some name =>
    have hne : key ≠ name := fun heq => hvariable (by rw [hname, heq])
    dsimp only
    split
    · exact Function.update_of_ne hne ..
    · rfl

theorem confined_completion {c : Completion} (hwork : c.step.work = .activity c.call) :
    Confined ∅ c.step.keys c.change where
  frame v v' hv key hkey := by
    rw [Step.mem_keys hwork, not_or] at hkey
    unfold Completion.change at hv
    split at hv
    · rw [← Option.some.inj hv, update_of_notMem v hkey.1 hkey.2]
    · cases hv
  alike v u _ := by
    unfold Completion.change
    by_cases hsuccess : c.result.success = true
    · rw [if_pos hsuccess, if_pos hsuccess]
      exact Or.inr ⟨_, _, rfl, rfl, update_alike c v u⟩
    · rw [if_neg hsuccess, if_neg hsuccess]
      exact Or.inl ⟨rfl, rfl⟩

theorem confined_callChange {c : Call} (hwork : s.work = .activity c) :
    Confined s.looks s.keys (callChange f s c) where
  frame v v' hv key hkey := by
    have hcompletion := @confined_completion
      ⟨s, c, f ⟨c.activity, resolveIn c.arguments v⟩⟩ hwork
    exact hcompletion.frame v v' hv key hkey
  alike v u hsame := by
    -- the arguments are the same, and so is the result
    have harguments : resolveIn c.arguments v = resolveIn c.arguments u := by
      refine resolveIn_congr fun argument hmem key hkey => hsame key ?_
      exact (Step.mem_looks_activity hwork).2 ⟨argument, hmem, hkey⟩
    have hcompletion := @confined_completion
      ⟨s, c, f ⟨c.activity, resolveIn c.arguments u⟩⟩ hwork
    have halike := hcompletion.alike v u fun key hkey => absurd hkey (Set.notMem_empty key)
    rw [callChange, callChange, harguments]
    exact halike

theorem confined_toward {target : String}
    (h : ∀ t, d.find? target = some t → Confined reads writes (e t)) :
    Confined reads writes (toward d e target) := by
  unfold toward
  cases ht : d.find? target with
  | none => exact .keep
  | some t => exact h t ht

theorem confined_onward {target : Option String}
    (h : ∀ id t, target = some id → d.find? id = some t → Confined reads writes (e t)) :
    Confined reads writes (onward d e target) := by
  cases target with
  | none => exact .keep
  | some id => exact confined_toward (h id · rfl)

/-- What a step does itself, and what it refers to, has to be confined. -/
theorem confined_workChange (h : ∀ t, d.Refers s t → Confined reads writes (e t))
    (hlooks : s.looks ⊆ reads) (hkeys : s.keys ⊆ writes) :
    Confined reads writes (workChange d e f s) := by
  unfold workChange
  cases hwork : s.work with
  | activity c => exact (confined_callChange hwork).mono hlooks hkeys
  | sequence steps =>
    refine .inTurn fun c hc => ?_
    obtain ⟨id, hid, rfl⟩ := List.mem_map.1 hc
    exact confined_toward fun t ht =>
      h t (Definition.refers_of_find? (Step.exists_reference_steps hwork hid) ht)
  | parallel branches =>
    refine .settle fun c hc => ?_
    obtain ⟨id, hid, rfl⟩ := List.mem_map.1 hc
    exact confined_toward fun t ht =>
      h t (Definition.refers_of_find? (Step.exists_reference_branches hwork hid) ht)
  | condition choice =>
    have hchosen : ∀ v : Values, Confined reads writes
        (onward d e (if holdsIn choice.arguments v then choice.onSuccess else choice.onFailure)) :=
      fun v => confined_onward fun id t hid ht =>
        h t (Definition.refers_of_find? (Step.exists_reference_choice hwork hid) ht)
    refine ⟨fun v v' hv => (hchosen v).frame v v' hv, fun v u hsame => ?_⟩
    have hholds : holdsIn choice.arguments v = holdsIn choice.arguments u := by
      refine holdsIn_congr fun key hkey => hsame key (hlooks ?_)
      exact (Step.mem_looks_condition hwork).2 hkey
    dsimp only
    rw [hholds]
    exact (hchosen u).alike v u hsame

/-- **The meaning of a step is confined** to the variables of the steps that it leads to. -/
theorem Means.confined (hmeans : Means d e f) (hsound : d.Sound) :
    ∀ s ∈ d.steps, Confined (d.reads s) (d.writes s) (e s) := by
  refine hsound.step_induction (P := fun s => Confined (d.reads s) (d.writes s) (e s)) ?_
  intro s hs ih
  have hrefers : ∀ t, d.Refers s t → Confined (d.reads s) (d.writes s) (e t) := fun t ht =>
    have hleads : d.Leads s t := .single ht
    (ih t ht).mono hleads.reads_subset hleads.writes_subset
  rw [hmeans s hs]
  exact (confined_workChange hrefers Definition.looks_subset_reads
    Definition.keys_subset_writes).andThen
      (confined_onward fun id t hid ht =>
        hrefers t (Definition.refers_of_find? (Step.exists_reference_next hid) ht))

end Run

end Flowgraph

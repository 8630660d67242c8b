import Flowgraph.Proofs.Run.Blame

/-!
# Tasks that panic

A task ends with a panic exactly if one of its own calls has panicked: what a task takes from its
branches is a failure, even where a branch has panicked. So a task is *shaken* from the panicking
call to its end (`Reaches.shaken_iff`), and in between it does nothing but leave the steps that it
is inside of, without a report (`Reaches.unwinds`).

All branches that a panicking task has ever started have succeeded before
(`Reaches.kids_of_panicked`), since a task that waits for branches, or has learned that one of them
has not succeeded, makes no call. So a run whose first task panics has no branch that does not
succeed.
-/

set_option autoImplicit false

namespace Flowgraph.Run

open Machine (follow resolveAll)

variable {invoker : Invoker} {d : Definition} {input : Store} {x : Scene} {m m' : Machine}
  {l : Ledger} {id j p : Nat} {deeds : List Deed} {task : Task} {control control' : Control}
  {history new : List Entry} {trail : Trail} {payload : Payload} {calls : List Invocation}
  {run : Progress} {frames frames' : List Frame}

/-! ### Panicking calls -/

/-- Whether a deed is a call that panics. -/
def Deed.Panics (payload : Payload) : Deed → Prop
  | .called _ _ _ reply => reply.ending = .panic payload
  | _ => False

/-- Whether a deed is one of a task that is carried away by a panic: steps are left, and the task
ends. -/
def Deed.Unwinds (payload : Payload) : Deed → Prop
  | .finished _ outcome | .ended outcome | .returned outcome => outcome = .panicked payload
  | _ => False

/-- Nothing is reported about such deeds. -/
theorem Deed.Unwinds.event? {deed : Deed} (h : deed.Unwinds payload) : deed.event? = none := by
  cases deed with
  | finished step outcome =>
    obtain rfl : outcome = .panicked payload := h
    rfl
  | ended outcome => rfl
  | returned outcome =>
    obtain rfl : outcome = .panicked payload := h
    rfl
  | _ => exact h.elim

/-- Whether a control is that of a task whose call has panicked. -/
def Control.Shaken (payload : Payload) (control : Control) : Prop :=
  (∃ step c, control = .receive step c (.panic payload)) ∨ control = .leave (.panicked payload)

@[simp] theorem Control.shaken_told {news : Nat × Outcome} :
    (control.told news).Shaken payload ↔ control.Shaken payload := by
  cases control with
  | join => simp [Control.Shaken, Control.told]
  | _ => exact Iff.rfl

theorem not_shaken_follow (d : Definition) (target : String) :
    ¬ (follow d target).Shaken payload := by
  unfold follow
  split <;> simp [Control.Shaken]

/-- **A task becomes shaken by a panicking call, and stays so.** -/
theorem Advance.shaken_iff
    (h : Advance invoker calls run frames control deeds frames' control') :
    control'.Shaken payload ↔ control.Shaken payload ∨ ∃ deed ∈ deeds, deed.Panics payload := by
  cases h with
  | choose | next | child =>
    exact iff_of_false (not_shaken_follow _ _) (by simp [Control.Shaken, Deed.Panics])
  | answer => split <;> simp [Control.Shaken, Deed.Panics]
  | _ => simp [Control.Shaken, Deed.Panics]

/-- A shaken task only unwinds. -/
theorem Advance.unwinds (h : Advance invoker calls run frames control deeds frames' control')
    (hshaken : control.Shaken payload) : ∀ deed ∈ deeds, deed.Unwinds payload := by
  rcases hshaken with ⟨step, c, rfl⟩ | rfl <;> cases h <;> simp [Deed.Unwinds]

/-! ### Whose call has panicked -/

/-- Whether a call of a task has panicked. -/
def Panicked (history : List Entry) (id : Nat) (payload : Payload) : Prop :=
  ∃ e ∈ history, e.task = id ∧ e.deed.Panics payload

theorem panicked_append :
    Panicked (history ++ new) id payload ↔
      Panicked history id payload ∨ Panicked new id payload := by
  simp only [Panicked, List.mem_append, or_and_right, exists_or]

theorem panicked_entries :
    Panicked (trail.entries id deeds) id payload ↔ ∃ deed ∈ deeds, deed.Panics payload := by
  constructor
  · rintro ⟨e, he, -, hpanics⟩
    exact ⟨e.deed, Trail.deed_mem_of_mem_entries he, hpanics⟩
  · rintro ⟨deed, hdeed, hpanics⟩
    obtain ⟨e, he, rfl⟩ := Trail.exists_mem_entries.2 hdeed
    exact ⟨e, he, Trail.task_of_mem_entries he, hpanics⟩

theorem not_panicked_entries (hne : j ≠ id) : ¬ Panicked (trail.entries id deeds) j payload := by
  rintro ⟨e, he, rfl, -⟩
  exact hne (Trail.task_of_mem_entries he)

/-- Whether a task is carried away by a panic, or has ended so. -/
def Shaken (history : List Entry) (id : Nat) (payload : Payload) (control : Control) : Prop :=
  control.Shaken payload ∨ outcomeOf history id = some (.panicked payload)

/-- The task whose turn it is. -/
theorem Own.shaken_iff (horderly : Scene.Orderly ⟨m, l⟩) (hown : Own invoker m id deeds task)
    (h : ∀ old, m.tasks[id]? = some old →
      (Shaken l.history id payload old.control ↔ Panicked l.history id payload)) :
    Shaken (l.history ++ trail.entries id deeds) id payload task.control ↔
      Panicked (l.history ++ trail.entries id deeds) id payload := by
  rw [panicked_append, panicked_entries, Shaken, outcomeOf_append, outcomeOf_entries]
  cases hown with
  | idle htask => simpa [Shaken] using h _ htask
  | @goes old _ _ _ control htask hrun hadv =>
    have hnone : outcomeOf l.history id = none :=
      horderly.outcomeOf_eq_none htask hadv.running.1
    have hbefore := h _ htask
    rw [Shaken, hnone] at hbefore
    rw [hnone, hadv.no_ending, ← hbefore]
    simpa using hadv.shaken_iff
  | forks htask hrun hc =>
    have hbefore := h _ htask
    rw [Shaken, hc] at hbefore
    rw [← hbefore]
    simp [Control.Shaken, Deed.Panics, List.findSome?, Deed.ending?]
  | @stops old outcome deed htask hframes hc hdeed =>
    have hnone : outcomeOf l.history id = none :=
      horderly.outcomeOf_eq_none htask (by rw [hc]; rfl)
    have hbefore := h _ htask
    rw [Shaken, hc, hnone] at hbefore
    rw [hnone, ← hbefore, hdeed]
    cases old.parent <;> simp [Control.Shaken, Deed.Panics, Deed.ending?]

namespace Scene

/-- **A task is carried away by a panic exactly if one of its own calls has panicked.** -/
theorem Reaches.shaken_iff (h : Reaches invoker (opening d input) x)
    (htask : x.machine.tasks[id]? = some task) (payload : Payload) :
    Shaken x.ledger.history id payload task.control ↔ Panicked x.ledger.history id payload := by
  suffices hall : ∀ id task, x.machine.tasks[id]? = some task →
      (Shaken x.ledger.history id payload task.control ↔ Panicked x.ledger.history id payload) from
    hall id task htask
  refine h.induct ?start ?turn ?same
  case start =>
    intro id task htask
    rw [(task_of_opening htask).2, history_opening]
    simp [Shaken, Control.Shaken, Panicked]
  case turn =>
    intro m m' l id deeds hreach hbefore hturn j task htask
    obtain ⟨trail, -, hhistory⟩ := hreach.placed.history_record hturn
    dsimp only at hbefore htask ⊢
    rw [hhistory]
    by_cases hne : j = id
    · subst hne
      exact (hturn.own htask).shaken_iff hreach.orderly fun old hold => hbefore j old hold
    · have hsame : ∀ control, Shaken (l.history ++ trail.entries id deeds) j payload control ↔
          Shaken l.history j payload control := fun control => by
        rw [Shaken, Shaken, outcomeOf_append, outcomeOf_entries_ne hne, Option.or_none]
      rw [hsame, panicked_append, or_iff_left (not_panicked_entries hne)]
      cases hturn.fate hne htask with
      | kept hold => exact hbefore j _ hold
      | @told old _ _ hold =>
        have hold' := hbefore j old hold
        rw [Shaken] at hold' ⊢
        rwa [Task.told, Control.shaken_told]
      | born hold hc hdeeds hb hj =>
        -- a new task has not done anything
        have hnew : ∀ e ∈ l.history, e.task ≠ j := fun e he heq => by
          have hlt : e.task < m.tasks.length := (hreach.placed.entries e he).1
          omega
        refine iff_of_false ?_ ?_
        · rw [Shaken, outcomeOf_of_forall_ne hnew]
          simp [Control.Shaken]
        · rintro ⟨e, he, heq, -⟩
          exact hnew e he heq
  case same =>
    intro m m' l htasks hruns hcalls hbefore
    dsimp only at hbefore ⊢
    rwa [htasks]

/-- A task that has ended is there. -/
theorem Placed.exists_task_of_outcomeOf (h : x.Placed d) {outcome : Outcome}
    (hended : outcomeOf x.ledger.history id = some outcome) :
    ∃ task, x.machine.tasks[id]? = some task := by
  obtain ⟨e, he, hending⟩ := List.exists_of_findSome?_eq_some hended
  split at hending
  case isTrue htask => exact getElem?_of_lt (htask ▸ h.entry_lt he)
  case isFalse => cases hending

/-- **A task that has ended has ended with a panic exactly if one of its calls has panicked.** -/
theorem Reaches.panicked_iff (h : Reaches invoker (opening d input) x) {outcome : Outcome}
    (hended : outcomeOf x.ledger.history id = some outcome) (payload : Payload) :
    outcome = .panicked payload ↔ Panicked x.ledger.history id payload := by
  obtain ⟨task, htask⟩ := h.placed.exists_task_of_outcomeOf hended
  rw [← h.shaken_iff htask payload, Shaken, h.orderly.stopped_of_outcomeOf htask hended, hended]
  simp [Control.Shaken]

end Scene

/-! ### Unwinding -/

/-- After a panicking call of a task, an entry for the task is one of unwinding. -/
def Unwinding (before : List Entry) (e : Entry) : Prop :=
  ∀ payload, Panicked before e.task payload → e.deed.Unwinds payload

theorem Own.unwinds (hown : Own invoker m id deeds task)
    (h : ∀ old, m.tasks[id]? = some old → old.control.Shaken payload ∨ old.control = .stopped) :
    ∀ deed ∈ deeds, deed.Unwinds payload := by
  cases hown with
  | idle => exact List.forall_mem_nil _
  | goes htask hrun hadv =>
    rcases h _ htask with hshaken | hstopped
    · exact hadv.unwinds hshaken
    · have hrunning := hadv.running.1
      rw [hstopped] at hrunning
      cases hrunning
  | forks htask hrun hc =>
    have hnow := h _ htask
    simp [hc, Control.Shaken] at hnow
  | @stops old outcome deed htask hframes hc hdeed =>
    have hnow := h _ htask
    obtain rfl : outcome = .panicked payload := by simpa [hc, Control.Shaken] using hnow
    rw [hdeed]
    cases old.parent <;> simp [Deed.Unwinds]

/-- Nothing comes after a call in a turn. -/
theorem Turn.not_panics_before (h : Turn invoker m id deeds m') {before after : List Entry}
    {e f : Entry} (hentries : trail.entries id deeds = before ++ e :: after) (hf : f ∈ before) :
    ¬ f.deed.Panics payload := by
  intro hpanics
  have hmem : f ∈ trail.entries id deeds := by
    rw [hentries]
    exact List.mem_append_left _ hf
  cases hdeed : f.deed with
  | called step c invocation reply =>
    obtain ⟨rfl, -⟩ := h.called (hdeed ▸ Trail.deed_mem_of_mem_entries hmem)
    -- the entry before the last one is for the step that begins
    have hlen := congrArg List.length hentries
    simp only [Trail.entries, List.length_cons, List.length_nil, List.length_append] at hlen
    obtain ⟨g, rfl⟩ : ∃ g, before = [g] := by
      refine List.length_eq_one_iff.1 ?_
      have := List.length_pos_of_mem hf
      omega
    obtain ⟨rfl, -⟩ := List.cons.inj hentries
    rw [List.mem_singleton.1 hf] at hdeed
    cases hdeed
  | _ =>
    rw [hdeed] at hpanics
    exact hpanics

namespace Scene

/-- **After a call of a task has panicked, the task does nothing but leave its steps and end.** -/
theorem Reaches.unwinds (h : Reaches invoker (opening d input) x) :
    Throughout Unwinding x.ledger.history := by
  refine h.induct throughout_nil ?turn ?same
  case turn =>
    intro m m' l id deeds hreach hbefore hturn
    obtain ⟨trail, -, hhistory⟩ := hreach.placed.history_record hturn
    dsimp only at hbefore ⊢
    rw [hhistory]
    refine hbefore.append fun before e after hentries payload hpanicked => ?_
    have he : e ∈ trail.entries id deeds := by simp [hentries]
    have hid : e.task = id := Trail.task_of_mem_entries he
    rw [hid, panicked_append] at hpanicked
    rcases hpanicked with hpanicked | ⟨f, hf, -, hpanics⟩
    · -- the call has been made before the turn
      obtain ⟨task, hown⟩ := hturn.exists_own.resolve_left
        (List.ne_nil_of_mem (Trail.deed_mem_of_mem_entries he))
      refine hown.unwinds (fun old hold => ?_) e.deed (Trail.deed_mem_of_mem_entries he)
      rcases (hreach.shaken_iff hold payload).2 hpanicked with hshaken | hended
      · exact Or.inl hshaken
      · exact Or.inr (hreach.orderly.stopped_of_outcomeOf hold hended)
    · -- the call is made in the turn, and then it is the last thing in it
      exact absurd hpanics (hturn.not_panics_before hentries hf)
  case same =>
    intro m m' l htasks hruns hcalls hbefore
    exact hbefore

/-! ### The branches of a task that panics -/

/-- **A task that has panicked has had no branch that did not succeed.** -/
theorem Reaches.kids_of_panicked (h : Reaches invoker (opening d input) x) {child : Task}
    (hchild : x.machine.tasks[j]? = some child) (hparent : child.parent = some p)
    (hended : outcomeOf x.ledger.history p = some (.panicked payload)) :
    outcomeOf x.ledger.history j = some .done := by
  suffices hall : ∀ p j child, x.machine.tasks[j]? = some child → child.parent = some p →
      ∀ payload, outcomeOf x.ledger.history p = some (.panicked payload) →
        outcomeOf x.ledger.history j = some .done from hall p j child hchild hparent payload hended
  refine h.induct ?start ?turn ?same
  case start =>
    intro p j child hchild hparent
    rw [(task_of_opening hchild).2] at hparent
    cases hparent
  case turn =>
    intro m m' l id deeds hreach hbefore hturn p j child hchild hparent payload hended
    obtain ⟨trail, -, hhistory⟩ := hreach.placed.history_record hturn
    dsimp only at hbefore hchild hended ⊢
    rw [hhistory] at hended ⊢
    rcases hturn.task_cases hchild with ⟨old, hold, hsame, -⟩ | ⟨-, hid, step, kids, rfl⟩
    · rw [hsame] at hparent
      cases hp : outcomeOf l.history p with
      | some outcome =>
        rw [outcomeOf_append_of_some hp] at hended
        cases hended
        exact outcomeOf_append_of_some (hbefore p j old hold hparent payload hp)
      | none =>
        -- the parent ends in the turn, and accounts for its branches then
        rw [outcomeOf_append, hp, Option.none_or] at hended
        obtain rfl : p = id := by
          by_contra hne
          rw [outcomeOf_entries_ne hne] at hended
          cases hended
        rw [outcomeOf_entries] at hended
        rcases hturn.ending_cases with hnone | ⟨task, outcome, htask, -, hc, rfl⟩
        · rw [hnone] at hended
          cases hended
        · obtain rfl : outcome = .panicked payload := by
            cases hpar : task.parent <;> simpa [hpar, Deed.ending?] using hended
          have hacc := hreach.orderly.kids p j task old htask hold hparent
          rw [hc] at hacc
          exact outcomeOf_append_of_some hacc
    · -- the parent is alive, since it has just started the branch
      rw [hparent] at hid
      cases hid
      rw [outcomeOf_append, outcomeOf_entries] at hended
      obtain ⟨task, hown⟩ := hturn.exists_own.resolve_left (by simp)
      cases hown with
      | goes htask hrun hadv =>
        exact absurd rfl (hadv.ne_forked (.forked step kids) (by simp) step kids)
      | forks htask hrun hc =>
        rw [hreach.orderly.outcomeOf_eq_none htask (by rw [hc]; rfl)] at hended
        cases hended
  case same =>
    intro m m' l htasks hruns hcalls hbefore
    dsimp only at hbefore ⊢
    rwa [htasks]

/-- The parent of a branch that has not succeeded is waiting for it, or fails, or has failed. -/
theorem Reaches.parent_cases (h : Reaches invoker (opening d input) x) {parent child : Task}
    (hp : x.machine.tasks[p]? = some parent) (hchild : x.machine.tasks[j]? = some child)
    (hparent : child.parent = some p) {outcome : Outcome}
    (hended : outcomeOf x.ledger.history j = some outcome) (hnot : outcome ≠ .done) :
    (∃ step missing ended, parent.control = .join step missing ended ∧ (j, outcome) ∈ ended) ∨
      (∃ failure, parent.control = .leave (.failed failure)) ∨
      ∃ failure, outcomeOf x.ledger.history p = some (.failed failure) := by
  have hacc := h.orderly.kids p j parent child hp hchild hparent
  have hnone : outcomeOf x.ledger.history j ≠ some .done := by
    rw [hended]
    exact fun heq => hnot (Option.some.inj heq)
  cases hc : parent.control with
  | join step missing ended =>
    rw [hc] at hacc
    exact Or.inl ⟨step, missing, ended, rfl, (hacc outcome hended).resolve_left hnot⟩
  | leave left =>
    rw [hc] at hacc
    cases left with
    | failed failure => exact Or.inr (Or.inl ⟨failure, rfl⟩)
    | done => exact absurd hacc hnone
    | panicked payload => exact absurd hacc hnone
  | stopped =>
    rw [hc] at hacc
    have hstopped := h.orderly.stopped p parent hp
    rw [hc] at hstopped
    obtain ⟨result, hresult⟩ := Option.isSome_iff_exists.1 hstopped.symm
    cases result with
    | failed failure => exact Or.inr (Or.inr ⟨failure, hresult⟩)
    | done => exact absurd (hacc hresult) hnone
    | panicked payload => exact absurd (h.kids_of_panicked hchild hparent hresult) hnone
  | start =>
    rw [hc] at hacc
    exact absurd hacc hnone
  | enter step =>
    rw [hc] at hacc
    exact absurd hacc hnone
  | receive step c ending =>
    rw [hc] at hacc
    exact absurd hacc hnone

end Scene

end Flowgraph.Run

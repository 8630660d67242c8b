import Flowgraph.Proofs.Run.Meaning
import Flowgraph.Proofs.Run.NormalForm

/-!
# Workflows by recursion

What a workflow without branches does can be said without tasks, frames and timers. A reference
is followed by executing the step that it leads to and then that step's next one; the work of a
step is a call, its children one after the other, or the outcome of a condition. `visit` says so
by plain recursion over the references, up to a depth, and `evaluate` does it for a whole run.

A `Stage` takes a journal of what has been done so far to a longer one. Stages are put together
by `Stage.andThen`, which leaves the second one out if the first has not succeeded; so once a
failure has been noted, nothing is called and no step begins any more (`evaluate_broken`). Once the
recursion has come to an end, more depth changes nothing (`evaluate_mono`).

That the machine comes to the same is shown in `Proofs/Run/Sequential`.
-/

set_option autoImplicit false

namespace Flowgraph

namespace Run

/-! ### Journals -/

/-- What is noted while a workflow is evaluated. -/
inductive Note where
  /-- The call of an activity, and how long it takes. -/
  | call (invocation : Invocation) (delay : Nat)
  | report (event : Event Unit)

namespace Note

/-- The call in a note. -/
def call? : Note → Option Invocation
  | .call invocation _ => some invocation
  | .report _ => none

/-- The event in a note. -/
def event? : Note → Option (Event Unit)
  | .call .. => none
  | .report event => some event

/-- The time that passes with what is noted. -/
def delay : Note → Nat
  | .call _ delay => delay
  | .report _ => 0

/-- Whether a note says that a step or the run has failed. -/
inductive Fails : Note → Prop
  | step (id kind : String) (text : Option String) :
      Fails (.report (.stepFinished id kind .failed text))
  | run (text : Option String) : Fails (.report (.runCompleted .failed () text))

end Note

/-- What has been done, in its order, and the variables. -/
structure Journal where
  notes : List Note := []
  store : Store

namespace Journal

/-- The calls so far. -/
def calls (j : Journal) : List Invocation := j.notes.filterMap Note.call?

/-- The events so far. -/
def events (j : Journal) : List (Event Unit) := j.notes.filterMap Note.event?

/-- The time so far: the sum of the delays of the calls. -/
def elapsed (j : Journal) : Nat := (j.notes.map Note.delay).sum

/-- Adds a note. -/
def note (j : Journal) (n : Note) : Journal := { j with notes := j.notes ++ [n] }

/-- Reports that a step begins. -/
def start (j : Journal) (step : Step) : Journal :=
  j.note (.report (.stepStarted step.id step.work.kind))

/-- Reports how a step has ended; a panic is not reported. -/
def finish (j : Journal) (step : Step) : Outcome → Journal
  | .done => j.note (.report (.stepFinished step.id step.work.kind .succeeded none))
  | .failed failure =>
    j.note (.report (.stepFinished step.id step.work.kind .failed (some failure.message)))
  | .panicked _ => j

/-- Reports how the run has ended. -/
def complete (j : Journal) (outcome : Outcome) : Journal :=
  match Machine.finalEvent outcome with
  | some event => j.note (.report event)
  | none => j

/-- What is seen of a run with this journal that has ended so. -/
def view (j : Journal) (outcome : Outcome) : View where
  calls := j.calls
  now := j.elapsed
  events := [j.events]
  stores := [j.store]
  outcomes := [some outcome]

/-- Whether nothing but failures is noted once there is one. -/
def Broken (j : Journal) : Prop := j.notes.Pairwise fun a b => a.Fails → b.Fails

variable {j : Journal} {n : Note}

@[simp] theorem calls_note : (j.note n).calls = j.calls ++ n.call?.toList := by
  rw [calls, note, List.filterMap_append]
  rfl

@[simp] theorem events_note : (j.note n).events = j.events ++ n.event?.toList := by
  rw [events, note, List.filterMap_append]
  rfl

@[simp] theorem elapsed_note : (j.note n).elapsed = j.elapsed + n.delay := by
  simp [elapsed, note]

@[simp] theorem store_note : (j.note n).store = j.store := rfl

end Journal

/-! ### Stages -/

/-- Part of an evaluation: the journal and the outcome after it. There is none if the recursion
is deeper than allowed. -/
abbrev Stage := Journal → Option (Journal × Outcome)

namespace Stage

/-- Does nothing. -/
def pass : Stage := fun j => some (j, .done)

/-- Goes on to a second stage if the first succeeds. -/
def andThen (a b : Stage) : Stage := fun j =>
  match a j with
  | some (j, .done) => b j
  | ended => ended

/-- Stages one after the other. -/
def inTurn : List Stage → Stage
  | [] => pass
  | stage :: rest => stage.andThen (inTurn rest)

/-- Calls the activity of a step and keeps its result. -/
def perform (invoker : Invoker) (step : Step) (c : Call) : Stage := fun j =>
  if Text.blank c.activity then some (j, .failed (.missingActivityName step.id))
  else
    let invocation : Invocation := ⟨c.activity, c.arguments.resolve j.store⟩
    let reply := invoker j.calls invocation
    let j := j.note (.call invocation reply.delay)
    match reply.ending with
    | .panic payload => some (j, .panicked payload)
    | .result r =>
      let kept := Machine.keepData c.resultVariable r j.store
      some ({ j with store := Assoc.insert step.id r.toValue kept },
        if r.success then .done else .failed (.activity c.activity r.message))

/-- Does the work of a step, where `visit` says how references are followed. -/
def work (invoker : Invoker) (visit : String → Stage) (step : Step) : Stage := fun j =>
  match step.work with
  | .activity c => perform invoker step c j
  | .sequence ids => inTurn (ids.map visit) j
  | .condition choice =>
    (if Condition.holds choice.arguments j.store then choice.onSuccess
      else choice.onFailure).elim pass visit j
  | .parallel _ => none

/-- Does the work of a step between the reports about it. -/
def execute (invoker : Invoker) (visit : String → Stage) (step : Step) : Stage := fun j =>
  (work invoker visit step (j.start step)).map fun (j, outcome) => (j.finish step outcome, outcome)

end Stage

open Stage

/-- Follows a reference: the step that it leads to is executed, and then its next one. A
reference that leads nowhere is passed over. The chains of references that are followed can be no
longer than `depth`. -/
def visit (d : Definition) (invoker : Invoker) : Nat → String → Stage
  | 0, _ => fun _ => none
  | depth + 1, target =>
    match d.find? target with
    | none => pass
    | some step =>
      (execute invoker (visit d invoker depth) step).andThen
        (step.next.elim pass (visit d invoker depth))

/-- The journal and the outcome of a whole run on an input. -/
def evaluate (d : Definition) (invoker : Invoker) (input : Store) (depth : Nat) :
    Option (Journal × Outcome) :=
  let j := ({ store := input } : Journal).note (.report (.runStarted d.name ()))
  let ended := match d.rootStep? with
    | some _ => visit d invoker depth d.root j
    | none => some (j, .failed (.rootNotFound d.root))
  ended.map fun (j, outcome) => (j.complete outcome, outcome)

variable {d : Definition} {invoker : Invoker} {depth depth' : Nat} {target : String}
  {j j' : Journal} {outcome : Outcome} {step : Step}

theorem visit_none (h : d.find? target = none) : visit d invoker (depth + 1) target = pass := by
  rw [visit, h]

theorem visit_some (h : d.find? target = some step) :
    visit d invoker (depth + 1) target =
      (execute invoker (visit d invoker depth) step).andThen
        (step.next.elim pass (visit d invoker depth)) := by
  rw [visit, h]

/-! ### More depth changes nothing -/

namespace Stage

/-- Whether one stage comes to what another one comes to, wherever that comes to something. -/
def Extends (b a : Stage) : Prop := ∀ j ended, a j = some ended → b j = some ended

variable {a a' b b' : Stage} {visit visit' : String → Stage}

theorem Extends.refl : a.Extends a := fun _ _ h => h

theorem Extends.andThen (ha : a'.Extends a) (hb : b'.Extends b) :
    (a'.andThen b').Extends (a.andThen b) := by
  intro j ended h
  unfold Stage.andThen at h ⊢
  cases haj : a j with
  | none =>
    rw [haj] at h
    cases h
  | some first =>
    obtain ⟨j', outcome⟩ := first
    rw [haj] at h
    rw [ha j _ haj]
    cases outcome with
    | done => exact hb j' ended h
    | failed failure => exact h
    | panicked payload => exact h

theorem Extends.inTurn (h : ∀ target, (visit' target).Extends (visit target))
    (ids : List String) : (inTurn (ids.map visit')).Extends (inTurn (ids.map visit)) := by
  induction ids with
  | nil => exact .refl
  | cons target rest ih => exact (h target).andThen ih

theorem Extends.elim (h : ∀ target, (visit' target).Extends (visit target))
    (target : Option String) : (target.elim pass visit').Extends (target.elim pass visit) := by
  cases target with
  | none => exact .refl
  | some target => exact h target

theorem Extends.execute (h : ∀ target, (visit' target).Extends (visit target)) (invoker : Invoker)
    (step : Step) : (execute invoker visit' step).Extends (execute invoker visit step) := by
  intro j ended hended
  unfold Stage.execute Stage.work at hended ⊢
  cases hwork : step.work with
  | activity c =>
    rw [hwork] at hended
    exact hended
  | parallel branches =>
    rw [hwork] at hended
    cases hended
  | sequence ids =>
    rw [hwork] at hended
    obtain ⟨before, hbefore, rfl⟩ := Option.map_eq_some_iff.1 hended
    exact Option.map_eq_some_iff.2 ⟨before, Extends.inTurn h ids _ _ hbefore, rfl⟩
  | condition choice =>
    rw [hwork] at hended
    obtain ⟨before, hbefore, rfl⟩ := Option.map_eq_some_iff.1 hended
    exact Option.map_eq_some_iff.2 ⟨before, Extends.elim h _ _ _ hbefore, rfl⟩

end Stage

theorem visit_succ (target : String) :
    (visit d invoker (depth + 1) target).Extends (visit d invoker depth target) := by
  induction depth generalizing target with
  | zero =>
    intro j ended h
    cases h
  | succ depth ih =>
    cases hfind : d.find? target with
    | none =>
      rw [visit_none hfind, visit_none hfind]
      exact .refl
    | some step =>
      rw [visit_some hfind, visit_some hfind]
      exact (Extends.execute ih invoker step).andThen (Extends.elim ih step.next)

/-- **What the recursion comes to, it comes to with more depth.** -/
theorem visit_mono (h : depth ≤ depth') (target : String) :
    (visit d invoker depth' target).Extends (visit d invoker depth target) := by
  induction h with
  | refl => exact .refl
  | step _ ih => exact fun j ended hended => visit_succ target j ended (ih j ended hended)

/-- **A run has one end by recursion**, whatever the depth. -/
theorem evaluate_mono {input : Store} {ended : Journal × Outcome} (h : depth ≤ depth')
    (hended : evaluate d invoker input depth = some ended) :
    evaluate d invoker input depth' = some ended := by
  unfold evaluate at hended ⊢
  cases hroot : d.rootStep? with
  | none =>
    rw [hroot] at hended
    exact hended
  | some root =>
    rw [hroot] at hended
    obtain ⟨visited, hvisited, rfl⟩ := Option.map_eq_some_iff.1 hended
    exact Option.map_eq_some_iff.2 ⟨visited, visit_mono h d.root _ _ hvisited, rfl⟩

/-! ### Nothing is begun after a failure -/

/-- What a stage adds to a journal: no failure if it succeeds, and nothing but failures after the
first one. -/
structure Stage.Adds (j : Journal) (new : List Note) (j' : Journal) (outcome : Outcome) : Prop where
  notes : j'.notes = j.notes ++ new
  broken : new.Pairwise fun a b => a.Fails → b.Fails
  clean : outcome = .done → ∀ n ∈ new, ¬ n.Fails

/-- Whether nothing is begun in a stage after a failure. -/
def Stage.Breaks (a : Stage) : Prop :=
  ∀ j j' outcome, a j = some (j', outcome) → ∃ new, Stage.Adds j new j' outcome

namespace Stage

variable {a b : Stage} {visit : String → Stage}

theorem Adds.nil (j : Journal) (outcome : Outcome) : Adds j [] j outcome :=
  ⟨(List.append_nil _).symm, .nil, fun _ => List.forall_mem_nil _⟩

theorem breaks_pass : pass.Breaks := by
  intro j j' outcome h
  cases h
  exact ⟨[], .nil _ _⟩

theorem pairwise_of_clean {new : List Note} (hclean : ∀ n ∈ new, ¬ n.Fails) :
    new.Pairwise fun a b => a.Fails → b.Fails :=
  List.Pairwise.imp_of_mem (fun ha _ _ hfails => absurd hfails (hclean _ ha))
    (List.pairwise_of_forall fun _ _ => trivial)

/-- Notes after notes without a failure. -/
theorem pairwise_append {new more : List Note} (hclean : ∀ n ∈ new, ¬ n.Fails)
    (hmore : more.Pairwise fun a b => a.Fails → b.Fails) :
    (new ++ more).Pairwise fun a b => a.Fails → b.Fails := by
  exact List.pairwise_append.2 ⟨pairwise_of_clean hclean, hmore, fun a ha b _ hfails =>
    absurd hfails (hclean a ha)⟩

theorem Breaks.andThen (ha : a.Breaks) (hb : b.Breaks) : (a.andThen b).Breaks := by
  intro j j' outcome h
  unfold Stage.andThen at h
  cases haj : a j with
  | none =>
    rw [haj] at h
    cases h
  | some first =>
    obtain ⟨j₁, outcome₁⟩ := first
    rw [haj] at h
    obtain ⟨new, hnew⟩ := ha j j₁ outcome₁ haj
    cases outcome₁ with
    | done =>
      obtain ⟨more, hmore⟩ := hb j₁ j' outcome h
      refine ⟨new ++ more, by rw [hmore.notes, hnew.notes, List.append_assoc],
        pairwise_append (hnew.clean rfl) hmore.broken, fun hdone n hn => ?_⟩
      rcases List.mem_append.1 hn with hn | hn
      · exact hnew.clean rfl n hn
      · exact hmore.clean hdone n hn
    | failed failure =>
      cases h
      exact ⟨new, hnew⟩
    | panicked payload =>
      cases h
      exact ⟨new, hnew⟩

theorem breaks_inTurn (h : ∀ target, (visit target).Breaks) (ids : List String) :
    (inTurn (ids.map visit)).Breaks := by
  induction ids with
  | nil => exact breaks_pass
  | cons target rest ih => exact (h target).andThen ih

theorem breaks_elim (h : ∀ target, (visit target).Breaks) (target : Option String) :
    (target.elim pass visit).Breaks := by
  cases target with
  | none => exact breaks_pass
  | some target => exact h target

theorem breaks_perform (invoker : Invoker) (step : Step) (c : Call) :
    (perform invoker step c).Breaks := by
  intro j j' outcome h
  unfold perform at h
  split at h
  · cases h
    exact ⟨[], .nil _ _⟩
  · dsimp only at h
    have hcall : ∀ invocation delay, ∀ n ∈ [Note.call invocation delay], ¬ n.Fails := by
      intro invocation delay n hn
      rw [List.mem_singleton.1 hn]
      exact nofun
    split at h <;> cases h <;>
      exact ⟨[_], rfl, List.pairwise_singleton _ _, fun _ => hcall _ _⟩

theorem breaks_work (h : ∀ target, (visit target).Breaks) (invoker : Invoker) (step : Step) :
    (work invoker visit step).Breaks := by
  intro j j' outcome hended
  unfold work at hended
  cases hwork : step.work with
  | activity c =>
    rw [hwork] at hended
    exact breaks_perform invoker step c j j' outcome hended
  | parallel branches =>
    rw [hwork] at hended
    cases hended
  | sequence ids =>
    rw [hwork] at hended
    exact breaks_inTurn h ids j j' outcome hended
  | condition choice =>
    rw [hwork] at hended
    exact breaks_elim h _ j j' outcome hended

theorem breaks_execute (h : ∀ target, (visit target).Breaks) (invoker : Invoker) (step : Step) :
    (execute invoker visit step).Breaks := by
  intro j j' outcome hended
  obtain ⟨⟨j₁, o⟩, hwork, heq⟩ := Option.map_eq_some_iff.1 hended
  obtain ⟨rfl, rfl⟩ := Prod.mk.inj heq
  obtain ⟨new, hnew⟩ := breaks_work h invoker step _ _ _ hwork
  have hnotes : j₁.notes =
      j.notes ++ .report (.stepStarted step.id step.work.kind) :: new := by
    rw [hnew.notes, Journal.start, Journal.note, List.append_assoc]
    rfl
  -- the report at the beginning is no failure, and the one at the end is one if there is one
  have hfirst : (Note.report (.stepStarted step.id step.work.kind) :: new).Pairwise
      fun a b => a.Fails → b.Fails :=
    List.pairwise_cons.2 ⟨fun _ _ => nofun, hnew.broken⟩
  cases o with
  | done =>
    have hclean : ∀ n ∈ (Note.report (.stepStarted step.id step.work.kind) :: new) ++
        [.report (.stepFinished step.id step.work.kind .succeeded none)], ¬ n.Fails := by
      intro n hn
      simp only [List.cons_append, List.mem_cons, List.mem_append, List.not_mem_nil,
        or_false] at hn
      rcases hn with rfl | hn | rfl
      · exact nofun
      · exact hnew.clean rfl n hn
      · exact nofun
    refine ⟨_, ?_, pairwise_of_clean hclean, fun _ => hclean⟩
    rw [Journal.finish, Journal.note, hnotes, List.append_assoc]
  | failed failure =>
    refine ⟨(Note.report (.stepStarted step.id step.work.kind) :: new) ++
        [.report (.stepFinished step.id step.work.kind .failed (some failure.message))], ?_,
      List.pairwise_append.2 ⟨hfirst, List.pairwise_singleton _ _, fun _ _ b hb _ => ?_⟩, nofun⟩
    · rw [Journal.finish, Journal.note, hnotes, List.append_assoc]
    · rw [List.mem_singleton.1 hb]
      exact .step ..
  | panicked payload => exact ⟨_, hnotes, hfirst, nofun⟩

end Stage

theorem breaks_visit (depth : Nat) (target : String) : (visit d invoker depth target).Breaks := by
  induction depth generalizing target with
  | zero =>
    intro j j' outcome h
    cases h
  | succ depth ih =>
    cases hfind : d.find? target with
    | none =>
      rw [visit_none hfind]
      exact breaks_pass
    | some step =>
      rw [visit_some hfind]
      exact (breaks_execute ih invoker step).andThen (breaks_elim ih step.next)

/-- **Once a failure has been noted, nothing is called and no step begins.** -/
theorem evaluate_broken {input : Store}
    (h : evaluate d invoker input depth = some (j, outcome)) : j.Broken := by
  obtain ⟨⟨j₁, o⟩, hended, heq⟩ := Option.map_eq_some_iff.1 h
  obtain ⟨rfl, rfl⟩ := Prod.mk.inj heq
  obtain ⟨new, hnew⟩ : ∃ new, Stage.Adds
      (({ store := input } : Journal).note (.report (.runStarted d.name ()))) new j₁ o := by
    split at hended
    · exact breaks_visit depth d.root _ _ _ hended
    · cases hended
      exact ⟨[], .nil _ _⟩
  have hfirst : j₁.notes.Pairwise fun a b => a.Fails → b.Fails := by
    rw [hnew.notes]
    exact List.pairwise_cons.2 ⟨fun _ _ => nofun, hnew.broken⟩
  cases o with
  | done =>
    refine List.pairwise_append.2 ⟨hfirst, List.pairwise_singleton _ _, fun n hn _ _ hfails => ?_⟩
    rw [hnew.notes] at hn
    rcases List.mem_cons.1 hn with rfl | hn
    · cases hfails
    · exact absurd hfails (hnew.clean rfl n hn)
  | failed failure =>
    refine List.pairwise_append.2 ⟨hfirst, List.pairwise_singleton _ _, fun _ _ b hb _ => ?_⟩
    rw [List.mem_singleton.1 hb]
    exact .run _
  | panicked payload => exact hfirst

end Run

end Flowgraph

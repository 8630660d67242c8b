import Flowgraph.Proofs.Run.Turn
import Mathlib.Logic.Relation
import Mathlib.Logic.Function.Iterate

/-!
# Ledgers of runs

A ledger is the record of what has been done in a run, in the order in which it was done. Each
entry names the task, the deed, and the *address* of the step execution that the deed belongs to.
The address is the chain of references that led from the root to the execution: a step of a
sequence, a branch, the outcome of a condition or a next step is each one link of the chain. So
the length of an address is how deep the execution is nested in the executions that it was begun
from.

A machine with its ledger is a `Scene`. `Scene.Moves` lets scenes move by small steps of the
machine, by waiting for any time at any moment, and by any change of the order in the line, so
that what holds of all scenes that are reached holds for every schedule. The states that
`Machine.run` goes through are among them (`Machine.run_reaches`).
-/

set_option autoImplicit false

namespace Flowgraph.Run

/-- The chain of references, by their numbers, that leads from the root to a step execution, the
last one first. -/
abbrev Address := List Nat

/-! ### Entries -/

/-- Where a task is. -/
structure Trail where
  /-- The address of the step that the task enters next. -/
  here : Address := []
  /-- The addresses of the step executions that the task is inside of, the innermost first. -/
  inside : List Address := []
  deriving DecidableEq

namespace Trail

/-- The address of the step execution that a deed belongs to. -/
def address (trail : Trail) : Deed → Address
  | .entered _ => trail.here
  | _ => trail.inside.headD []

/-- Where the task is after a deed. -/
def record (trail : Trail) : Deed → Trail
  | .entered _ => { trail with inside := trail.here :: trail.inside }
  | .turned n => { trail with here := n :: trail.inside.headD [] }
  | .finished step _ =>
    { here := step.work.references.length :: trail.inside.headD []
      inside := trail.inside.tail }
  | _ => trail

/-- Where the tasks for branches are that a deed starts. -/
def branches (trail : Trail) : Deed → List Trail
  | .forked _ ids => (List.range ids.length).map fun n => { here := n :: trail.inside.headD [] }
  | _ => []

end Trail

/-- One thing that was done. -/
structure Entry where
  task : Nat
  address : Address
  deed : Deed
  deriving DecidableEq

/-- The entries for some deeds of a task, from where it is. -/
def Trail.entries (id : Nat) : Trail → List Deed → List Entry
  | _, [] => []
  | trail, deed :: deeds =>
    ⟨id, trail.address deed, deed⟩ :: Trail.entries id (trail.record deed) deeds

theorem Trail.map_deed_entries (trail : Trail) (id : Nat) (deeds : List Deed) :
    (trail.entries id deeds).map (·.deed) = deeds := by
  induction deeds generalizing trail with
  | nil => rfl
  | cons deed deeds ih => simp [Trail.entries, ih]

theorem Trail.task_of_mem_entries {id : Nat} {trail : Trail} {deeds : List Deed} {e : Entry}
    (h : e ∈ trail.entries id deeds) : e.task = id := by
  induction deeds generalizing trail with
  | nil => cases h
  | cons deed deeds ih =>
    rcases List.mem_cons.1 h with rfl | h
    · rfl
    · exact ih h

/-- The entries for some deeds are of these deeds. -/
theorem Trail.exists_mem_entries {id : Nat} {trail : Trail} {deeds : List Deed} {deed : Deed} :
    (∃ e ∈ trail.entries id deeds, e.deed = deed) ↔ deed ∈ deeds := by
  have hmap := trail.map_deed_entries id deeds
  rw [← List.mem_map, hmap]

theorem Trail.deed_mem_of_mem_entries {id : Nat} {trail : Trail} {deeds : List Deed} {e : Entry}
    (h : e ∈ trail.entries id deeds) : e.deed ∈ deeds := Trail.exists_mem_entries.1 ⟨e, h, rfl⟩

/-- What has been done in a run, and where its tasks are. -/
structure Ledger where
  trails : List Trail := [{}]
  history : List Entry := []
  deriving DecidableEq

namespace Ledger

variable {l : Ledger} {id j : Nat} {trail : Trail} {deed : Deed}

/-- Writes down a deed of a task. -/
def add (l : Ledger) (id : Nat) (deed : Deed) : Ledger :=
  let trail := (l.trails[id]?).getD {}
  { trails := l.trails.set id (trail.record deed) ++ trail.branches deed
    history := l.history ++ [⟨id, trail.address deed, deed⟩] }

/-- Writes down the deeds of a task. -/
def record (l : Ledger) (id : Nat) (deeds : List Deed) : Ledger :=
  deeds.foldl (fun l deed => l.add id deed) l

@[simp] theorem record_nil : l.record id [] = l := rfl

@[simp] theorem record_cons (deeds : List Deed) :
    l.record id (deed :: deeds) = (l.add id deed).record id deeds := rfl

theorem history_add (h : l.trails[id]? = some trail) :
    (l.add id deed).history = l.history ++ [⟨id, trail.address deed, deed⟩] := by
  simp [add, h]

theorem trails_add (h : l.trails[id]? = some trail) :
    (l.add id deed).trails = l.trails.set id (trail.record deed) ++ trail.branches deed := by
  simp [add, h]

theorem trails_add_self (h : l.trails[id]? = some trail) :
    (l.add id deed).trails[id]? = some (trail.record deed) := by
  obtain ⟨hid, -⟩ := List.getElem?_eq_some_iff.1 h
  rw [trails_add h, List.getElem?_append_left (by simpa using hid), List.getElem?_set_self hid]

theorem trails_add_ne (hj : j < l.trails.length) (hne : id ≠ j) :
    (l.add id deed).trails[j]? = l.trails[j]? := by
  unfold add
  rw [List.getElem?_append_left (by simpa using hj), List.getElem?_set_ne hne]

theorem length_trails_le_add : l.trails.length ≤ (l.add id deed).trails.length := by
  simp [add]

theorem trails_record_self {deeds : List Deed} (h : l.trails[id]? = some trail) :
    (l.record id deeds).trails[id]? = some (deeds.foldl Trail.record trail) := by
  induction deeds generalizing l trail with
  | nil => exact h
  | cons deed deeds ih => exact ih (trails_add_self h)

theorem trails_record_ne {deeds : List Deed} (hj : j < l.trails.length) (hne : id ≠ j) :
    (l.record id deeds).trails[j]? = l.trails[j]? := by
  induction deeds generalizing l with
  | nil => rfl
  | cons deed deeds ih =>
    rw [record_cons, ih (Nat.lt_of_lt_of_le hj length_trails_le_add), trails_add_ne hj hne]

/-- Only starting branches brings new trails. -/
theorem trails_record {deeds : List Deed} (h : l.trails[id]? = some trail)
    (hdeeds : ∀ deed ∈ deeds, ∀ t : Trail, t.branches deed = []) :
    (l.record id deeds).trails = l.trails.set id (deeds.foldl Trail.record trail) := by
  induction deeds generalizing l trail with
  | nil => exact (set_self h).symm
  | cons deed deeds ih =>
    rw [record_cons, ih (trails_add_self h) fun d hd => hdeeds d (List.mem_cons_of_mem _ hd),
      trails_add h, hdeeds deed (List.mem_cons_self ..), List.append_nil, List.set_set,
      List.foldl_cons]

/-- The trails of branches that are started come after the others, and are inside of nothing. -/
theorem exists_trails_record (deeds : List Deed) (h : l.trails[id]? = some trail) :
    ∃ kids : List Trail, (l.record id deeds).trails =
        l.trails.set id (deeds.foldl Trail.record trail) ++ kids ∧
      ∀ kid ∈ kids, kid.inside = [] := by
  induction deeds generalizing l trail with
  | nil => exact ⟨[], by simp [set_self h], List.forall_mem_nil _⟩
  | cons deed deeds ih =>
    obtain ⟨kids, htrails, hkids⟩ := ih (trails_add_self h)
    have hlt : id < (l.trails.set id (trail.record deed)).length := by
      rw [List.length_set]
      exact (List.getElem?_eq_some_iff.1 h).1
    refine ⟨trail.branches deed ++ kids, ?_, fun kid hkid => ?_⟩
    · rw [record_cons, htrails, trails_add h, List.set_append_left _ _ hlt, List.set_set,
        List.append_assoc, List.foldl_cons]
    · rcases List.mem_append.1 hkid with hkid | hkid
      · cases deed with
        | forked step ids =>
          obtain ⟨n, -, rfl⟩ := List.mem_map.1 hkid
          rfl
        | _ => cases hkid
      · exact hkids kid hkid

/-- The trails of branches that are started when a step begins. -/
theorem trails_record_forked {step : Step} {kids : List Nat} (h : l.trails[id]? = some trail) :
    (l.record id [.entered step, .forked step kids]).trails =
      l.trails.set id { trail with inside := trail.here :: trail.inside } ++
        (List.range kids.length).map fun n => { here := n :: trail.here } := by
  rw [record_cons, record_cons, record_nil, trails_add (trails_add_self h), trails_add h]
  simp [Trail.record, Trail.branches]

/-- The trail of one of the branches that are started when a step begins. -/
theorem trail_of_kid {step : Step} {kids : List Nat} {k : Nat} {trail' : Trail}
    (h : l.trails[id]? = some trail)
    (hkid : (l.record id [.entered step, .forked step kids]).trails[l.trails.length + k]? =
      some trail') : trail' = { here := k :: trail.here } := by
  rw [trails_record_forked h, List.getElem?_append_right (by simp), List.length_set,
    Nat.add_sub_cancel_left, List.getElem?_map] at hkid
  obtain ⟨n, hn, rfl⟩ := Option.map_eq_some_iff.1 hkid
  obtain ⟨hlt, rfl⟩ := List.getElem?_eq_some_iff.1 hn
  simp

/-- The ledger only grows, by entries for the deeds of the task. -/
theorem history_record {deeds : List Deed} (h : l.trails[id]? = some trail) :
    (l.record id deeds).history = l.history ++ trail.entries id deeds := by
  induction deeds generalizing l trail with
  | nil => simp [Trail.entries]
  | cons deed deeds ih =>
    rw [record_cons, ih (trails_add_self h), history_add h, List.append_assoc]
    rfl

end Ledger

/-- Every entry of a history has a property together with the entries before it. -/
def Throughout (P : List Entry → Entry → Prop) (history : List Entry) : Prop :=
  ∀ before e after, history = before ++ e :: after → P before e

theorem throughout_nil {P : List Entry → Entry → Prop} : Throughout P [] := by
  intro before e after h
  simp at h

theorem Throughout.snoc {P : List Entry → Entry → Prop} {history : List Entry} {e : Entry}
    (h : Throughout P history) (he : P history e) : Throughout P (history ++ [e]) := by
  intro before e' after heq
  rcases List.eq_nil_or_concat after with rfl | ⟨after, last, rfl⟩
  · obtain ⟨rfl, h'⟩ := List.append_inj' heq rfl
    obtain rfl := List.singleton_inj.1 h'
    exact he
  · rw [List.concat_eq_append, ← List.cons_append, ← List.append_assoc] at heq
    obtain ⟨rfl, -⟩ := List.append_inj' heq rfl
    exact h before e' after rfl

theorem Throughout.append {P : List Entry → Entry → Prop} {history new : List Entry}
    (h : Throughout P history)
    (hnew : ∀ before e after, new = before ++ e :: after → P (history ++ before) e) :
    Throughout P (history ++ new) := by
  induction new generalizing history with
  | nil => simpa using h
  | cons e new ih =>
    have hsnoc : Throughout P (history ++ [e]) := h.snoc (by simpa using hnew [] e new rfl)
    have hrest := ih hsnoc fun before e' after heq => by
      simpa using hnew (e :: before) e' after (by rw [heq]; rfl)
    simpa using hrest

/-! ### Scenes -/

/-- Whether all calls of an invoker come back with a result. -/
def Invoker.Calm (invoker : Invoker) : Prop :=
  ∀ earlier call, ∃ result, (invoker earlier call).ending = .result result

/-- A machine, and what has been done on it. -/
structure Scene where
  machine : Machine
  ledger : Ledger

namespace Scene

/-- How scenes move: by small steps, in any order of the tasks in the line, whatever the time. -/
inductive Moves (invoker : Invoker) : Scene → Scene → Prop
  | work {m m' : Machine} {l : Ledger} : m.step invoker = some m' →
      Moves invoker ⟨m, l⟩ ⟨m', l.record (m.deeds invoker).1 (m.deeds invoker).2⟩
  | wait {m : Machine} {l : Ledger} (time : Nat) : Moves invoker ⟨m, l⟩ ⟨m.passTo time, l⟩
  | reorder {m : Machine} {l : Ledger} {ready : List Nat} : ready.Perm m.ready →
      Moves invoker ⟨m, l⟩ ⟨{ m with ready := ready }, l⟩

/-- Whether some moves lead from one scene to another. -/
def Reaches (invoker : Invoker) : Scene → Scene → Prop := Relation.ReflTransGen (Moves invoker)

/-- A run of a definition that is about to begin. -/
def opening (d : Definition) (input : Store) : Scene := ⟨({} : Machine).launch d input, {}⟩

/-- The only task of a run that is about to begin. -/
theorem task_of_opening {d : Definition} {input : Store} {id : Nat} {task : Task}
    (h : (opening d input).machine.tasks[id]? = some task) :
    id = 0 ∧ task = ⟨0, none, [], .start⟩ := by
  simp only [opening, Machine.launch, List.nil_append, List.getElem?_singleton] at h
  split at h
  · exact ⟨‹_›, (Option.some.inj h).symm⟩
  · cases h

theorem history_opening (d : Definition) (input : Store) :
    (opening d input).ledger.history = [] := rfl

variable {invoker : Invoker} {x y z : Scene}

theorem Reaches.refl : Reaches invoker x x := Relation.ReflTransGen.refl

theorem Reaches.trans (h : Reaches invoker x y) (h' : Reaches invoker y z) : Reaches invoker x z :=
  Relation.ReflTransGen.trans h h'

theorem Moves.reaches (h : Moves invoker x y) : Reaches invoker x y :=
  Relation.ReflTransGen.single h

/-- **Induction over runs.** What holds at first, is kept by every turn, and does not depend on
the line and the timers, holds of every scene that is reached. -/
@[elab_as_elim]
theorem Reaches.induct {motive : Scene → Prop} (h : Reaches invoker x y) (hx : motive x)
    (turn : ∀ {m m' : Machine} {l : Ledger} {id : Nat} {deeds : List Deed},
      Reaches invoker x ⟨m, l⟩ → motive ⟨m, l⟩ → Turn invoker m id deeds m' →
        motive ⟨m', l.record id deeds⟩)
    (same : ∀ {m m' : Machine} {l : Ledger}, m'.tasks = m.tasks → m'.runs = m.runs →
      m'.calls = m.calls → motive ⟨m, l⟩ → motive ⟨m', l⟩) : motive y := by
  induction h with
  | refl => exact hx
  | tail hreach hmove ih =>
    cases hmove with
    | work hstep =>
      obtain ⟨-, -, hturn⟩ := step_turn hstep
      exact turn hreach ih hturn
    | wait time => refine same ?_ ?_ ?_ ih <;> rfl
    | reorder hperm => refine same ?_ ?_ ?_ ih <;> rfl

/-- One move of the scene as the machine makes it: a small step if a task can work, and else to
the next time at which one can. -/
def next (invoker : Invoker) (x : Scene) : Scene :=
  match x.machine.step invoker with
  | some m => ⟨m, x.ledger.record (x.machine.deeds invoker).1 (x.machine.deeds invoker).2⟩
  | none =>
    match x.machine.nextTime? with
    | some time => ⟨x.machine.passTo time, x.ledger⟩
    | none => x

theorem reaches_next : Reaches invoker x (x.next invoker) := by
  unfold next
  split
  · exact Moves.reaches (.work ‹_›)
  · split
    · exact Moves.reaches (.wait _)
    · exact .refl

theorem reaches_iterate (n : Nat) : Reaches invoker x ((next invoker)^[n] x) := by
  induction n generalizing x with
  | zero => exact .refl
  | succ n ih =>
    rw [Function.iterate_succ_apply]
    exact reaches_next.trans ih

end Scene

/-- **A machine only goes through scenes that are reached.** -/
theorem Machine.run_reaches {invoker : Invoker} {wanted : Machine → Bool} {limit : Option Nat}
    {fuel : Nat} {m m' : Machine} (h : Machine.run invoker wanted limit fuel m = some m')
    (l : Ledger) : ∃ l', Scene.Reaches invoker ⟨m, l⟩ ⟨m', l'⟩ := by
  induction fuel generalizing m limit l with
  | zero => cases h
  | succ fuel ih =>
    unfold Machine.run at h
    split at h
    · obtain ⟨l', hl'⟩ := ih h _
      exact ⟨l', (Scene.Moves.work ‹_›).reaches.trans hl'⟩
    · split at h
      · cases h
        exact ⟨l, .refl⟩
      · split at h
        · split at h
          · obtain ⟨l', hl'⟩ := ih h l
            exact ⟨l', (Scene.Moves.wait _).reaches.trans hl'⟩
          · cases h
            exact ⟨l, (Scene.Moves.wait _).reaches⟩
        · obtain ⟨l', hl'⟩ := ih h l
          exact ⟨l', (Scene.Moves.wait _).reaches.trans hl'⟩
        · cases h
          exact ⟨l, (Scene.Moves.wait _).reaches⟩
        · cases h
          exact ⟨l, .refl⟩

end Flowgraph.Run

import Flowgraph.Service.Basic
import Flowgraph.Proofs.Run.Flow

/-!
# Histories of a service

A `Desk` is a service with the list of what has happened at it. `Desk.Moves` lets desks move by
the operations of the service, whatever names, ids, times and random bits these are given, and in
between by the progress of the runs. To wait for a result is two happenings: the call, which looks
the run up, and the answer, which comes at any time once the run is over.

How the runs get on in between is a parameter, such as `Machine.Moves` or `Machine.Flows`. An
operation that runs the machine itself keeps to the second (`result_cases`).

Every act of a history was written down at some desk on the way (`Desk.Reaches.exists_noted`). In
particular **an answer is what the service said of the run when the answer was given**
(`Desk.Reaches.given`).
-/

set_option autoImplicit false

namespace Flowgraph.Service

open Relation (ReflTransGen)
open Run

/-! ### What happens at a service -/

/-- What happens at a service. -/
inductive Act where
  /-- A run was asked for, at a time and with random bits. -/
  | started (request : Request) (clock : Int) (bits : Nat) (answer : Except Error Response)
  /-- The status for an id was asked for. -/
  | asked (id : String) (answer : Except Error RunStatus)
  /-- The run with an id was to be forgotten. -/
  | forgotten (id : String) (answer : Except Error RunStatus)
  /-- The result for an id was asked for: there is a run to wait for, or none. -/
  | called (id : String) (answer : Except Error Nat)
  /-- A call that waited for a run was answered. -/
  | answered (id : String) (run : Nat) (answer : Except Error Final)

/-- A service with what has happened at it, the latest first. -/
structure Desk where
  service : Service
  acts : List Act := []

namespace Desk

/-- A service at which nothing has happened yet. -/
def opened (registry : Activity.Registry) : Desk := { service := { registry := registry } }

/-- Writes down an act. -/
def note (x : Desk) (act : Act) : Desk := { x with acts := act :: x.acts }

/-- Asks for a run, at a time and with random bits. -/
def start (x : Desk) (r : Request) (clock : Int) (bits : Nat) : Desk :=
  match x.service.start clock bits r with
  | .ok (response, s) => ⟨s, .started r clock bits (.ok response) :: x.acts⟩
  | .error e => x.note (.started r clock bits (.error e))

/-- Asks to forget a run. -/
def forget (x : Desk) (id : String) : Desk :=
  match x.service.forget id with
  | .ok (status, s) => ⟨s, .forgotten id (.ok status) :: x.acts⟩
  | .error e => x.note (.forgotten id (.error e))

/-- Puts the machine of the service where it has got to. -/
def proceed (x : Desk) (m : Machine) : Desk :=
  { x with service := { x.service with machine := m } }

/-- How desks move, when runs get on by `progress`. -/
inductive Moves (progress : Machine → Machine → Prop) (x : Desk) : Desk → Prop
  | start (r : Request) (clock : Int) (bits : Nat) : Moves progress x (x.start r clock bits)
  | ask (id : String) : Moves progress x (x.note (.asked id (x.service.status id)))
  | forget (id : String) : Moves progress x (x.forget id)
  | call (id : String) : Moves progress x (x.note (.called id (x.service.find id)))
  | answer {id : String} {run : Nat} : .called id (.ok run) ∈ x.acts →
      x.service.machine.isOver run = true →
      Moves progress x (x.note (.answered id run (x.service.outcome id run)))
  | progress {m : Machine} : progress x.service.machine m → Moves progress x (x.proceed m)

/-- Whether some moves lead from one desk to another. -/
def Reaches (progress : Machine → Machine → Prop) : Desk → Desk → Prop :=
  ReflTransGen (Moves progress)

variable {progress progress' : Machine → Machine → Prop} {x y z : Desk}
  {registry : Activity.Registry} {later earlier : List Act} {act : Act} {id : String} {run : Nat}
  {answer : Except Error Final}

theorem Moves.mono (hle : ∀ m m', progress m m' → progress' m m') (h : Moves progress x y) :
    Moves progress' x y := by
  cases h with
  | start r clock bits => exact .start r clock bits
  | ask id => exact .ask id
  | forget id => exact .forget id
  | call id => exact .call id
  | answer hcalled hover => exact .answer hcalled hover
  | progress hprogress => exact .progress (hle _ _ hprogress)

/-- Desks get everywhere where they get when the runs get on in fewer ways. -/
theorem Reaches.mono (hle : ∀ m m', progress m m' → progress' m m') (h : Reaches progress x y) :
    Reaches progress' x y := ReflTransGen.mono (fun _ _ => Moves.mono hle) x y h

theorem Reaches.trans (h : Reaches progress x y) (h' : Reaches progress y z) :
    Reaches progress x z := ReflTransGen.trans h h'

theorem Moves.reaches (h : Moves progress x y) : Reaches progress x y := .single h

/-- A move writes one act down, or none. -/
theorem Moves.acts_cases (h : Moves progress x y) :
    y.acts = x.acts ∨ ∃ act, y.acts = act :: x.acts := by
  cases h with
  | start =>
    unfold Desk.start
    split <;> exact Or.inr ⟨_, rfl⟩
  | forget =>
    unfold Desk.forget
    split <;> exact Or.inr ⟨_, rfl⟩
  | ask | call | answer => exact Or.inr ⟨_, rfl⟩
  | progress => exact Or.inl rfl

/-- An act was written down before a move, or by it. -/
theorem Moves.noted_cases (h : Moves progress x y) (hacts : y.acts = later ++ act :: earlier) :
    (∃ before, x.acts = before ++ act :: earlier) ∨
      (x.acts = earlier ∧ y.acts = act :: earlier) := by
  rcases h.acts_cases with hsame | ⟨new, hnew⟩
  · exact Or.inl ⟨later, hsame ▸ hacts⟩
  · rw [hnew] at hacts ⊢
    cases later with
    | nil =>
      obtain ⟨rfl, rfl⟩ := List.cons.inj hacts
      exact Or.inr ⟨rfl, rfl⟩
    | cons last later => exact Or.inl ⟨later, (List.cons.inj hacts).2⟩

/-- **Every act was written down at some desk on the way.** -/
theorem Reaches.exists_noted (h : Reaches progress (opened registry) x)
    (hacts : x.acts = later ++ act :: earlier) :
    ∃ y y', Reaches progress (opened registry) y ∧ y.acts = earlier ∧ Moves progress y y' ∧
      y'.acts = act :: earlier ∧ Reaches progress y' x := by
  induction h generalizing later with
  | refl => exact absurd hacts.symm (by simp [opened])
  | @tail y z hreach hmoves ih =>
    rcases hmoves.noted_cases hacts with ⟨before, hold⟩ | ⟨hearlier, hnow⟩
    · obtain ⟨first, next, hfirst, hearlier, hmove, hnext, hlater⟩ := ih hold
      exact ⟨first, next, hfirst, hearlier, hmove, hnext, hlater.trans hmoves.reaches⟩
    · exact ⟨y, z, hreach, hearlier, hmoves, hnow, .refl⟩

/-- The move that writes an answer down finds the run over, and says how it has ended. -/
theorem Moves.answered (h : Moves progress x y)
    (hacts : y.acts = .answered id run answer :: x.acts) :
    x.service.machine.isOver run = true ∧ answer = x.service.outcome id run := by
  cases h with
  | start =>
    unfold Desk.start at hacts
    split at hacts <;> cases hacts
  | forget =>
    unfold Desk.forget at hacts
    split at hacts <;> cases hacts
  | ask | call => cases hacts
  | answer hcalled hover =>
    cases hacts
    exact ⟨hover, rfl⟩
  | progress => exact absurd hacts List.ne_cons_self

/-- **An answer was given at a desk on the way**, when the run was over, and says how it had
ended. -/
theorem Reaches.given (h : Reaches progress (opened registry) x)
    (hacts : x.acts = later ++ .answered id run answer :: earlier) :
    ∃ y, Reaches progress (opened registry) y ∧ Reaches progress y x ∧ y.acts = earlier ∧
      y.service.machine.isOver run = true ∧ answer = y.service.outcome id run := by
  obtain ⟨y, y', hy, hearlier, hmoves, hnoted, hlater⟩ := h.exists_noted hacts
  obtain ⟨hover, hanswer⟩ := hmoves.answered (hearlier ▸ hnoted)
  exact ⟨y, hy, hmoves.reaches.trans hlater, hearlier, hover, hanswer⟩

/-- Desks move along while the runs get on. -/
theorem Reaches.proceed {m : Machine} (h : ReflTransGen progress x.service.machine m) :
    Reaches progress x (x.proceed m) := by
  induction h with
  | refl => exact .refl
  | tail _ hprogress ih => exact .tail ih (.progress hprogress)

/-- Asks for the result of a run that is over, and gets it. -/
def collect (x : Desk) (id : String) (run : Nat) : Desk :=
  (x.note (.called id (.ok run))).note (.answered id run (x.service.outcome id run))

theorem Reaches.collect (hfind : x.service.find id = .ok run)
    (hover : x.service.machine.isOver run = true) : Reaches progress x (x.collect id run) := by
  have hcalled : Reaches progress x (x.note (.called id (x.service.find id))) :=
    (Moves.call id).reaches
  rw [hfind] at hcalled
  have hmem : Act.called id (.ok run) ∈ (x.note (.called id (.ok run))).acts := by
    simp [Desk.note]
  exact hcalled.trans (Moves.answer hmem hover).reaches

end Desk

/-! ### Waiting for a result in one go -/

variable {s s' : Service} {invoker : Invoker} {fuel : Nat} {id : String}

/-- **What a call for a result comes to.** There is no run, or the machine flows to where the
answer is given: the run is over, or nothing is left to do. -/
theorem result_cases {answer : Except Error Final}
    (h : s.result invoker fuel id = some (answer, s')) :
    (∃ e, s.find id = .error e ∧ answer = .error e ∧ s' = s) ∨
      ∃ run m, s.find id = .ok run ∧ ReflTransGen (Machine.Flows invoker) s.machine m ∧
        (m.isOver run = true ∨ m.Quiet) ∧ s' = { s with machine := m } ∧
        answer = s'.outcome id run := by
  unfold result at h
  cases hfind : s.find id with
  | error e =>
    rw [hfind] at h
    cases h
    exact Or.inl ⟨e, rfl, rfl, rfl⟩
  | ok run =>
    rw [hfind] at h
    dsimp only at h
    right
    split at h
    case isTrue hover =>
      cases h
      exact ⟨run, s.machine, rfl, .refl, Or.inl hover, rfl, rfl⟩
    case isFalse =>
      obtain ⟨m, hrun, hanswer⟩ := Option.map_eq_some_iff.1 h
      cases hanswer
      exact ⟨run, m, rfl, Machine.run_flows hrun, (Machine.run_iterate hrun).2, rfl, rfl⟩

/-- Waiting for a result in one go is some progress of the runs, after which the call for the result
is made and answered. -/
theorem Desk.Reaches.result {x : Desk} {answer : Except Error Final} {run : Nat}
    (h : x.service.result invoker fuel id = some (answer, s'))
    (hfind : x.service.find id = .ok run) :
    Reaches (Machine.Flows invoker) x { x with service := s' } ∧ answer = s'.outcome id run ∧
      s'.entries = x.service.entries := by
  rcases result_cases h with ⟨e, herror, -⟩ | ⟨other, m, hother, hflows, -, rfl, hanswer⟩
  · rw [hfind] at herror
    cases herror
  · rw [hfind] at hother
    cases hother
    exact ⟨Reaches.proceed hflows, hanswer, rfl⟩

end Flowgraph.Service

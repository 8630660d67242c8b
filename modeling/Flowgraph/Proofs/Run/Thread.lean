import Flowgraph.Proofs.Run.Brackets
import Flowgraph.Proofs.Run.Confluence
import Flowgraph.Proofs.Run.Rounds

/-!
# Runs with one branch at a time

If no step has more than one branch, one task of a run works at a time. The others have stopped,
or each of them waits for the next one, which does its branch. So there is a single thread through
the tasks, whose frames are those of all the tasks that are not over: where one task comes back to
the other, nothing of the step with the branch is left to be done, as at the end of a sequence
(`Waits`).

`Leap` says how such a thread goes on, without tasks and timers. Each leap of the thread takes the
machine some small steps (`Single.leap`): a branch is started, lets the task that it was started
from have a turn for nothing, and tells that task about its end; an activity is waited for.
-/

set_option autoImplicit false

namespace Flowgraph.Run

open Machine (follow)

/-! ### Leaps of a thread -/

/-- How the journal, the frames and the control of a thread go on. -/
inductive Leap (d : Definition) (invoker : Invoker) :
    Journal → List Frame → Control → Journal → List Frame → Control → Prop
  /-- An activity is performed. -/
  | perform {j j' : Journal} {frames : List Frame} {step : Step} {c : Call} {outcome : Outcome} :
      step.work = .activity c →
      Stage.perform invoker step c (j.start step) = some (j', outcome) →
      Leap d invoker j frames (.enter step) j' (.finish step :: frames) (.leave outcome)
  /-- A sequence begins. -/
  | sequence {j : Journal} {frames : List Frame} {step : Step} {ids : List String} :
      step.work = .sequence ids →
      Leap d invoker j frames (.enter step)
        (j.start step) (.sequence ids :: .finish step :: frames) (.leave .done)
  /-- There is no branch. -/
  | branchless {j : Journal} {frames : List Frame} {step : Step} : step.work = .parallel [] →
      Leap d invoker j frames (.enter step) (j.start step) (.finish step :: frames) (.leave .done)
  /-- The branch begins. -/
  | branch {j : Journal} {frames : List Frame} {step first : Step} {id : String} :
      step.work = .parallel [id] → d.find? id = some first →
      Leap d invoker j frames (.enter step)
        (j.start step) (.sequence [] :: .finish step :: frames) (.enter first)
  /-- A condition is decided. -/
  | condition {j : Journal} {frames : List Frame} {step : Step} {choice : Choice} :
      step.work = .condition choice →
      Leap d invoker j frames (.enter step) (j.start step) (.finish step :: frames)
        ((if Condition.holds choice.arguments j.store then choice.onSuccess
          else choice.onFailure).elim (.leave .done) (follow d))
  /-- A step that has succeeded is left for its next one. -/
  | next {j : Journal} {frames : List Frame} {step : Step} :
      Leap d invoker j (.finish step :: frames) (.leave .done)
        (j.finish step .done) frames (step.next.elim (.leave .done) (follow d))
  /-- A step that has failed is left. -/
  | finish {j : Journal} {frames : List Frame} {step : Step} {failure : Failure} :
      Leap d invoker j (.finish step :: frames) (.leave (.failed failure))
        (j.finish step (.failed failure)) frames (.leave (.failed failure))
  /-- A sequence goes on with its next child. -/
  | child {j : Journal} {frames : List Frame} {target : String} {rest : List String} :
      Leap d invoker j (.sequence (target :: rest) :: frames) (.leave .done)
        j (.sequence rest :: frames) (follow d target)
  /-- A sequence is over, or broken off; or the branch is. -/
  | closed {j : Journal} {frames : List Frame} {rest : List String} {outcome : Outcome} :
      (outcome = .done → rest = []) →
      Leap d invoker j (.sequence rest :: frames) (.leave outcome) j frames (.leave outcome)

/-- What a thread does between its leaps. -/
def Control.Live (d : Definition) : Control → Prop
  | .enter step => step ∈ d.steps
  | .leave outcome => ∀ payload, outcome ≠ .panicked payload
  | _ => False

/-- What a thread begins with. -/
def Control.opening (d : Definition) : Control :=
  match d.rootStep? with
  | some root => .enter root
  | none => .leave (.failed (.rootNotFound d.root))

section

variable {d : Definition} {invoker : Invoker} {stop : Bool} {j j' : Journal}
  {frames frames' : List Frame} {control control' : Control}

theorem live_follow (target : String) : (follow d target).Live d := by
  unfold follow
  cases hfind : d.find? target with
  | none => exact nofun
  | some step => exact Definition.find?_mem hfind

theorem Control.live_opening : (Control.opening d).Live d := by
  unfold Control.opening
  cases hroot : d.rootStep? with
  | none => exact nofun
  | some root => exact Definition.find?_mem hroot

theorem live_elim (target : Option String) :
    (target.elim (.leave .done) (follow d) : Control).Live d := by
  cases target with
  | none => exact nofun
  | some target => exact live_follow target

/-- The outcome of an activity that does not panic. -/
theorem perform_live {step : Step} {c : Call} {outcome : Outcome} (hcalm : invoker.Calm)
    (h : Stage.perform invoker step c j = some (j', outcome)) (payload : Payload) :
    outcome ≠ .panicked payload := by
  unfold Stage.perform at h
  split at h
  · cases h
    exact nofun
  · obtain ⟨result, hresult⟩ := hcalm j.calls ⟨c.activity, c.arguments.resolve j.store⟩
    dsimp only at h
    rw [hresult] at h
    cases h
    split <;> exact nofun

/-- A thread does not panic. -/
theorem Leap.live (hcalm : invoker.Calm)
    (h : Leap d invoker j frames control j' frames' control') (hlive : control.Live d) :
    control'.Live d := by
  cases h with
  | perform _ hperform => exact perform_live hcalm hperform
  | sequence _ => exact nofun
  | branchless _ => exact nofun
  | branch _ hfind => exact Definition.find?_mem hfind
  | condition _ => exact live_elim _
  | next => exact live_elim _
  | finish => exact nofun
  | child => exact live_follow _
  | closed _ => exact hlive

/-- A thread goes on until all its frames are left. -/
theorem exists_leap (invoker : Invoker) (j : Journal) (hnarrow : d.Narrow)
    (hbranched : d.Branched) (hlive : control.Live d)
    (hmore : frames = [] → ∀ outcome, control ≠ .leave outcome) :
    ∃ j' frames' control', Leap d invoker j frames control j' frames' control' := by
  cases control with
  | enter step =>
    have hmem : step ∈ d.steps := hlive
    cases hwork : step.work with
    | activity c =>
      obtain ⟨⟨j', outcome⟩, hperform⟩ := perform_exists invoker step c (j.start step)
      exact ⟨_, _, _, .perform hwork hperform⟩
    | sequence ids => exact ⟨_, _, _, .sequence hwork⟩
    | condition choice => exact ⟨_, _, _, .condition hwork⟩
    | parallel ids =>
      match ids, hnarrow step hmem ids hwork with
      | [], _ => exact ⟨_, _, _, .branchless hwork⟩
      | [id], _ =>
        have hid : id ∈ d.ids := hbranched step hmem [id] hwork id (List.mem_singleton_self id)
        obtain ⟨first, hfind⟩ := Option.isSome_iff_exists.1 (Definition.find?_isSome_iff.2 hid)
        exact ⟨_, _, _, .branch hwork hfind⟩
  | leave outcome =>
    cases frames with
    | nil => exact absurd rfl (hmore rfl outcome)
    | cons frame frames =>
      cases frame with
      | finish step =>
        cases outcome with
        | done => exact ⟨_, _, _, .next⟩
        | failed failure => exact ⟨_, _, _, .finish⟩
        | panicked payload => exact absurd rfl (hlive payload)
      | sequence rest =>
        cases outcome with
        | done =>
          cases rest with
          | nil => exact ⟨_, _, _, .closed fun _ => rfl⟩
          | cons target rest => exact ⟨_, _, _, .child⟩
        | failed failure => exact ⟨_, _, _, .closed nofun⟩
        | panicked payload => exact absurd rfl (hlive payload)
  | _ => exact hlive.elim

/-! ### The tasks of a thread -/

/-- The tasks that wait, from `parent` on, each for the next one to do its branch, and the frames
that the thread comes back to when it is over. They are among the first so many tasks. -/
inductive Waits (tasks : List Task) : Nat → Option Nat → List Frame → Prop
  | nobody {bound : Nat} : Waits tasks bound none []
  | caller {bound id : Nat} {parent : Option Nat} {step : Step} {frames outer : List Frame} :
      id < bound → tasks[id]? = some ⟨0, parent, .finish step :: frames, .join step 1 []⟩ →
      Waits tasks id parent outer →
      Waits tasks bound (some id) (.sequence [] :: .finish step :: (frames ++ outer))

/-- The task `id` works, and all others have stopped or wait for it. The one that waits for it
may still be in line behind it. -/
structure Thread (tasks : List Task) (rest : List Nat) (id : Nat) (parent : Option Nat)
    (own outer : List Frame) (control : Control) : Prop where
  task : tasks[id]? = some ⟨0, parent, own, control⟩
  behind : rest = [] ∨ rest = parent.toList
  waits : Waits tasks id parent outer

/-- Whether a single thread with these frames and this control goes through a machine. -/
inductive Single (d : Definition) (j : Journal) (frames : List Frame) (control : Control)
    (m : Machine) : Prop
  | intro {tasks : List Task} {rest : List Nat} {id : Nat} {parent : Option Nat}
      {own outer : List Frame} (thread : Thread tasks rest id parent own outer control)
      (frames_eq : frames = own ++ outer) (machine_eq : m = j.pool d tasks (id :: rest))

variable {m : Machine} {tasks tasks' : List Task} {rest : List Nat} {id bound p : Nat}
  {parent : Option Nat} {own own' outer : List Frame} {frame : Frame} {step : Step}
  {outcome : Outcome}

namespace Waits

theorem congr (h : Waits tasks bound parent outer)
    (hsame : ∀ i, i < bound → tasks'[i]? = tasks[i]?) : Waits tasks' bound parent outer := by
  induction h with
  | nobody => exact .nobody
  | caller hlt htask _ ih =>
    exact .caller hlt ((hsame _ hlt).trans htask) (ih fun i hi => hsame i (hi.trans hlt))

/-- The task that waits for the last one has nothing to do. -/
theorem spare (h : Waits tasks bound parent outer) : Spare tasks parent.toList := by
  intro p hp
  obtain rfl := Option.mem_toList.1 hp
  cases h with
  | caller _ htask _ => exact ⟨_, htask, rfl, rfl⟩

/-- Where a thread comes back to a task that waits, nothing is left of a sequence. -/
theorem outer_cases (h : Waits tasks bound parent outer) :
    outer = [] ∨ ∃ frames, outer = .sequence [] :: frames := by
  cases h with
  | nobody => exact Or.inl rfl
  | caller _ _ _ => exact Or.inr ⟨_, rfl⟩

end Waits

namespace Thread

theorem lt (h : Thread tasks rest id parent own outer control) : id < tasks.length :=
  lt_of_getElem? h.task

/-- The task goes on. -/
theorem set (h : Thread tasks rest id parent own outer control) :
    Thread (tasks.set id ⟨0, parent, own', control'⟩) rest id parent own' outer control' where
  task := List.getElem?_set_self h.lt
  behind := h.behind
  waits := h.waits.congr fun _ hi => List.getElem?_set_ne (Nat.ne_of_gt hi)

/-- The task goes on, and none is in line behind it. -/
theorem alone (h : Thread tasks rest id parent own outer control) :
    Thread tasks [] id parent own outer control where
  task := h.task
  behind := Or.inl rfl
  waits := h.waits

/-- What is in line behind the task has nothing to do, whatever becomes of the task. -/
theorem spare (h : Thread tasks rest id parent own outer control) (task : Task) :
    Spare (tasks.set id task) rest := by
  rcases h.behind with rfl | rfl
  · exact List.forall_mem_nil _
  · exact (h.waits.congr fun _ hi => List.getElem?_set_ne (Nat.ne_of_gt hi)).spare

/-- A frame that no task comes back to is one of the task itself. -/
theorem own_cons (h : Thread tasks rest id parent own outer control)
    (hframes : frame :: frames = own ++ outer) (hne : frame ≠ .sequence []) :
    ∃ own', own = frame :: own' ∧ frames = own' ++ outer := by
  cases own with
  | nil =>
    rcases h.waits.outer_cases with rfl | ⟨outer, rfl⟩
    · cases hframes
    · cases hframes
      exact absurd rfl hne
  | cons first own' =>
    cases hframes
    exact ⟨own', rfl, rfl⟩

/-- The task is moved in a round. -/
theorem single (h : Thread tasks rest id parent own outer control)
    (hrounds : Rounds invoker stop 1 (j.pool d tasks (id :: rest))
      (j'.pool d (tasks.set id ⟨0, parent, own', control'⟩) (id :: rest)))
    (hframes : frames' = own' ++ outer) :
    ∃ k m, Rounds invoker stop (k + 1) (j.pool d tasks (id :: rest)) m ∧
      Single d j' frames' control' m :=
  ⟨0, _, hrounds, .intro h.set hframes rfl⟩

/-- **An activity is performed.** -/
theorem perform (h : Thread tasks rest id parent own outer (.enter step)) {c : Call}
    (hwork : step.work = .activity c)
    (hperform : Stage.perform invoker step c (j.start step) = some (j', outcome)) :
    ∃ k m, Rounds invoker stop (k + 1) (j.pool d tasks (id :: rest)) m ∧
      Single d j' (.finish step :: (own ++ outer)) (.leave outcome) m := by
  obtain ⟨k, line, hline, hrounds⟩ := perform_pool h.task hwork hperform h.spare
  rcases hline with rfl | rfl
  · exact ⟨k, _, hrounds, .intro h.set rfl rfl⟩
  · exact ⟨k, _, hrounds, .intro h.set.alone rfl rfl⟩

/-- The task waits for a branch, which is the last one of the tasks. -/
theorem forked (h : Thread tasks rest id parent own outer control) {first : Step} :
    Thread (tasks.set id ⟨0, parent, .finish step :: own, .join step 1 []⟩ ++
        [⟨0, some id, [], .enter first⟩]) [id] tasks.length (some id) []
      (.sequence [] :: .finish step :: (own ++ outer)) (.enter first) := by
  have hbefore {i : Nat} (hi : i < tasks.length) :
      (tasks.set id ⟨0, parent, .finish step :: own, .join step 1 []⟩ ++
        [⟨0, some id, [], .enter first⟩])[i]? =
          (tasks.set id ⟨0, parent, .finish step :: own, .join step 1 []⟩)[i]? :=
    List.getElem?_append_left (by rwa [List.length_set])
  constructor
  case task => simp
  case behind => exact Or.inr rfl
  case waits =>
    refine .caller h.lt ((hbefore h.lt).trans (List.getElem?_set_self h.lt)) ?_
    exact h.waits.congr fun i hi =>
      (hbefore (hi.trans h.lt)).trans (List.getElem?_set_ne (Nat.ne_of_gt hi))

/-- **A branch is started.** The task that waits for the one at work has a turn for nothing first
if it is in line. -/
theorem branch (h : Thread tasks rest id parent own outer (.enter step)) {target : String}
    {first : Step} (hwork : step.work = .parallel [target]) (hfind : d.find? target = some first) :
    ∃ k m, Rounds invoker stop (k + 1) (j.pool d tasks (id :: rest)) m ∧
      Single d (j.start step) (.sequence [] :: .finish step :: (own ++ outer)) (.enter first) m := by
  refine ⟨rest.length, _, ?_, .intro h.forked rfl rfl⟩
  rw [Nat.add_comm]
  exact (fork_pool h.task hwork hfind).append
    (spare_rounds (m := (j.start step).pool d _ rest) rfl (h.spare _).append)

/-- **A branch is over**, and the task that has waited for it takes over what has become of it. -/
theorem back (h : Thread tasks rest id (some p) [] outer (.leave outcome))
    (hcalm : ∀ payload, outcome ≠ .panicked payload) :
    ∃ frames, outer = .sequence [] :: frames ∧
      ∃ k m, Rounds invoker stop (k + 1) (j.pool d tasks (id :: rest)) m ∧
        Single d j frames (.leave outcome) m := by
  obtain ⟨htask, hbehind, hwaits⟩ := h
  cases hwaits with
  | @caller _ _ grand step frames outer hlt hparent hwaits =>
    have hthread : Thread ((tasks.set id ⟨0, some p, [], .stopped⟩).set p
        ⟨0, grand, .finish step :: frames, .leave outcome⟩) [] p grand (.finish step :: frames)
          outer (.leave outcome) := by
      constructor
      case task => exact List.getElem?_set_self (by simpa using lt_of_getElem? hparent)
      case behind => exact Or.inl rfl
      case waits =>
        exact hwaits.congr fun i hi => (List.getElem?_set_ne (Nat.ne_of_gt hi)).trans
          (List.getElem?_set_ne (Nat.ne_of_gt (hi.trans hlt)))
    exact ⟨_, rfl, 1, _, return_pool hcalm htask hparent (Nat.ne_of_gt hlt) hbehind,
      .intro hthread rfl rfl⟩

end Thread

/-- A run begins with a thread in its only task. -/
theorem Single.launch (d : Definition) (input : Store) :
    ∃ m, Rounds invoker stop 1 (({} : Machine).launch d input) m ∧
      Single d (({ store := input } : Journal).note (.report (.runStarted d.name ()))) []
        (.opening d) m := by
  have hthread : Thread [⟨0, none, [], .opening d⟩] [] 0 none [] [] (.opening d) :=
    ⟨rfl, Or.inl rfl, .nobody⟩
  exact ⟨_, launch_pool, .intro hthread rfl rfl⟩

/-- **The machine follows its thread.** -/
theorem Single.leap (hm : Single d j frames control m) (hlive : control.Live d)
    (h : Leap d invoker j frames control j' frames' control') :
    ∃ k m', Rounds invoker stop (k + 1) m m' ∧ Single d j' frames' control' m' := by
  cases hm with
  | @intro tasks rest id parent own outer thread hframes hmachine =>
  subst hmachine
  cases h with
  | perform hwork hperform =>
    subst hframes
    exact thread.perform hwork hperform
  | sequence hwork =>
    subst hframes
    exact thread.single (sequence_pool thread.task hwork) rfl
  | branchless hwork =>
    subst hframes
    exact thread.single (branchless_pool thread.task hwork) rfl
  | branch hwork hfind =>
    subst hframes
    exact thread.branch hwork hfind
  | condition hwork =>
    subst hframes
    exact thread.single (condition_pool thread.task hwork) rfl
  | next =>
    obtain ⟨own', rfl, rfl⟩ := thread.own_cons hframes nofun
    exact thread.single (next_pool thread.task) rfl
  | finish =>
    obtain ⟨own', rfl, rfl⟩ := thread.own_cons hframes nofun
    exact thread.single (finish_pool thread.task nofun) rfl
  | child =>
    obtain ⟨own', rfl, rfl⟩ := thread.own_cons hframes nofun
    exact thread.single (child_pool thread.task) rfl
  | closed hdone =>
    cases own with
    | nil =>
      obtain rfl : outer = _ := hframes.symm
      cases parent with
      | none => cases thread.waits
      | some p =>
        obtain ⟨frames, hsame, hback⟩ := thread.back hlive
        cases hsame
        exact hback
    | cons frame own =>
      cases hframes
      exact thread.single (closed_pool thread.task hdone) rfl

/-- The machine in which a thread ends has come to its end in a round. -/
theorem Single.ends (hm : Single d j [] (.leave outcome) m) :
    ∃ tasks, Rounds invoker stop 1 m ((j.complete outcome).over d tasks outcome) := by
  obtain ⟨⟨htask, hbehind, hwaits⟩, hframes, rfl⟩ := hm
  obtain ⟨rfl, rfl⟩ := List.append_eq_nil_iff.1 hframes.symm
  cases hwaits
  obtain rfl := or_self_iff.1 hbehind
  exact ⟨_, stop_pool htask⟩

end

end Flowgraph.Run

import Flowgraph.Proofs.Run.Thread

/-!
# Steps with one branch

A step with a single branch does what a sequence of one child does. For the branch a task is
started, and the task of the step waits to be told about its end; a sequence follows its child in
the same task. Where no step has more than one branch, and all branches exist, this makes no
difference to what is seen of a run, but for the kind that the events name (`run_inSequence`).

Both definitions have runs of a single thread. Each leap of the thread through the definition with
branches is one or two leaps of the thread through the other one (`Leap.inSequence`), so that the
two machines keep in step (`Twins.together`).
-/

set_option autoImplicit false

namespace Flowgraph

/-- Work with its branches done one after another. -/
def Work.inSequence : Work → Work
  | .parallel branches => .sequence branches
  | work => work

/-- A step with its branches done one after another. -/
def Step.inSequence (step : Step) : Step := { step with work := step.work.inSequence }

/-- A definition with a sequence for each step with branches. -/
def Definition.inSequence (d : Definition) : Definition :=
  { d with steps := d.steps.map Step.inSequence }

/-- The kind of the step that does in sequence what one of a kind does. -/
def Work.kindInSequence (kind : String) : String := if kind = "parallel" then "sequence" else kind

/-- An event of a run in which branches are done one after another. -/
def Event.inSequence {τ : Type} : Event τ → Event τ
  | .stepStarted id kind => .stepStarted id (Work.kindInSequence kind)
  | .stepFinished id kind status error => .stepFinished id (Work.kindInSequence kind) status error
  | event => event

namespace Run

open Machine (follow)

/-- What is seen of a run in which branches are done one after another. -/
def View.inSequence (view : View) : View :=
  { view with events := view.events.map (·.map Event.inSequence) }

/-! ### The parts of a thread in sequence -/

/-- A frame for a definition without branches. -/
def Frame.inSequence : Frame → Frame
  | .finish step => .finish step.inSequence
  | .sequence rest => .sequence rest

/-- What a thread does in a definition without branches. -/
def Control.inSequence : Control → Control
  | .enter step => .enter step.inSequence
  | control => control

/-- A note on a run in which branches are done one after another. -/
def Note.inSequence : Note → Note
  | .report event => .report event.inSequence
  | .call invocation delay => .call invocation delay

/-- The journal of a run in which branches are done one after another. -/
def Journal.inSequence (j : Journal) : Journal := { j with notes := j.notes.map Note.inSequence }

section

variable {d : Definition} {invoker : Invoker} {stop : Bool} {j j' : Journal} {step : Step}
  {frames frames' : List Frame} {control control' : Control} {outcome : Outcome} {m m' : Machine}

theorem kind_inSequence (work : Work) :
    work.inSequence.kind = Work.kindInSequence work.kind := by
  cases work <;> rfl

/-- Steps are found as before. -/
theorem find?_inSequence (id : String) :
    d.inSequence.find? id = (d.find? id).map Step.inSequence := List.find?_map

theorem follow_inSequence (target : String) :
    follow d.inSequence target = (follow d target).inSequence := by
  unfold follow
  rw [find?_inSequence]
  cases d.find? target <;> rfl

theorem opening_inSequence : Control.opening d.inSequence = (Control.opening d).inSequence := by
  have hroot : d.inSequence.rootStep? = d.rootStep?.map Step.inSequence := find?_inSequence d.root
  unfold Control.opening
  rw [hroot]
  cases d.rootStep? <;> rfl

theorem elim_inSequence (target : Option String) :
    target.elim (.leave .done) (follow d.inSequence) =
      (target.elim (.leave .done) (follow d) : Control).inSequence := by
  cases target with
  | none => rfl
  | some target => exact follow_inSequence target

namespace Journal

@[simp] theorem calls_inSequence : j.inSequence.calls = j.calls := by
  rw [calls, calls, inSequence, List.filterMap_map]
  exact List.filterMap_congr fun n _ => by cases n <;> rfl

@[simp] theorem elapsed_inSequence : j.inSequence.elapsed = j.elapsed := by
  rw [elapsed, elapsed, inSequence, List.map_map]
  exact congrArg List.sum (List.map_congr_left fun n _ => by cases n <;> rfl)

@[simp] theorem events_inSequence : j.inSequence.events = j.events.map Event.inSequence := by
  rw [events, events, inSequence, List.filterMap_map, List.map_filterMap]
  exact List.filterMap_congr fun n _ => by cases n <;> rfl

@[simp] theorem store_inSequence : j.inSequence.store = j.store := rfl

theorem note_inSequence {n : Note} : (j.note n).inSequence = j.inSequence.note n.inSequence := by
  simp [note, inSequence]

theorem start_inSequence : (j.start step).inSequence = j.inSequence.start step.inSequence := by
  rw [start, note_inSequence, start, Step.inSequence, kind_inSequence]
  rfl

theorem finish_inSequence :
    (j.finish step outcome).inSequence = j.inSequence.finish step.inSequence outcome := by
  cases outcome with
  | panicked payload => rfl
  | _ =>
    rw [finish, note_inSequence, finish, Step.inSequence, kind_inSequence]
    rfl

theorem complete_inSequence : (j.complete outcome).inSequence = j.inSequence.complete outcome := by
  cases outcome with
  | panicked payload => rfl
  | _ => exact note_inSequence

theorem view_inSequence : j.inSequence.view outcome = (j.view outcome).inSequence := by
  simp [view, View.inSequence]

end Journal

/-- An activity does not see the difference. -/
theorem perform_inSequence {c : Call}
    (h : Stage.perform invoker step c j = some (j', outcome)) :
    Stage.perform invoker step.inSequence c j.inSequence = some (j'.inSequence, outcome) := by
  unfold Stage.perform at h ⊢
  by_cases hname : Text.blank c.activity
  · rw [if_pos hname] at h ⊢
    cases h
    rfl
  · rw [if_neg hname] at h ⊢
    rw [Journal.calls_inSequence, Journal.store_inSequence]
    dsimp only at h ⊢
    generalize invoker j.calls ⟨c.activity, c.arguments.resolve j.store⟩ = reply at h ⊢
    cases hending : reply.ending with
    | panic payload =>
      rw [hending] at h
      cases h
      rw [Journal.note_inSequence]
      rfl
    | result r =>
      rw [hending] at h
      cases h
      simp [Journal.inSequence, Journal.note, Note.inSequence, Step.inSequence]

theorem Control.Live.inSequence (h : control.Live d) : control.inSequence.Live d.inSequence := by
  cases control with
  | enter step => exact List.mem_map_of_mem h
  | leave outcome => exact h
  | _ => exact h.elim

/-! ### Leaps in sequence -/

/-- **A leap through a definition is one through the definition without branches**, or, where a
step with branches begins, it is two: the sequence begins, and its child, if it has one. -/
theorem Leap.inSequence (h : Leap d invoker j frames control j' frames' control') :
    Leap d.inSequence invoker j.inSequence (frames.map Frame.inSequence) control.inSequence
        j'.inSequence (frames'.map Frame.inSequence) control'.inSequence ∨
      ∃ between, Leap d.inSequence invoker j.inSequence (frames.map Frame.inSequence)
          control.inSequence j'.inSequence between (.leave .done) ∧
        Leap d.inSequence invoker j'.inSequence between (.leave .done)
          j'.inSequence (frames'.map Frame.inSequence) control'.inSequence := by
  cases h with
  | perform hwork hperform =>
    have hperform := perform_inSequence hperform
    rw [Journal.start_inSequence] at hperform
    exact Or.inl (.perform (congrArg Work.inSequence hwork) hperform)
  | sequence hwork =>
    rw [Journal.start_inSequence]
    exact Or.inl (.sequence (congrArg Work.inSequence hwork))
  | branchless hwork =>
    rw [Journal.start_inSequence]
    exact Or.inr ⟨_, .sequence (congrArg Work.inSequence hwork), .closed fun _ => rfl⟩
  | @branch _ step first id hwork hfind =>
    have hfollow : (Control.enter first).inSequence = follow d.inSequence id := by
      rw [follow_inSequence, follow, hfind]
    rw [Journal.start_inSequence, hfollow]
    exact Or.inr ⟨_, .sequence (congrArg Work.inSequence hwork), .child⟩
  | condition hwork =>
    rw [Journal.start_inSequence, ← elim_inSequence]
    exact Or.inl (.condition (congrArg Work.inSequence hwork))
  | next =>
    rw [Journal.finish_inSequence, ← elim_inSequence]
    exact Or.inl .next
  | finish =>
    rw [Journal.finish_inSequence]
    exact Or.inl .finish
  | child =>
    rw [← follow_inSequence]
    exact Or.inl .child
  | closed hdone => exact Or.inl (.closed hdone)

/-- The machine follows the leaps of the other definition in sequence. -/
theorem Single.leap_inSequence
    (hm : Single d.inSequence j.inSequence (frames.map Frame.inSequence) control.inSequence m)
    (hlive : control.Live d) (h : Leap d invoker j frames control j' frames' control') :
    ∃ k m', Rounds invoker stop (k + 1) m m' ∧
      Single d.inSequence j'.inSequence (frames'.map Frame.inSequence) control'.inSequence m' := by
  rcases h.inSequence with hleap | ⟨between, hfirst, hsecond⟩
  · exact hm.leap hlive.inSequence hleap
  · obtain ⟨k, middle, hrounds, hmiddle⟩ := hm.leap hlive.inSequence hfirst
    obtain ⟨k', m', hrounds', hm'⟩ := hmiddle.leap nofun hsecond
    exact ⟨k + 1 + k', m', hrounds.append hrounds', hm'⟩

/-! ### Both machines -/

/-- Two machines: one runs a definition, and the other one does the same in sequence. -/
inductive Twins (d : Definition) : Machine → Machine → Prop
  | launched {input : Store} :
      Twins d (({} : Machine).launch d input) (({} : Machine).launch d.inSequence input)
  | threads {j : Journal} {frames : List Frame} {control : Control} {m m' : Machine} :
      control.Live d → Single d j frames control m →
      Single d.inSequence j.inSequence (frames.map Frame.inSequence) control.inSequence m' →
      Twins d m m'

/-- **The two machines keep in step.** -/
theorem Twins.together (hnarrow : d.Narrow) (hbranched : d.Branched) (hcalm : invoker.Calm)
    (h : Twins d m m') :
    Together invoker stop (Twins d) (fun view view' => view.inSequence = view') m m' := by
  cases h with
  | @launched input =>
    obtain ⟨m, hrounds, hm⟩ := Single.launch d input
    obtain ⟨m', hrounds', hm'⟩ := Single.launch d.inSequence input
    rw [opening_inSequence] at hm'
    exact .onward hrounds hrounds' (.threads Control.live_opening hm hm')
  | @threads j frames control _ _ hlive hm hm' =>
    by_cases hover : frames = [] ∧ ∃ outcome, control = .leave outcome
    · obtain ⟨rfl, outcome, rfl⟩ := hover
      obtain ⟨tasks, hend⟩ := hm.ends
      obtain ⟨tasks', hend'⟩ := hm'.ends
      refine .ended hend hend' ?_
      rw [← Journal.complete_inSequence, Journal.view_inSequence]
    · obtain ⟨j', frames', control', hleap⟩ := exists_leap invoker j hnarrow hbranched hlive
        fun hnil outcome hleave => hover ⟨hnil, outcome, hleave⟩
      obtain ⟨k, after, hrounds, hafter⟩ := hm.leap hlive hleap
      obtain ⟨k', after', hrounds', hafter'⟩ := hm'.leap_inSequence hlive hleap
      exact .onward hrounds hrounds' (.threads (hleap.live hcalm hlive) hafter hafter')

/-- **A step with one branch is a sequence.** Where no step has more than one branch, all branches
exist and no activity panics, a run comes to an end just if it does so with a sequence in place of
each step with a branch. Then the calls with their arguments, the time that has passed, the
variables and the outcome are the same, and so are the events, but for the kind of the steps that
are sequences now. -/
theorem run_inSequence (hnarrow : d.Narrow) (hbranched : d.Branched) (hcalm : invoker.Calm)
    (input : Store) (stop : Bool) (view : View) :
    (∃ fuel e, Machine.run invoker (Machine.wanted stop) none fuel
        (({} : Machine).launch d input) = some e ∧ e.view.inSequence = view) ↔
      ∃ fuel e, Machine.run invoker (Machine.wanted stop) none fuel
        (({} : Machine).launch d.inSequence input) = some e ∧ e.view = view := by
  have htogether (m m' : Machine) (h : Twins d m m') :
      Together invoker stop (Twins d) (fun view view' => view.inSequence = view') m m' :=
    h.together hnarrow hbranched hcalm
  constructor
  · rintro ⟨fuel, e, hrun, rfl⟩
    obtain ⟨fuel', e', hrun', hview⟩ := run_of_together htogether .launched hrun
    exact ⟨fuel', e', hrun', hview.symm⟩
  · rintro ⟨fuel, e, hrun, rfl⟩
    exact run_of_together (fun m' m h => (htogether m m' h).swap) .launched hrun

end

/-- A workflow with steps that have one branch, or none. -/
def moving : Definition where
  name := "moving"
  root := "move"
  steps := [
    { id := "move", work := .parallel ["load"], next := some "drive" },
    { id := "load", work := .sequence ["box", "rest", "crate"] },
    { id := "box", work := .parallel ["pack"] },
    { id := "pack", work := .activity { activity := "wrap", resultVariable := some "box" } },
    { id := "rest", work := .parallel [] },
    { id := "crate", work := .parallel ["lift"], next := some "box" },
    { id := "lift", work := .activity {
        activity := "lift", arguments := [("what", .string "$\x7bbox\x7d")] } },
    { id := "drive", work := .activity { activity := "drive" } }]

/-- What comes of its activities: nothing can be lifted. -/
def porter : Invoker := fun _ call =>
  if call.name = "lift" then ⟨2, .result (.failure "too heavy")⟩
  else ⟨call.name.length, .result (.ok (.string call.name))⟩

/-- What is seen of its run in sequence. -/
def movingView : View where
  calls := [⟨"wrap", []⟩, ⟨"lift", [("what", .string "wrap")]⟩]
  now := 6
  events := [[.runStarted "moving" (), .stepStarted "move" "sequence",
    .stepStarted "load" "sequence", .stepStarted "box" "sequence",
    .stepStarted "pack" "activity", .stepFinished "pack" "activity" .succeeded none,
    .stepFinished "box" "sequence" .succeeded none, .stepStarted "rest" "sequence",
    .stepFinished "rest" "sequence" .succeeded none, .stepStarted "crate" "sequence",
    .stepStarted "lift" "activity",
    .stepFinished "lift" "activity" .failed (some "Activity 'lift' failed: too heavy"),
    .stepFinished "crate" "sequence" .failed (some "Activity 'lift' failed: too heavy"),
    .stepFinished "load" "sequence" .failed (some "Activity 'lift' failed: too heavy"),
    .stepFinished "move" "sequence" .failed (some "Activity 'lift' failed: too heavy"),
    .runCompleted .failed () (some "Activity 'lift' failed: too heavy")]]
  stores := [[("box", .string "wrap"),
    ("lift", .object [("error", .string "too heavy"), ("success", .bool false)]),
    ("pack", .object [("data", .string "wrap"), ("success", .bool true)])]]
  outcomes := [some (.failed (.activity "lift" "too heavy"))]

/-- Its branches, done one after another, come to the same. -/
theorem run_inSequence_moving :
    moving.Narrow ∧ moving.Branched ∧ porter.Calm ∧
      ∃ fuel e, Machine.run porter (Machine.wanted true) none fuel
        (({} : Machine).launch moving.inSequence []) = some e ∧ e.view = movingView := by
  have hbranches : ∀ s ∈ moving.steps, ∀ ids, s.work = .parallel ids →
      ids.length ≤ 1 ∧ ∀ id ∈ ids, id ∈ moving.ids := by
    intro s hs ids hwork
    simp only [moving, List.mem_cons, List.not_mem_nil, or_false] at hs
    rcases hs with rfl | rfl | rfl | rfl | rfl | rfl | rfl | rfl <;> cases hwork <;> decide
  have hnarrow : moving.Narrow := fun s hs ids hwork => (hbranches s hs ids hwork).1
  have hbranched : moving.Branched := fun s hs ids hwork => (hbranches s hs ids hwork).2
  have hcalm : porter.Calm := fun _ call => by
    unfold porter
    split <;> exact ⟨_, rfl⟩
  have hview : (Machine.run porter (Machine.wanted true) none 60
      (({} : Machine).launch moving [])).map (·.view.inSequence) = some movingView := by
    decide +kernel
  obtain ⟨e, hrun, he⟩ := Option.map_eq_some_iff.1 hview
  exact ⟨hnarrow, hbranched, hcalm,
    (run_inSequence hnarrow hbranched hcalm [] true movingView).1 ⟨60, e, hrun, he⟩⟩

end Run

end Flowgraph

import Flowgraph.Proofs.Run.Brackets
import Flowgraph.Proofs.Run.Dispatch
import Flowgraph.Proofs.Run.Verdict

/-!
# The grammar of events

What the events of a run look like once it has returned and all its branches are over, whatever
became of them (`Scene.Grammatical`): the run starts once and completes once; every step execution
starts once and then finishes once; what a step has done on its behalf is over before it succeeds,
and its next step starts only then; and without parallel branches the events are nested like
brackets. `Reaches.grammatical` shows it for whatever schedule.
-/

set_option autoImplicit false

namespace Flowgraph.Run

variable {invoker : Invoker} {d : Definition} {input : Store} {x : Scene} {m m' : Machine}
  {l : Ledger} {id : Nat} {deeds : List Deed} {trail : Trail} {history new : List Entry}
  {a : Address} {e : Entry} {outcome : Outcome}

/-! ### The execution of a step -/

/-- What has been marked at an address. -/
def marksAt (a : Address) (history : List Entry) : List Entry :=
  history.filter fun e => e.deed.Marks && e.address == a

theorem marksAt_cons : marksAt a (e :: history) =
    if e.deed.Marks && e.address == a then e :: marksAt a history else marksAt a history := by
  rw [marksAt, List.filter_cons]
  rfl

theorem length_marksAt : (marksAt a history).length = begun a history + finished a history := by
  induction history with
  | nil => rfl
  | cons e history ih =>
    rw [marksAt_cons, begun_cons, finished_cons]
    cases hdeed : e.deed <;> by_cases ha : e.address = a <;>
      simp [Deed.Marks, Deed.Begins, Deed.Finishes, ha, ih] <;> omega

theorem mem_marksAt : e ∈ marksAt a history ↔
    e ∈ history ∧ e.deed.Marks = true ∧ e.address = a := by
  rw [marksAt, List.mem_filter, Bool.and_eq_true, beq_iff_eq]

theorem Deed.marks_cases {deed : Deed} (h : deed.Marks = true) :
    (∃ step, deed = .entered step) ∨ ∃ step outcome, deed = .finished step outcome := by
  cases deed with
  | entered step => exact Or.inl ⟨step, rfl⟩
  | finished step outcome => exact Or.inr ⟨step, outcome, rfl⟩
  | _ => cases h

/-- What has been entered and finished once has been entered first, and it was the same step. -/
theorem exists_execution (honce : Throughout MarkedOnce history)
    (hlocated : ∀ e ∈ history, e.deed.Located d e.address) (hbegun : begun a history = 1)
    (hfinished : finished a history = 1) :
    ∃ step outcome, d.at? a = some step ∧
      (marksAt a history).map (·.deed) = [.entered step, .finished step outcome] := by
  have hlength : (marksAt a history).length = 2 := by rw [length_marksAt, hbegun, hfinished]
  obtain ⟨f, g, hmarks⟩ := List.length_eq_two.1 hlength
  obtain ⟨before, after, rfl, hbefore, -, hafter⟩ := List.filter_eq_cons_iff.1 hmarks
  obtain ⟨between, rest, rfl, -, -, -⟩ := List.filter_eq_cons_iff.1 hafter
  have hf : f ∈ marksAt a (before ++ f :: (between ++ g :: rest)) := by rw [hmarks]; simp
  have hg : g ∈ marksAt a (before ++ f :: (between ++ g :: rest)) := by rw [hmarks]; simp
  obtain ⟨hfmem, hfmarks, hfa⟩ := mem_marksAt.1 hf
  obtain ⟨hgmem, hgmarks, hga⟩ := mem_marksAt.1 hg
  -- the first of the two is no end, since nothing has begun before it
  obtain ⟨step, hstep⟩ : ∃ step, f.deed = .entered step := by
    rcases Deed.marks_cases hfmarks with hentered | ⟨step, outcome, hdeed⟩
    · exact hentered
    · have hone := ((honce before f _ rfl).2 step outcome hdeed).1
      have hpos : 0 < begun f.address before := by omega
      obtain ⟨e, he, step', hentered, haddress⟩ := exists_of_begun_pos hpos
      have := hbefore e he
      simp [Deed.Marks, Deed.Begins, hentered, haddress, hfa] at this
  -- and the second is no beginning, since the first is one
  obtain ⟨step', outcome, hstep'⟩ : ∃ step outcome, g.deed = .finished step outcome := by
    rcases Deed.marks_cases hgmarks with ⟨step', hdeed⟩ | hfinished
    · have hzero := (honce (before ++ f :: between) g rest (by simp)).1 step' hdeed
      have hpos : 0 < begun f.address (before ++ f :: between) := begun_pos (by simp) hstep
      rw [hfa, ← hga] at hpos
      omega
    · exact hfinished
  have hat := hlocated f hfmem
  have hat' := hlocated g hgmem
  rw [hstep, hfa] at hat
  rw [hstep', hga] at hat'
  obtain rfl : step = step' := Option.some.inj (hat.symm.trans hat')
  exact ⟨step, outcome, hat, by rw [hmarks]; simp [hstep, hstep']⟩

/-! ### Reports -/

/-- Whether an event is about a step. -/
def ofStep : Event Unit → Bool
  | .stepStarted .. => true
  | .stepFinished .. => true
  | _ => false

/-- Whether an event is the completion of a run. -/
def ofCompletion : Event Unit → Bool
  | .runCompleted .. => true
  | _ => false

/-- Events of steps that are nested like brackets. -/
inductive NestedEvents : List (Event Unit) → Prop
  | nil : NestedEvents []
  | wrap {id kind : String} {status : StepStatus} {error : Option String}
      {inner rest : List (Event Unit)} : NestedEvents inner → NestedEvents rest →
      NestedEvents (.stepStarted id kind :: inner ++ .stepFinished id kind status error :: rest)

theorem reported_eq : reported history = (history.map (·.deed)).filterMap Deed.event? := by
  rw [List.filterMap_map]
  rfl

theorem Deed.filter_ofStep (deed : Deed) :
    deed.event?.filter ofStep = if deed.Marks then deed.event? else none := by
  cases deed with
  | finished step outcome => cases outcome <;> rfl
  | returned outcome => cases outcome <;> rfl
  | _ => rfl

/-- The events of steps are the reports of what is marked. -/
theorem filter_ofStep : (deeds.filterMap Deed.event?).filter ofStep =
    (deeds.filter Deed.Marks).filterMap Deed.event? := by
  rw [List.filter_filterMap, List.filterMap_filter]
  congr 1
  funext deed
  exact deed.filter_ofStep

theorem Deed.filter_ofCompletion (deed : Deed) :
    deed.event?.filter ofCompletion = deed.verdict?.bind Machine.finalEvent := by
  cases deed with
  | finished step outcome => cases outcome <;> rfl
  | returned outcome => cases outcome <;> rfl
  | _ => rfl

/-- The completions that are reported are those of the returns. -/
theorem filter_ofCompletion : (deeds.filterMap Deed.event?).filter ofCompletion =
    (deeds.filterMap Deed.verdict?).filterMap Machine.finalEvent := by
  rw [List.filter_filterMap, List.filterMap_filterMap]
  congr 1
  funext deed
  exact deed.filter_ofCompletion

theorem Deed.begun_of_event? {deed : Deed} {name : String}
    (h : deed.event? = some (.runStarted name ())) : deed = .begun name := by
  cases deed with
  | begun workflow =>
    cases h
    rfl
  | finished step outcome => cases outcome <;> cases h
  | returned outcome => cases outcome <;> cases h
  | _ => cases h

/-- What is nested is reported as nested, unless a step has panicked. -/
theorem Nested.reported (h : Nested deeds)
    (hcalm : ∀ deed ∈ deeds, ∀ step payload, deed ≠ .finished step (.panicked payload)) :
    NestedEvents (deeds.filterMap Deed.event?) := by
  induction h with
  | nil => exact .nil
  | @wrap step outcome inner rest _ _ ihinner ihrest =>
    have hinner := ihinner fun deed hd => hcalm deed (by simp [hd])
    have hrest := ihrest fun deed hd => hcalm deed (by simp [hd])
    rw [List.filterMap_append]
    cases outcome with
    | done => exact .wrap hinner hrest
    | failed failure => exact .wrap hinner hrest
    | panicked payload => exact absurd rfl (hcalm _ (by simp) step payload)

/-- Only a task that has not begun begins a run. -/
theorem Turn.start_of_begun (hturn : Turn invoker m id deeds m') {name : String}
    (hmem : Deed.begun name ∈ deeds) :
    ∃ task, m.tasks[id]? = some task ∧ task.control = .start := by
  cases hturn with
  | @goes task _ _ _ _ _ _ htask hrun hadv =>
    refine ⟨task, htask, ?_⟩
    generalize task.frames = frames at hadv
    generalize task.control = control at hadv
    cases hadv with
    | begin | lost => rfl
    | _ => simp at hmem
  | _ => simp at hmem

theorem Advance.ne_start {calls : List Invocation} {run : Progress} {frames frames' : List Frame}
    {control control' : Control}
    (h : Advance invoker calls run frames control deeds frames' control') : control' ≠ .start := by
  have hfollow : ∀ target, Machine.follow run.definition target ≠ .start := by
    intro target
    unfold Machine.follow
    split <;> nofun
  cases h with
  | choose | next | child => exact hfollow _
  | _ => nofun

theorem Advance.of_start {calls : List Invocation} {run : Progress} {frames frames' : List Frame}
    {control' : Control} (h : Advance invoker calls run frames .start deeds frames' control') :
    deeds = [.begun run.definition.name] := by
  cases h <;> rfl

/-- No task begins twice. -/
theorem Turn.ne_start (hturn : Turn invoker m id deeds m')
    (hbefore : ∀ task ∈ m.tasks, task.control ≠ .start) :
    ∀ task ∈ m'.tasks, task.control ≠ .start := by
  intro task hmem
  obtain ⟨j, hj⟩ := List.mem_iff_getElem?.1 hmem
  by_cases hne : j = id
  · subst hne
    cases hturn.own hj with
    | idle htask => exact hbefore _ (List.mem_of_getElem? htask)
    | goes htask hrun hadv => exact hadv.ne_start
    | forks => nofun
    | stops => nofun
  · cases hturn.fate hne hj with
    | kept htask => exact hbefore _ (List.mem_of_getElem? htask)
    | @told task _ _ htask =>
      have hold := hbefore _ (List.mem_of_getElem? htask)
      obtain ⟨run, parent, frames, control⟩ := task
      cases control with
      | start => exact absurd rfl hold
      | _ => nofun
    | born => nofun

namespace Scene

/-- **A run returns once**, when its first task ends. -/
theorem Reaches.verdicts (h : Reaches invoker (opening d input) x) :
    (x.ledger.history.map (·.deed)).filterMap Deed.verdict? =
      (outcomeOf x.ledger.history 0).toList := by
  refine h.induct (by rfl) ?turn ?same
  case turn =>
    intro m m' l id deeds hreach ih hturn
    obtain ⟨trail, -, hhistory⟩ := hreach.placed.history_record hturn
    have hverdict := hreach.orderly.verdict_turn hreach.placed hturn trail
    dsimp only at ih ⊢
    rw [hhistory, List.map_append, List.filterMap_append, Trail.map_deed_entries, ih, ← hverdict]
    rcases hturn.ending_cases with hnone | ⟨task, outcome, htask, -, hc, rfl⟩
    · have hverdicts : deeds.filterMap Deed.verdict? = [] :=
        List.filterMap_eq_nil_iff.2 (List.findSome?_eq_none_iff.1 (verdict_of_no_ending hnone))
      rw [hverdicts, verdict_of_no_ending hnone, Option.none_or, List.append_nil]
    · cases hparent : task.parent with
      | some p => simp [Deed.verdict?]
      | none =>
        obtain rfl := (hreach.placed.parents id task htask).1.1 hparent
        have hnone : outcomeOf l.history 0 = none :=
          hreach.orderly.outcomeOf_eq_none htask (by rw [hc]; rfl)
        rw [hnone]
        rfl
  case same =>
    intro m m' l htasks hruns hcalls ih
    exact ih

/-- A run has done nothing yet, or it has begun with its first deed. -/
theorem Reaches.begins (h : Reaches invoker (opening d input) x) :
    (x.ledger.history = [] ∧ x.machine.tasks = [⟨0, none, [], .start⟩]) ∨
      ∃ e rest, x.ledger.history = e :: rest ∧ e.deed = .begun d.name ∧
        (∀ f ∈ rest, ∀ name, f.deed ≠ .begun name) ∧
        ∀ task ∈ x.machine.tasks, task.control ≠ .start := by
  refine h.induct (Or.inl ⟨rfl, rfl⟩) ?turn ?same
  case turn =>
    intro m m' l id deeds hreach ih hturn
    obtain ⟨trail, -, hhistory⟩ := hreach.placed.history_record hturn
    dsimp only at ih ⊢
    rw [hhistory]
    rcases ih with ⟨hnil, htasks⟩ | ⟨e, rest, hcons, hdeed, hrest, hbefore⟩
    · have honly : ∀ task, m.tasks[id]? = some task → id = 0 ∧ task = ⟨0, none, [], .start⟩ := by
        intro task htask
        rw [htasks] at htask
        have hopening : (opening d input).machine.tasks[id]? = some task := htask
        exact task_of_opening hopening
      cases hturn with
      | idle => exact Or.inl ⟨by rw [hnil]; rfl, htasks⟩
      | @goes task run _ _ _ _ _ htask hrun hadv =>
        obtain ⟨rfl, rfl⟩ := honly _ htask
        have hd := (hreach.placed.definition_of_getElem? hrun).2
        obtain rfl := hadv.of_start
        refine Or.inr ⟨_, [], by rw [hnil]; rfl, by rw [hd], List.forall_mem_nil _, ?_⟩
        rw [htasks]
        simpa using hadv.ne_start
      | forks htask hrun hc =>
        rw [(honly _ htask).2] at hc
        cases hc
      | ends htask hrun hparent hframes hc =>
        rw [(honly _ htask).2] at hc
        cases hc
      | returns htask hrun hparent hframes hc =>
        rw [(honly _ htask).2] at hc
        cases hc
    · refine Or.inr ⟨e, rest ++ trail.entries id deeds, by rw [hcons]; rfl, hdeed, ?_,
        hturn.ne_start hbefore⟩
      intro f hf name hname
      rcases List.mem_append.1 hf with hf | hf
      · exact hrest f hf name hname
      · have hbegun : Deed.begun name ∈ deeds := hname ▸ Trail.deed_mem_of_mem_entries hf
        obtain ⟨task, htask, hstart⟩ := hturn.start_of_begun hbegun
        exact hbefore task (List.mem_of_getElem? htask) hstart
  case same =>
    intro m m' l htasks hruns hcalls ih
    dsimp only at ih ⊢
    rwa [htasks]

/-- The return of a run that has succeeded is the last that is done. -/
theorem Reaches.returned_last (h : Reaches invoker (opening d input) x)
    (hdone : outcomeOf x.ledger.history 0 = some .done) :
    ∃ before e, x.ledger.history = before ++ [e] ∧ e.deed = .returned .done := by
  revert hdone
  refine h.induct (fun hdone => ?start) ?turn ?same
  case start => cases hdone
  case turn =>
    intro m m' l id deeds hreach ih hturn hdone
    obtain ⟨trail, -, hhistory⟩ := hreach.placed.history_record hturn
    dsimp only at ih hdone ⊢
    have hverdict := hreach.orderly.verdict_turn hreach.placed hturn trail
    rw [hhistory, ← hverdict] at hdone
    rcases Option.or_eq_some_iff.1 hdone with hnow | ⟨-, hbefore⟩
    · rcases hturn.ending_cases with hnone | ⟨task, outcome, htask, -, hc, rfl⟩
      · rw [verdict_of_no_ending hnone] at hnow
        cases hnow
      · cases hparent : task.parent with
        | some p => simp [hparent, Deed.verdict?] at hnow
        | none =>
          obtain rfl : outcome = .done := by simpa [hparent, Deed.verdict?] using hnow
          refine ⟨l.history, ⟨id, trail.inside.headD [], .returned .done⟩, ?_, rfl⟩
          rw [hparent] at hhistory
          exact hhistory
    · -- once the run has succeeded, nothing is done any more
      obtain ⟨rfl, -⟩ := (hreach.orderly.still hreach.placed hbefore).turn hturn
      exact ih hbefore
  case same =>
    intro m m' l htasks hruns hcalls ih
    exact ih

end Scene

/-! ### The grammar -/

/-- Whether a step has been executed once at an address: it has begun and then ended there, and so
it is reported. -/
structure Executed (d : Definition) (history : List Entry) (a : Address) (step : Step)
    (outcome : Outcome) : Prop where
  located : d.at? a = some step
  marks : (marksAt a history).map (·.deed) = [.entered step, .finished step outcome]
  reports : (outcome = .done ∧ reported (marksAt a history) =
      [.stepStarted step.id step.work.kind,
        .stepFinished step.id step.work.kind .succeeded none]) ∨
    ∃ failure, outcome = .failed failure ∧ reported (marksAt a history) =
      [.stepStarted step.id step.work.kind,
        .stepFinished step.id step.work.kind .failed (some failure.message)]

/-- What the events of a run with an outcome are like, and what they report. -/
structure Scene.Grammatical (d : Definition) (x : Scene) (outcome : Outcome) : Prop where
  /-- The events report what has been done, in this order. -/
  reports : x.machine.runs.map (·.events) = [reported x.ledger.history]
  /-- The first event is the start of the run, and no other is. -/
  started : ∃ more, reported x.ledger.history = .runStarted d.name () :: more ∧
    ∀ name, .runStarted name () ∉ more
  /-- The run completes once, with its outcome. -/
  completed : (outcome = .done ∧
      (reported x.ledger.history).filter ofCompletion = [.runCompleted .succeeded () none]) ∨
    ∃ failure, outcome = .failed failure ∧ (reported x.ledger.history).filter ofCompletion =
      [.runCompleted .failed () (some failure.message)]
  /-- If it has succeeded, its completion is the last event. -/
  last : outcome = .done →
    (reported x.ledger.history).getLast? = some (.runCompleted .succeeded () none)
  /-- What begins or ends is a step that is executed once at its address. -/
  executed : ∀ e ∈ x.ledger.history, e.deed.Marks = true →
    ∃ step outcome, Executed d x.ledger.history e.address step outcome
  /-- What a step has dispatched is over before the step succeeds. -/
  dispatched : Throughout (AfterDispatched d) x.ledger.history
  /-- A step begins after the one that refers to it, and a next step after the success of the one
  before it. -/
  next : Throughout (ComesAfter d) x.ledger.history
  /-- Nothing is begun beyond the next step of a step that has failed. -/
  failed : ∀ e ∈ x.ledger.history, ∀ step failure, e.deed = .finished step (.failed failure) →
    ∀ f ∈ x.ledger.history, f.deed.Marks = true →
      ¬ step.work.references.length :: e.address <:+ f.address
  /-- Without parallel branches the events of the steps are nested. -/
  nested : d.Narrow → NestedEvents ((reported x.ledger.history).filter ofStep)

namespace Scene

/-- What lies behind a step that has begun has begun. -/
theorem Reaches.begun_of_suffix (h : Reaches invoker (opening d input) x) {b : Address}
    (hsuffix : a <:+ b) (hb : 0 < begun b x.ledger.history) : 0 < begun a x.ledger.history := by
  induction b with
  | nil =>
    rw [List.suffix_nil.1 hsuffix]
    exact hb
  | cons n b ih =>
    rcases List.suffix_cons_iff.1 hsuffix with rfl | hsuffix
    · exact hb
    · obtain ⟨e, he, step, hdeed, haddress⟩ := exists_of_begun_pos hb
      obtain ⟨before, after, heq⟩ := List.append_of_mem he
      obtain ⟨t, -, ⟨f, hf, rfl, hentered⟩, -⟩ :=
        h.comes_after.2 before e after heq step n b hdeed haddress
      refine ih hsuffix (begun_pos (e := f) ?_ hentered)
      rw [heq]
      exact List.mem_append_left _ hf

/-- What has begun or ended has begun. -/
theorem Reaches.begun_of_marks (h : Reaches invoker (opening d input) x)
    (he : e ∈ x.ledger.history) (hmarks : e.deed.Marks = true) :
    0 < begun e.address x.ledger.history := by
  have hbalanced := h.balanced e.address
  rcases Deed.marks_cases hmarks with ⟨step, hdeed⟩ | ⟨step, outcome, hdeed⟩
  · exact begun_pos he hdeed
  · have := finished_pos he hdeed
    omega

/-- No step panics. -/
theorem Reaches.not_panicked (hcalm : invoker.Calm) (h : Reaches invoker (opening d input) x)
    (he : e ∈ x.ledger.history) {step : Step} {payload : Payload} :
    e.deed ≠ .finished step (.panicked payload) := by
  intro hdeed
  have hwithin := (h.within hcalm d.allows_all).entries e he
  rw [hdeed] at hwithin
  exact hwithin _ rfl

/-- **What has begun or ended in a run that is over has been executed once.** -/
theorem Reaches.executed (hcalm : invoker.Calm) (h : Reaches invoker (opening d input) x)
    (hstill : x.Still) (he : e ∈ x.ledger.history) (hmarks : e.deed.Marks = true) :
    ∃ step outcome, Executed d x.ledger.history e.address step outcome := by
  -- nothing is under way any more
  have hnone : underway e.address x.ledger.trails = 0 := by
    by_contra hsome
    obtain ⟨j, trail, hj, ha⟩ := exists_of_underway_pos (Nat.pos_of_ne_zero hsome)
    obtain ⟨task, htask⟩ := getElem?_of_lt (h.placed.trails ▸ lt_of_getElem? hj)
    have hstack := (h.placed.tasks j task trail htask hj).2.1
    rw [h.placed.frames_of_stopped htask (hstill task (List.mem_of_getElem? htask))] at hstack
    rw [hstack.inside_of_nil] at ha
    cases ha
  have hone : begun e.address x.ledger.history = 1 ∧ finished e.address x.ledger.history = 1 := by
    have honce := h.once e.address
    have hbalanced := h.balanced e.address
    have hbegun := h.begun_of_marks he hmarks
    omega
  obtain ⟨step, outcome, hat, hmarks⟩ := exists_execution h.marked_once
    (fun f hf => (h.placed.entries f hf).2) hone.1 hone.2
  refine ⟨step, outcome, hat, hmarks, ?_⟩
  have hreports : reported (marksAt e.address x.ledger.history) =
      [Deed.entered step, .finished step outcome].filterMap Deed.event? := by
    rw [reported_eq, hmarks]
  rw [hreports]
  cases outcome with
  | done => exact Or.inl ⟨rfl, rfl⟩
  | failed failure => exact Or.inr ⟨failure, rfl, rfl⟩
  | panicked payload =>
    have hmem : Deed.finished step (.panicked payload) ∈
        (marksAt e.address x.ledger.history).map (·.deed) := by simp [hmarks]
    obtain ⟨f, hf, hdeed⟩ := List.mem_map.1 hmem
    exact absurd hdeed (h.not_panicked hcalm (mem_marksAt.1 hf).1)

/-- **A step that has failed is not followed by its next step.** -/
theorem Reaches.begun_next_of_failed (hcalm : invoker.Calm)
    (h : Reaches invoker (opening d input) x) (hstill : x.Still) (he : e ∈ x.ledger.history)
    {step : Step} {failure : Failure} (hdeed : e.deed = .finished step (.failed failure)) :
    begun (step.work.references.length :: e.address) x.ledger.history = 0 := by
  by_contra hbegun
  obtain ⟨g, hg, target, hentered, haddress⟩ := exists_of_begun_pos (Nat.pos_of_ne_zero hbegun)
  obtain ⟨before, after, heq⟩ := List.append_of_mem hg
  obtain ⟨step', hat', -, hnext⟩ :=
    h.comes_after.2 before g after heq target _ e.address hentered haddress
  have hat := (h.placed.entries e he).2
  rw [hdeed] at hat
  obtain rfl : step' = step := Option.some.inj (hat'.symm.trans hat)
  obtain ⟨f, hf, hsame, hdone⟩ := hnext rfl
  have hf : f ∈ x.ledger.history := by
    rw [heq]
    exact List.mem_append_left _ hf
  -- the step would have ended twice
  obtain ⟨t, outcome, hexecuted⟩ := h.executed hcalm hstill he (by rw [hdeed]; rfl)
  have hends : ∀ o, Deed.finished step' o ∈ (marksAt e.address x.ledger.history).map (·.deed) →
      o = outcome := by
    intro o hmem
    rw [hexecuted.marks] at hmem
    simp at hmem
    exact hmem.2
  have hfailed := hends _ (List.mem_map.2 ⟨e, mem_marksAt.2 ⟨he, by rw [hdeed]; rfl, rfl⟩, hdeed⟩)
  have hsuccess := hends _
    (List.mem_map.2 ⟨f, mem_marksAt.2 ⟨hf, by rw [hdone]; rfl, hsame⟩, hdone⟩)
  rw [← hfailed] at hsuccess
  cases hsuccess

/-- **The events of a run that is over keep to the grammar.** -/
theorem Reaches.grammatical (hcalm : invoker.Calm) (h : Reaches invoker (opening d input) x)
    (hstill : x.Still) : ∃ outcome, x.machine.runs.map (·.outcome) = [some outcome] ∧
      x.Grammatical d outcome := by
  obtain ⟨first, hfirst⟩ := getElem?_of_lt h.placed.first
  have hstopped := h.orderly.stopped 0 first hfirst
  rw [hstill first (List.mem_of_getElem? hfirst)] at hstopped
  obtain ⟨outcome, houtcome⟩ := Option.isSome_iff_exists.1 hstopped.symm
  obtain ⟨run, hrun, hevents, hresult⟩ := h.recorded
  refine ⟨outcome, by rw [hrun, List.map_singleton, hresult, houtcome], ?_⟩
  refine ⟨by rw [hrun, List.map_singleton, hevents], ?started, ?completed, ?last,
    fun e he hmarks => h.executed hcalm hstill he hmarks, h.after_dispatched.2, h.comes_after.2,
    ?failed, ?nested⟩
  case started =>
    rcases h.begins with ⟨-, htasks⟩ | ⟨e, rest, hcons, hdeed, hrest, -⟩
    · have hstart := hstill ⟨0, none, [], .start⟩ (by rw [htasks]; exact List.mem_singleton_self _)
      cases hstart
    · refine ⟨reported rest, ?_, fun name hmem => ?_⟩
      · rw [hcons]
        simp [reported, hdeed, Deed.event?]
      · obtain ⟨f, hf, hevent⟩ := List.mem_filterMap.1 hmem
        exact hrest f hf name (Deed.begun_of_event? hevent)
  case completed =>
    have hcompleted : (reported x.ledger.history).filter ofCompletion =
        [outcome].filterMap Machine.finalEvent := by
      rw [reported_eq, filter_ofCompletion, h.verdicts, houtcome]
      rfl
    rw [hcompleted]
    have hwithin := (h.within hcalm d.allows_all).runs run (by simp [hrun]) outcome
      (by rw [hresult, houtcome])
    cases outcome with
    | done => exact Or.inl ⟨rfl, rfl⟩
    | failed failure => exact Or.inr ⟨failure, rfl, rfl⟩
    | panicked payload => exact hwithin.elim
  case last =>
    rintro rfl
    obtain ⟨before, e, heq, hdeed⟩ := h.returned_last houtcome
    rw [heq, reported_append]
    simp [reported, hdeed, Deed.event?, Machine.finalEvent]
  case failed =>
    intro e he step failure hdeed f hf hmarks hsuffix
    have hzero := h.begun_next_of_failed hcalm hstill he hdeed
    have hpos := h.begun_of_suffix hsuffix (h.begun_of_marks hf hmarks)
    omega
  case nested =>
    intro hnarrow
    rw [reported_eq, filter_ofStep]
    refine (h.nested_of_still hnarrow hstill).reported fun deed hd step payload hdeed => ?_
    obtain ⟨e, he, rfl⟩ := List.mem_map.1 (List.mem_of_mem_filter hd)
    exact h.not_panicked hcalm he hdeed

/-- Whether all tasks have stopped, read off a machine. -/
theorem still_of_all (h : (x.machine.tasks.all fun task => task.control.isStopped) = true) :
    x.Still := fun task hmem => Control.eq_stopped (List.all_eq_true.1 h task hmem)

end Scene

/-- A run whose second branch fails first: the other branch is left behind, and still ends. -/
theorem grammatical_race :
    ((Scene.next racing)^[18] (Scene.opening race [])).Grammatical race
        (.failed (.activity "quick" "quick")) ∧
      ((Scene.next racing)^[18] (Scene.opening race [])).machine.runs.map (·.events) =
        [[.runStarted "race" (), .stepStarted "both" "parallel", .stepStarted "slow" "activity",
          .stepStarted "quick" "activity",
          .stepFinished "quick" "activity" .failed (some "Activity 'quick' failed: quick"),
          .stepFinished "both" "parallel" .failed (some "Activity 'quick' failed: quick"),
          .runCompleted .failed () (some "Activity 'quick' failed: quick"),
          .stepFinished "slow" "activity" .failed (some "Activity 'slow' failed: slow")]] := by
  obtain ⟨outcome, houtcome, hgrammatical⟩ := (Scene.reaches_iterate 18).grammatical calm_racing
    (Scene.still_of_all (by rfl) : Scene.Still ((Scene.next racing)^[18] (Scene.opening race [])))
  have hfailed : ((Scene.next racing)^[18] (Scene.opening race [])).machine.runs.map (·.outcome) =
      [some (.failed (.activity "quick" "quick"))] := by rfl
  obtain rfl : outcome = .failed (.activity "quick" "quick") := by
    simpa using houtcome.symm.trans hfailed
  exact ⟨hgrammatical, by rfl⟩

end Flowgraph.Run

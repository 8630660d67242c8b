import Flowgraph.Proofs.Run.Blame

/-!
# The first branch that fails

A step with branches fails with the failure of one of them. The branches end in some order, and
each hands its outcome to the step when it does; the step takes what it is handed in that order,
and the first branch that has not succeeded decides. So the failure of the step is **the first
failure in the order of completion** (`Reaches.first_failure`).

The invariant `Scene.Joining` follows this from the fork on: what a task has taken and what it
has been handed are, in this order, the endings of its branches in the history.
-/

set_option autoImplicit false

namespace Flowgraph.Run

open Machine (follow resolveAll)

variable {invoker : Invoker} {d : Definition} {input : Store} {x : Scene} {m m' : Machine}
  {l : Ledger} {id j p : Nat} {deeds : List Deed} {task : Task} {kids : List Nat}
  {history new : List Entry} {trail : Trail}

/-! ### Endings in their order -/

/-- The outcomes of some tasks in a history, in the order in which they came about. -/
def endings (kids : List Nat) (history : List Entry) : List (Nat × Outcome) :=
  history.filterMap fun e => if e.task ∈ kids then e.deed.ending?.map (e.task, ·) else none

/-- What the first of some tasks that did not succeed is to the step that waits for them. -/
def firstFailure (step : Step) (kids : List Nat) (history : List Entry) : Option Failure :=
  (endings kids history).findSome? fun news => news.2.blame step news.1

theorem endings_append :
    endings kids (history ++ new) = endings kids history ++ endings kids new :=
  List.filterMap_append

theorem endings_entries_of_notMem (h : id ∉ kids) : endings kids (trail.entries id deeds) = [] := by
  apply List.filterMap_eq_nil_iff.2
  intro e he
  rw [Trail.task_of_mem_entries he, if_neg h]

theorem endings_entries_of_none (h : deeds.findSome? Deed.ending? = none) :
    endings kids (trail.entries id deeds) = [] := by
  apply List.filterMap_eq_nil_iff.2
  intro e he
  rw [List.findSome?_eq_none_iff.1 h e.deed (Trail.deed_mem_of_mem_entries he)]
  split <;> rfl

theorem endings_entries_ended (h : id ∈ kids) (outcome : Outcome) :
    endings kids (trail.entries id [.ended outcome]) = [(id, outcome)] := by
  simp [endings, Trail.entries, h, Deed.ending?]

theorem firstFailure_append {step : Step} {failure : Failure}
    (h : firstFailure step kids history = some failure) :
    firstFailure step kids (history ++ new) = some failure := by
  rw [firstFailure, endings_append, List.findSome?_append, ← firstFailure, h]
  rfl

/-- Branches that have succeeded leave the first failure to the others. -/
theorem firstFailure_eq {step : Step} {taken rest : List (Nat × Outcome)}
    (h : endings kids history = taken ++ rest) (htaken : ∀ news ∈ taken, news.2 = .done) :
    firstFailure step kids history = rest.findSome? fun news => news.2.blame step news.1 := by
  have hnone : (taken.findSome? fun news => news.2.blame step news.1) = none := by
    apply List.findSome?_eq_none_iff.2
    intro news hnews
    rw [htaken news hnews]
    rfl
  rw [firstFailure, h, List.findSome?_append, hnone, Option.none_or]

/-! ### From the fork to the end of the step -/

/-- What a history says about the branches that a task has started at an address: the entry for
the fork, and what has been done since, by others than the task. -/
def ForkedAt (history : List Entry) (p : Nat) (a : Address) (step : Step) (kids : List Nat)
    (after : List Entry) : Prop :=
  (∃ before, history = before ++ ⟨p, a, .forked step kids⟩ :: after) ∧ ∀ e ∈ after, e.task ≠ p

theorem ForkedAt.append {a : Address} {step : Step} {after : List Entry}
    (h : ForkedAt history p a step kids after) (hnew : ∀ e ∈ new, e.task ≠ p) :
    ForkedAt (history ++ new) p a step kids (after ++ new) := by
  obtain ⟨⟨before, rfl⟩, hafter⟩ := h
  refine ⟨⟨before, by simp⟩, fun e he => ?_⟩
  rcases List.mem_append.1 he with he | he
  · exact hafter e he
  · exact hnew e he

/-- The failure of a step with branches is that of the first branch to fail. -/
def FailsFirst (history : List Entry) (p : Nat) (a : Address) (step : Step) (failure : Failure) :
    Prop :=
  ∃ kids after, ForkedAt history p a step kids after ∧
    firstFailure step kids after = some failure

theorem FailsFirst.append {a : Address} {step : Step} {failure : Failure}
    (h : FailsFirst history p a step failure) (hnew : ∀ e ∈ new, e.task ≠ p) :
    FailsFirst (history ++ new) p a step failure := by
  obtain ⟨kids, after, hforked, hfirst⟩ := h
  exact ⟨kids, after ++ new, hforked.append hnew, firstFailure_append hfirst⟩

/-- How a task waits for the branches that it has started at an address: what it has taken and what
it has been handed are the endings of its branches since then, in their order. -/
structure Gathers (tasks : List Task) (p : Nat) (kids : List Nat) (after : List Entry)
    (taken ended : List (Nat × Outcome)) : Prop where
  order : endings kids after = taken ++ ended
  succeeded : ∀ news ∈ taken, news.2 = .done
  theirs : ∀ j ∈ kids, ∃ child : Task, tasks[j]? = some child ∧ child.parent = some p
  alive : ∀ (j : Nat) (child : Task), tasks[j]? = some child → child.parent = some p →
    child.control.isStopped = false → j ∈ kids

/-- How the branches that tasks wait for come about in the history. -/
structure Scene.Joining (d : Definition) (x : Scene) : Prop where
  /-- A task that waits has started branches, and it waits for these. -/
  waits : ∀ (p : Nat) (task : Task) (trail : Trail) (step : Step) (missing : Nat)
    (ended : List (Nat × Outcome)), x.machine.tasks[p]? = some task →
    x.ledger.trails[p]? = some trail → task.control = .join step missing ended →
    ∃ kids after taken, ForkedAt x.ledger.history p (trail.inside.headD []) step kids after ∧
      Gathers x.machine.tasks p kids after taken ended
  /-- A step whose branch has failed is left with the first failure. -/
  leaves : ∀ (p : Nat) (task : Task) (trail : Trail) (step : Step) (rest : List Frame)
    (failure : Failure) (ids : List String) (branches : List Step),
    x.machine.tasks[p]? = some task → x.ledger.trails[p]? = some trail →
    task.control = .leave (.failed failure) → task.frames = .finish step :: rest →
    step.work = .parallel ids → resolveAll d ids = .ok branches →
    FailsFirst x.ledger.history p (trail.inside.headD []) step failure

/-- Whether the failure of an entry, if it is that of a step with branches, is that of the first
branch to fail. -/
def FirstFailing (d : Definition) (before : List Entry) (e : Entry) : Prop :=
  ∀ step failure ids branches, e.deed = .finished step (.failed failure) →
    step.work = .parallel ids → resolveAll d ids = .ok branches →
    FailsFirst before e.task e.address step failure

/-! ### Every turn keeps the order -/

theorem entries_task_ne (hne : p ≠ id) : ∀ e ∈ trail.entries id deeds, e.task ≠ p := by
  intro e he
  rw [Trail.task_of_mem_entries he]
  exact Ne.symm hne

namespace Scene.Joining

/-- The branches of a task are still its branches after a turn of any task. -/
theorem kids_turn (hturn : Turn invoker m id deeds m')
    (hkids : ∀ j ∈ kids, ∃ child, m.tasks[j]? = some child ∧ child.parent = some p) :
    ∀ j ∈ kids, ∃ child, m'.tasks[j]? = some child ∧ child.parent = some p := by
  intro j hj
  obtain ⟨old, hold, hparent⟩ := hkids j hj
  obtain ⟨child, hchild⟩ := getElem?_of_lt
    (Nat.lt_of_lt_of_le (lt_of_getElem? hold) hturn.length_tasks_le)
  refine ⟨child, hchild, ?_⟩
  rcases hturn.task_cases hchild with ⟨before, hbefore, hsame, -⟩ | ⟨hle, -⟩
  · rw [hold] at hbefore
    cases hbefore
    rw [hsame, hparent]
  · have := lt_of_getElem? hold
    omega

/-- No branch of a task comes to life in a turn that does not start branches of it. -/
theorem alive_turn (hturn : Turn invoker m id deeds m')
    (hnew : p ≠ id ∨ ∀ step kids, deeds ≠ [.entered step, .forked step kids])
    (halive : ∀ j child, m.tasks[j]? = some child → child.parent = some p →
      child.control.isStopped = false → j ∈ kids) :
    ∀ j child, m'.tasks[j]? = some child → child.parent = some p →
      child.control.isStopped = false → j ∈ kids := by
  intro j child hchild hparent hrunning
  rcases hturn.task_cases hchild with ⟨old, hold, hsame, hbefore⟩ | ⟨-, hid, step, kids, hdeeds⟩
  · exact halive j old hold (by rw [← hsame, hparent]) (hbefore hrunning)
  · rcases hnew with hne | hforks
    · rw [hparent] at hid
      exact absurd (Option.some.inj hid) hne
    · exact absurd hdeeds (hforks step kids)

/-- The task that waits has its turn. -/
theorem waits_own (h : Joining d ⟨m, l⟩) (horderly : Orderly ⟨m, l⟩)
    (htrail : ∀ old, m.tasks[id]? = some old → l.trails[id]? = some trail)
    (hturn : Turn invoker m id deeds m') (hj : m'.tasks[id]? = some task) {step : Step}
    {missing : Nat} {ended : List (Nat × Outcome)} (hc : task.control = .join step missing ended) :
    ∃ kids after taken, ForkedAt (l.history ++ trail.entries id deeds) id
        ((deeds.foldl Trail.record trail).inside.headD []) step kids after ∧
      Gathers m'.tasks id kids after taken ended := by
  cases hturn.own hj with
  | idle htask =>
    obtain ⟨kids, after, taken, hforked, hgathers⟩ :=
      h.waits id task trail step missing ended htask (htrail _ htask) hc
    refine ⟨kids, after, taken, by simpa [Trail.entries] using hforked, hgathers.order,
      hgathers.succeeded, kids_turn hturn hgathers.theirs, alive_turn hturn ?_ hgathers.alive⟩
    exact Or.inr (by simp)
  | goes htask hrun hadv =>
    dsimp only at hc
    subst hc
    obtain ⟨branch, hbefore, -, rfl⟩ := hadv.join_inv
    obtain ⟨kids, after, taken, hforked, hgathers⟩ :=
      h.waits id _ trail step _ _ htask (htrail _ htask) hbefore
    refine ⟨kids, after, taken ++ [(branch, .done)], by simpa [Trail.entries] using hforked,
      by simpa using hgathers.order, ?_, kids_turn hturn hgathers.theirs,
      alive_turn hturn (Or.inr (by simp)) hgathers.alive⟩
    intro news hnews
    rcases List.mem_append.1 hnews with hnews | hnews
    · exact hgathers.succeeded news hnews
    · rw [List.mem_singleton.1 hnews]
  | @forks old run begun ids branches htask hrun hcontrol hwork hall hne =>
    obtain ⟨rfl, rfl, rfl⟩ := Control.join.inj hc
    have hlen := hturn.length_tasks_forked
    rw [List.length_range'] at hlen
    refine ⟨List.range' m.tasks.length branches.length, [], [], ⟨⟨l.history ++
      [⟨id, trail.here, .entered begun⟩], ?_⟩, List.forall_mem_nil _⟩, rfl, List.forall_mem_nil _,
      fun j hj => ?_, fun j child hchild hparent hrunning => ?_⟩
    · simp [Trail.entries, Trail.address, Trail.record]
    · obtain ⟨hle, hlt⟩ := List.mem_range'_1.1 hj
      obtain ⟨child, hchild⟩ := getElem?_of_lt (l := m'.tasks) (i := j) (by omega)
      refine ⟨child, hchild, ?_⟩
      rcases hturn.task_cases hchild with ⟨before, hbefore, -⟩ | ⟨-, hparent, -⟩
      · have := lt_of_getElem? hbefore
        omega
      · exact hparent
    · rcases hturn.task_cases hchild with ⟨before, hbefore, hsame, hold⟩ | ⟨hle, -⟩
      · -- no branch that the task has had before is still alive
        have hzero := horderly.liveKids_eq_zero htask hcontrol
        have hstopped := isStopped_of_liveKids_eq_zero hzero hbefore (by rw [← hsame, hparent])
        rw [hold hrunning] at hstopped
        cases hstopped
      · have := lt_of_getElem? hchild
        exact List.mem_range'_1.2 ⟨hle, by omega⟩
  | stops => cases hc

/-- A turn in which a task is not told about a branch brings no ending of its branches. -/
theorem endings_kept (hturn : Turn invoker m id deeds m')
    (hkids : ∀ j ∈ kids, ∃ child, m.tasks[j]? = some child ∧ child.parent = some p)
    (hkept : ∀ child outcome, m.tasks[id]? = some child → deeds = [.ended outcome] →
      child.parent ≠ some p) :
    endings kids (trail.entries id deeds) = [] := by
  by_cases hid : id ∈ kids
  · obtain ⟨child, hchild, hparent⟩ := hkids id hid
    rcases hturn.ending_cases with hnone | ⟨old, outcome, hold, -, -, hdeeds⟩
    · exact endings_entries_of_none hnone
    · rw [hchild] at hold
      cases hold
      rw [hparent, Option.isSome_some, if_pos rfl] at hdeeds
      exact absurd hparent (hkept child outcome hchild hdeeds)
  · exact endings_entries_of_notMem hid

/-- A task that ends was alive. -/
theorem running_of_ended {o : Outcome} (hturn : Turn invoker m id [.ended o] m') {child : Task}
    (hchild : m.tasks[id]? = some child) : child.control.isStopped = false := by
  rcases hturn.ending_cases with hnone | ⟨old, outcome, hold, -, hc, -⟩
  · cases hnone
  · rw [hchild] at hold
    cases hold
    rw [hc]
    rfl

/-- Another task has its turn while a task waits. -/
theorem waits_other (h : Joining d ⟨m, l⟩) (hturn : Turn invoker m id deeds m') (hne : p ≠ id)
    {trailp : Trail} (htrail : l.trails[p]? = some trailp) (hj : m'.tasks[p]? = some task)
    {step : Step} {missing : Nat} {ended : List (Nat × Outcome)}
    (hc : task.control = .join step missing ended) :
    ∃ kids after taken, ForkedAt (l.history ++ trail.entries id deeds) p
        (trailp.inside.headD []) step kids after ∧ Gathers m'.tasks p kids after taken ended := by
  cases hturn.fate hne hj with
  | kept hold hkept =>
    obtain ⟨kids, after, taken, hforked, hgathers⟩ :=
      h.waits p task trailp step missing ended hold htrail hc
    refine ⟨kids, after ++ trail.entries id deeds, taken, hforked.append (entries_task_ne hne), ?_,
      hgathers.succeeded, kids_turn hturn hgathers.theirs,
      alive_turn hturn (Or.inl hne) hgathers.alive⟩
    rw [endings_append, endings_kept hturn hgathers.theirs hkept, List.append_nil, hgathers.order]
  | @told old child o hold hchild hparent hended =>
    obtain ⟨before, hbefore, rfl⟩ := Control.told_eq_join hc
    obtain ⟨kids, after, taken, hforked, hgathers⟩ :=
      h.waits p old trailp step missing before hold htrail hbefore
    subst hended
    -- the task was alive, so it is one of the branches that are waited for
    have hid : id ∈ kids :=
      hgathers.alive id child hchild hparent (running_of_ended hturn hchild)
    refine ⟨kids, after ++ trail.entries id [.ended o], taken,
      hforked.append (entries_task_ne hne), ?_, hgathers.succeeded, kids_turn hturn hgathers.theirs,
      alive_turn hturn (Or.inl hne) hgathers.alive⟩
    rw [endings_append, endings_entries_ended hid, hgathers.order, List.append_assoc]
  | born => cases hc

end Scene.Joining

/-- A failed step is finished by a task that leaves it with the failure. -/
theorem Turn.finished_failing {step : Step} {failure : Failure} (h : Turn invoker m id deeds m')
    (hmem : Deed.finished step (.failed failure) ∈ deeds) :
    ∃ task frames, m.tasks[id]? = some task ∧ task.control = .leave (.failed failure) ∧
      task.frames = .finish step :: frames ∧ deeds = [.finished step (.failed failure)] := by
  cases h with
  | goes htask hrun hadv =>
    obtain ⟨hc, -, hframes, hdeeds⟩ := hadv.finished_failing hmem
    exact ⟨_, _, htask, hc, hframes, hdeeds⟩
  | _ => simp at hmem

/-- A step whose branches exist is left with a failure only because a branch has failed. -/
theorem Advance.breaks {calls : List Invocation} {run : Progress} {frames rest : List Frame}
    {control : Control} {inside : List Address} {step : Step} {failure : Failure}
    {ids : List String} {branches : List Step}
    (h : Advance invoker calls run frames control deeds (.finish step :: rest)
      (.leave (.failed failure)))
    (hd : run.definition = d) (hstack : Stack d frames inside)
    (hplaced : control.Placed d trail frames) (hwork : step.work = .parallel ids)
    (hall : resolveAll d ids = .ok branches) :
    deeds = [] ∧ ∃ missing branch outcome ended,
      control = .join step missing ((branch, outcome) :: ended) ∧
        outcome.blame step branch = some failure := by
  subst hd
  generalize hto : Control.leave (.failed failure) = control' at h
  generalize hframes : Frame.finish step :: rest = frames' at h
  cases h with
  | lost =>
    obtain ⟨-, rfl⟩ := hplaced
    cases hframes
  | unnamed hactivity =>
    obtain ⟨heq, -⟩ := List.cons.inj hframes
    cases heq
    rw [hwork] at hactivity
    cases hactivity
  | missing hwork' hmissing =>
    obtain ⟨heq, -⟩ := List.cons.inj hframes
    cases heq
    rw [hwork] at hwork'
    cases hwork'
    rw [hall] at hmissing
    cases hmissing
  | choose | next | child => exact absurd hto.symm (follow_ne_failed _ _)
  | finish =>
    -- a step can only be begun inside of a condition or a sequence
    subst hframes
    obtain ⟨choice, hchoice⟩ := hstack.open_of_finish
    rw [hwork] at hchoice
    cases hchoice
  | closed =>
    subst hframes
    cases hstack with
    | sequence hsequence =>
      rw [hwork] at hsequence
      cases hsequence
  | answer =>
    obtain ⟨⟨other, rfl⟩, hactivity⟩ := hplaced
    cases hframes
    rw [hwork] at hactivity
    cases hactivity
  | @broken _ _ missing branch outcome ended _ hblame =>
    obtain ⟨⟨other, rfl⟩, -⟩ := hplaced
    cases hframes
    cases hto
    exact ⟨rfl, missing, branch, outcome, ended, rfl, hblame⟩
  | _ => cases hto

namespace Scene

/-- The step whose branches a task waits for is left with the first failure. -/
theorem Joining.leaves_own (h : Joining d ⟨m, l⟩) (hplaced : Placed d ⟨m, l⟩)
    (htrail : ∀ old, m.tasks[id]? = some old → l.trails[id]? = some trail)
    (hown : Own invoker m id deeds task) {step : Step} {rest : List Frame} {failure : Failure}
    {ids : List String} {branches : List Step} (hc : task.control = .leave (.failed failure))
    (hframes : task.frames = .finish step :: rest) (hwork : step.work = .parallel ids)
    (hall : resolveAll d ids = .ok branches) :
    FailsFirst (l.history ++ trail.entries id deeds) id
      ((deeds.foldl Trail.record trail).inside.headD []) step failure := by
  cases hown with
  | idle htask =>
    have hbefore := h.leaves id task trail step rest failure ids branches htask (htrail _ htask) hc
      hframes hwork hall
    simpa [Trail.entries] using hbefore
  | @goes old _ _ _ _ htask hrun hadv =>
    dsimp only at hc hframes
    subst hc hframes
    obtain ⟨-, hstack, hcontrol⟩ := hplaced.tasks id old trail htask (htrail _ htask)
    -- all that has been taken before has succeeded, so the branch taken now is the first to fail
    obtain ⟨rfl, missing, branch, outcome, ended, hjoin, hblame⟩ :=
      hadv.breaks (hplaced.definition_of_getElem? hrun).2 hstack hcontrol hwork hall
    obtain ⟨kids, after, taken, hforked, hgathers⟩ :=
      h.waits id old trail step missing _ htask (htrail _ htask) hjoin
    refine ⟨kids, after, by simpa [Trail.entries] using hforked, ?_⟩
    rw [firstFailure_eq hgathers.order hgathers.succeeded, List.findSome?_cons, hblame]
  | forks => cases hc
  | stops => cases hc

theorem Joining.turn (h : Joining d ⟨m, l⟩) (hplaced : Placed d ⟨m, l⟩)
    (horderly : Orderly ⟨m, l⟩) (hturn : Turn invoker m id deeds m') :
    Joining d ⟨m', l.record id deeds⟩ := by
  obtain ⟨trail, htrail, hhistory⟩ := hplaced.history_record hturn
  -- where a task is that has been there before
  have hself : ∀ (t : Trail) (old : Task), m.tasks[id]? = some old →
      (l.record id deeds).trails[id]? = some t → t = deeds.foldl Trail.record trail := by
    intro t old hold ht
    rw [Ledger.trails_record_self (htrail old hold)] at ht
    exact (Option.some.inj ht).symm
  have hother : ∀ (p : Nat) (t : Trail) (old : Task), p ≠ id → m.tasks[p]? = some old →
      (l.record id deeds).trails[p]? = some t → l.trails[p]? = some t := by
    intro p t old hne hold ht
    rwa [hplaced.trails_other hne hold] at ht
  constructor
  case waits =>
    intro p task t step missing ended htask ht hc
    dsimp only at htask ht ⊢
    rw [hhistory]
    by_cases hne : p = id
    · subst hne
      obtain ⟨old, hold⟩ := (hturn.own htask).exists_task
      rw [hself t old hold ht]
      exact h.waits_own horderly htrail hturn htask hc
    · cases hold : m.tasks[p]? with
      | none =>
        cases hturn.fate hne htask with
        | kept hkept => rw [hold] at hkept; cases hkept
        | told htold => rw [hold] at htold; cases htold
        | born => cases hc
      | some old => exact h.waits_other hturn hne (hother p t old hne hold ht) htask hc
  case leaves =>
    intro p task t step rest failure ids branches htask ht hc hframes hwork hall
    dsimp only at htask ht ⊢
    rw [hhistory]
    by_cases hne : p = id
    · subst hne
      obtain ⟨old, hold⟩ := (hturn.own htask).exists_task
      rw [hself t old hold ht]
      exact h.leaves_own hplaced htrail (hturn.own htask) hc hframes hwork hall
    · refine FailsFirst.append ?_ (entries_task_ne hne)
      cases hturn.fate hne htask with
      | kept hold =>
        exact h.leaves p task t step rest failure ids branches hold (hother p t _ hne hold ht) hc
          hframes hwork hall
      | @told old _ o hold =>
        exact h.leaves p old t step rest failure ids branches hold (hother p t _ hne hold ht)
          (Control.told_eq_leave hc) hframes hwork hall
      | born => cases hc

theorem Reaches.joining (h : Reaches invoker (opening d input) x) : x.Joining d := by
  refine h.induct ?start ?turn ?same
  case start =>
    constructor
    · intro p task trail step missing ended htask htrail hc
      rw [(task_of_opening htask).2] at hc
      cases hc
    · intro p task trail step rest failure ids branches htask htrail hc
      rw [(task_of_opening htask).2] at hc
      cases hc
  case turn =>
    intro m m' l id deeds hreach hjoining hturn
    exact hjoining.turn hreach.placed hreach.orderly hturn
  case same =>
    rintro m m' l htasks - - ⟨hwaits, hleaves⟩
    dsimp only at hwaits hleaves
    rw [← htasks] at hwaits hleaves
    exact ⟨hwaits, hleaves⟩

/-- **A step with branches fails with the failure of the first branch to fail.** -/
theorem Reaches.first_failure (h : Reaches invoker (opening d input) x) :
    Throughout (FirstFailing d) x.ledger.history := by
  refine h.induct ?start ?turn ?same
  case start =>
    rw [history_opening]
    exact throughout_nil
  case turn =>
    intro m m' l id deeds hreach hthroughout hturn
    obtain ⟨trail, htrail, hhistory⟩ := hreach.placed.history_record hturn
    dsimp only
    rw [hhistory]
    refine hthroughout.append fun before e after hnew => ?_
    intro step failure ids branches hdeed hwork hall
    have hmem : e ∈ trail.entries id deeds := by simp [hnew]
    have hdeeds : Deed.finished step (.failed failure) ∈ deeds :=
      Trail.exists_mem_entries.1 ⟨e, hmem, hdeed⟩
    obtain ⟨old, frames, hold, hc, hframes, rfl⟩ := hturn.finished_failing hdeeds
    obtain ⟨rfl, rfl⟩ : before = [] ∧ e = ⟨id, trail.inside.headD [],
        .finished step (.failed failure)⟩ := by
      have hlen := congrArg List.length hnew
      simp only [Trail.entries, List.length_cons, List.length_nil, List.length_append] at hlen
      obtain rfl : before = [] := List.length_eq_zero_iff.1 (by omega)
      exact ⟨rfl, (List.cons.inj hnew).1.symm⟩
    rw [List.append_nil]
    exact hreach.joining.leaves id old trail step frames failure ids branches hold
      (htrail old hold) hc hframes hwork hall
  case same =>
    rintro m m' l - - - h
    exact h

end Scene

end Flowgraph.Run

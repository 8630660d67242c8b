import Flowgraph.Proofs.Run.Grammar
import Flowgraph.Proofs.Run.Rootless

/-!
# Failures without effect

That an activity has no name, or that a branch or the root does not exist, is found in the course of
a run. **Nothing comes of it but a failure** (`Reaches.fails_clean`), whatever else is going on in the
run: nothing is called, no branch is started, the next step is not come to, and the variables and
the other tasks stay as they are.

A task that has entered a step with a flaw is bound to fail with it, so all that is ever done at the
address of the step is to enter it and to leave it (`Reaches.aborted`). Nothing is begun beyond that
address: a branch would have to be started there, and a next step comes after a success
(`Reaches.begun_beyond`). What the task does on its way out reaches no other task
(`Reaches.spares_others`).
-/

set_option autoImplicit false

namespace Flowgraph.Run

open Machine (resolveAll)

variable {invoker : Invoker} {d : Definition} {input : Store} {x : Scene} {m m' : Machine}
  {l : Ledger} {id j n : Nat} {deeds : List Deed} {task : Task} {run : Progress}
  {history new : List Entry} {trail : Trail} {a : Address} {step : Step} {failure : Failure}
  {e f : Entry}

/-! ### All that is done at an address -/

/-- All that is done in the execution of a step. -/
def doneAt (a : Address) (history : List Entry) : List Entry :=
  history.filter fun e => e.deed.OfStep && e.address == a

theorem doneAt_append : doneAt a (history ++ new) = doneAt a history ++ doneAt a new :=
  List.filter_append ..

theorem mem_doneAt : e ∈ doneAt a history ↔
    e ∈ history ∧ e.deed.OfStep = true ∧ e.address = a := by
  rw [doneAt, List.mem_filter, Bool.and_eq_true, beq_iff_eq]

theorem doneAt_eq_nil (h : ∀ e ∈ history, e.deed.OfStep = true → e.address ≠ a) :
    doneAt a history = [] := by
  refine List.filter_eq_nil_iff.2 fun e he hdone => ?_
  rw [Bool.and_eq_true, beq_iff_eq] at hdone
  exact h e he hdone.1 hdone.2

namespace Scene

/-- What is done in the execution of a step is done once the step has begun. -/
theorem Reaches.begun_of_step (h : Reaches invoker (opening d input) x) :
    ∀ e ∈ x.ledger.history, e.deed.OfStep = true → 0 < begun e.address x.ledger.history := by
  refine h.induct (List.forall_mem_nil _) ?turn ?same
  case turn =>
    intro m m' l id deeds hreach ih hturn e he hof
    obtain ⟨trail, hid, hhistory⟩ := hreach.placed.history_record hturn
    dsimp only at ih he ⊢
    rw [hhistory] at he ⊢
    rw [begun_append]
    rcases List.mem_append.1 he with he | he
    · exact Nat.add_pos_left (ih e he hof) _
    · obtain ⟨task, htask, ⟨step, more, hc, rfl, haddress⟩ | hinside⟩ :=
        hreach.placed.done_at hturn hid he hof
      · refine Nat.add_pos_right _ ?_
        rw [Trail.entries, begun_cons, haddress, if_pos (by simp [Deed.Begins, Trail.address])]
        exact Nat.add_pos_left Nat.one_pos _
      · obtain ⟨hone, -, -⟩ := hreach.of_inside (hid task htask) hinside
        exact Nat.add_pos_left (by rw [hone]; exact Nat.one_pos) _
  case same =>
    intro m m' l htasks hruns hcalls ih
    exact ih

/-- Once a step has begun, what is done in its execution is done by the task that is inside of it. -/
theorem Reaches.inside_of_done (h : Reaches invoker (opening d input) ⟨m, l⟩)
    (hturn : Turn invoker m id deeds m')
    (hid : ∀ task, m.tasks[id]? = some task → l.trails[id]? = some trail)
    (he : e ∈ trail.entries id deeds) (hof : e.deed.OfStep = true)
    (hbegun : 0 < begun e.address l.history) :
    ∃ task, m.tasks[id]? = some task ∧ e.address ∈ trail.inside := by
  obtain ⟨task, htask, ⟨step, more, hc, -, haddress⟩ | hinside⟩ :=
    h.placed.done_at hturn hid he hof
  · have hzero := h.begun_eq_zero htask (hid task htask) (v := trail.here) (by simp [Task.ways, hc])
      (List.suffix_refl _)
    rw [haddress] at hbegun
    exact absurd hzero (Nat.ne_of_gt hbegun)
  · exact ⟨task, htask, hinside⟩

end Scene

/-! ### Steps with flaws -/

/-- What has become of a step with a flaw that a task has entered: the task is about to leave it, or
has left it and goes on to fail. -/
inductive Aborted (x : Scene) (id : Nat) (a : Address) (step : Step) (failure : Failure) : Prop
  | leaves {task : Task} {trail : Trail} {frames : List Frame} :
      x.machine.tasks[id]? = some task → x.ledger.trails[id]? = some trail →
      task.frames = .finish step :: frames → task.control = .leave (.failed failure) →
      trail.inside.head? = some a →
      doneAt a x.ledger.history = [⟨id, a, .entered step⟩] →
      Aborted x id a step failure
  | left :
      doneAt a x.ledger.history =
        [⟨id, a, .entered step⟩, ⟨id, a, .finished step (.failed failure)⟩] →
      (∀ task, x.machine.tasks[id]? = some task →
        Bound (· = .failed failure) x.ledger.history id task.control) →
      Aborted x id a step failure

/-- A task that has entered a step with a flaw is bound to fail with it. -/
theorem Aborted.bound (h : Aborted x id a step failure)
    (htask : x.machine.tasks[id]? = some task) :
    Bound (· = .failed failure) x.ledger.history id task.control := by
  cases h with
  | leaves hold htrail hframes hc =>
    obtain rfl := Option.some.inj (htask.symm.trans hold)
    exact Or.inl ⟨_, rfl, hc⟩
  | left hdone hbound => exact hbound task htask

namespace Scene

/-- The run that a task works on. -/
theorem Placed.exists_run (h : x.Placed d) (htask : x.machine.tasks[id]? = some task) :
    ∃ run, x.machine.runs[task.run]? = some run ∧ run.definition = d := by
  obtain ⟨run, hruns, hd⟩ := h.run
  obtain ⟨hzero, -⟩ := h.exists_placed htask
  exact ⟨run, by rw [hruns, hzero]; rfl, hd⟩

/-- Nothing more is done in the execution of a step by a task that is not inside of it. -/
theorem Reaches.doneAt_record (h : Reaches invoker (opening d input) ⟨m, l⟩)
    (hturn : Turn invoker m id deeds m') (hbegun : 0 < begun a l.history)
    (hnot : ∀ trail, l.trails[id]? = some trail → a ∉ trail.inside) :
    doneAt a (l.record id deeds).history = doneAt a l.history := by
  obtain ⟨trail, hid, hhistory⟩ := h.placed.history_record hturn
  have hnone : doneAt a (trail.entries id deeds) = [] := by
    refine doneAt_eq_nil fun e he hof heq => ?_
    obtain ⟨task, htask, hinside⟩ := h.inside_of_done hturn hid he hof (heq ▸ hbegun)
    exact hnot trail (hid task htask) (heq ▸ hinside)
  rw [hhistory, doneAt_append, hnone, List.append_nil]

end Scene

/-- The task leaves the step that it has entered. -/
theorem Aborted.left_of_turn {frames : List Frame}
    (hreach : Scene.Reaches invoker (Scene.opening d input) ⟨m, l⟩)
    (hturn : Turn invoker m id deeds m') (htask : m.tasks[id]? = some task)
    (htrail : l.trails[id]? = some trail) (hframes : task.frames = .finish step :: frames)
    (hc : task.control = .leave (.failed failure)) (hinside : trail.inside.head? = some a)
    (hdone : doneAt a l.history = [⟨id, a, .entered step⟩]) :
    Aborted ⟨m', l.record id deeds⟩ id a step failure := by
  obtain ⟨after, hafter⟩ := getElem?_of_lt
    (Nat.lt_of_lt_of_le (lt_of_getElem? htask) hturn.length_tasks_le)
  obtain ⟨run, hrun, -⟩ := hreach.placed.exists_run htask
  obtain ⟨rfl, rfl⟩ := (hturn.own hafter).finishes htask hrun hframes hc
  refine .left ?_ fun task' htask' => ?_
  · show doneAt a (l.record id _).history = _
    rw [Ledger.history_record htrail, doneAt_append, hdone]
    simp [doneAt, Trail.entries, Trail.address, Deed.OfStep, hinside]
  · obtain rfl := Option.some.inj (hafter.symm.trans htask')
    exact Or.inl ⟨_, rfl, rfl⟩

/-- A step with a flaw that a task has entered stays so, or is left by the task. -/
theorem Aborted.turn (h : Aborted ⟨m, l⟩ id a step failure)
    (hreach : Scene.Reaches invoker (Scene.opening d input) ⟨m, l⟩)
    (hturn : Turn invoker m j deeds m')
    (hentered : (⟨id, a, .entered step⟩ : Entry) ∈ l.history) :
    Aborted ⟨m', l.record j deeds⟩ id a step failure := by
  have hbegun : 0 < begun a l.history := begun_pos hentered rfl
  have hlt : id < m.tasks.length := hreach.placed.entry_lt hentered
  cases h with
  | @leaves task trail frames htask htrail hframes hc hinside hdone =>
    by_cases hne : id = j
    · subst hne
      exact .left_of_turn hreach hturn htask htrail hframes hc hinside hdone
    · -- no other task is inside of the step
      have ha : a ∈ trail.inside := List.mem_of_head? hinside
      have hsame := hreach.doneAt_record hturn hbegun fun other hother hmem =>
        hne (hreach.eq_of_inside htrail hother ha hmem)
      have htrail' : (l.record j deeds).trails[id]? = some trail := by
        rw [hreach.placed.trails_other hne htask]
        exact htrail
      obtain ⟨after, hafter⟩ := getElem?_of_lt (Nat.lt_of_lt_of_le hlt hturn.length_tasks_le)
      cases hturn.fate hne hafter with
      | kept hold =>
        obtain rfl := Option.some.inj (htask.symm.trans hold)
        exact .leaves hafter htrail' hframes hc hinside (hsame.trans hdone)
      | told hold =>
        obtain rfl := Option.some.inj (htask.symm.trans hold)
        refine .leaves hafter htrail' hframes ?_ hinside (hsame.trans hdone)
        show Control.told _ task.control = _
        rw [hc]
        rfl
      | born _ _ _ _ hjb => omega
  | left hdone hbound =>
    refine .left ((hreach.doneAt_record hturn hbegun ?_).trans hdone) fun task' htask' =>
      hreach.orderly.bound_turn hreach.placed nofun hturn htask' hlt hbound
    -- what has been left, no task is inside of
    intro other hother hmem
    obtain ⟨-, hzero, -⟩ := hreach.of_inside hother hmem
    have hfinished : (⟨id, a, .finished step (.failed failure)⟩ : Entry) ∈ doneAt a l.history := by
      rw [hdone]
      simp
    exact absurd hzero (Nat.ne_of_gt (finished_pos (mem_doneAt.1 hfinished).1 rfl))

/-- To enter a step with a flaw is all that a task does in a turn. -/
theorem Scene.Reaches.enters_flawed (h : Reaches invoker (opening d input) ⟨m, l⟩)
    (hturn : Turn invoker m j deeds m')
    (hentered : (⟨id, a, .entered step⟩ : Entry) ∈ trail.entries j deeds)
    (hflaw : flaw? d step = some failure) :
    id = j ∧ a = trail.here ∧ deeds = [.entered step] ∧
      ∃ task, m.tasks[j]? = some task ∧ task.control = .enter step ∧
        m'.tasks[j]? =
          some ⟨task.run, task.parent, .finish step :: task.frames, .leave (.failed failure)⟩ := by
  obtain ⟨before, rest, hentries⟩ := List.append_of_mem hentered
  obtain ⟨rfl, task, htask, ⟨step', hc, heq⟩ | ⟨_, _, _, _, _, heq⟩⟩ :=
    hturn.marking.of_entries hentries rfl
  · cases heq
    obtain ⟨run, hrun, hd⟩ := h.placed.exists_run htask
    obtain ⟨after, hafter⟩ := getElem?_of_lt
      (Nat.lt_of_lt_of_le (lt_of_getElem? htask) hturn.length_tasks_le)
    obtain ⟨rfl, rfl⟩ := (hturn.own hafter).flawed htask hrun hc (hd ▸ hflaw)
    exact ⟨rfl, rfl, rfl, task, htask, hc, hafter⟩
  · cases heq

/-- A task enters a step with a flaw. -/
theorem Aborted.of_entered (hreach : Scene.Reaches invoker (Scene.opening d input) ⟨m, l⟩)
    (hturn : Turn invoker m j deeds m')
    (hid : ∀ task, m.tasks[j]? = some task → l.trails[j]? = some trail)
    (hentered : (⟨id, a, .entered step⟩ : Entry) ∈ trail.entries j deeds)
    (hflaw : flaw? d step = some failure) : Aborted ⟨m', l.record j deeds⟩ id a step failure := by
  obtain ⟨rfl, rfl, rfl, task, htask, hc, hafter⟩ := hreach.enters_flawed hturn hentered hflaw
  have htrail : (l.record id [.entered step]).trails[id]? = some (trail.record (.entered step)) :=
    Ledger.trails_record_self (hid task htask)
  refine .leaves hafter htrail rfl rfl rfl ?_
  -- nothing has been done there before
  have hzero : begun trail.here l.history = 0 := hreach.begun_eq_zero htask (hid task htask)
    (v := trail.here) (by simp [Task.ways, hc]) (List.suffix_refl _)
  have hnone : doneAt trail.here l.history = [] := doneAt_eq_nil fun e he hof heq =>
    absurd hzero (Nat.ne_of_gt (heq ▸ hreach.begun_of_step e he hof))
  show doneAt trail.here (l.record id _).history = _
  rw [Ledger.history_record (hid task htask), doneAt_append, hnone]
  simp [doneAt, Trail.entries, Trail.address, Deed.OfStep]

namespace Scene

/-- **All that becomes of a step with a flaw** is that the task leaves it and fails. -/
theorem Reaches.aborted (h : Reaches invoker (opening d input) x) :
    ∀ id a step failure, (⟨id, a, .entered step⟩ : Entry) ∈ x.ledger.history →
      flaw? d step = some failure → Aborted x id a step failure := by
  refine h.induct ?start ?turn ?same
  case start =>
    rw [history_opening]
    intro id a step failure hentered
    cases hentered
  case turn =>
    intro m m' l j deeds hreach ih hturn id a step failure hentered hflaw
    obtain ⟨trail, hid, hhistory⟩ := hreach.placed.history_record hturn
    dsimp only at ih hentered
    rw [hhistory] at hentered
    rcases List.mem_append.1 hentered with hentered | hentered
    · exact (ih id a step failure hentered hflaw).turn hreach hturn hentered
    · exact .of_entered hreach hturn hid hentered hflaw
  case same =>
    intro m m' l htasks hruns hcalls ih id a step failure hentered hflaw
    cases ih id a step failure hentered hflaw with
    | leaves htask htrail hframes hc hinside hdone =>
      exact .leaves (by rw [← htask]; exact congrArg (·[id]?) htasks) htrail hframes hc hinside hdone
    | left hdone hbound =>
      refine .left hdone fun task htask => hbound task ?_
      rw [← htask]
      exact congrArg (·[id]?) htasks.symm

end Scene

/-! ### What lies beyond -/

/-- All that is done in the execution of a step, and in those that are begun from it. -/
def doneFrom (a : Address) (history : List Entry) : List Entry :=
  history.filter fun e => e.deed.OfStep && decide (a <:+ e.address)

/-- Whether a deed leaves a step, or ends the task, with an outcome. -/
def Deed.Leaves (outcome : Outcome) : Deed → Prop
  | .finished _ result | .ended result | .returned result => result = outcome
  | _ => False

theorem Deed.Leaves.not_outward {outcome : Outcome} {deed : Deed} (h : deed.Leaves outcome) :
    deed.Outward = false := by
  cases deed <;> first | rfl | exact h.elim

/-- What is done in the execution of a step with a flaw is to enter it and to leave it. -/
theorem Aborted.done (h : Aborted x id a step failure) (he : e ∈ doneAt a x.ledger.history) :
    e.deed = .entered step ∨ e.deed = .finished step (.failed failure) := by
  cases h with
  | leaves _ _ _ _ _ hdone =>
    rw [hdone] at he
    rw [List.mem_singleton.1 he]
    exact Or.inl rfl
  | left hdone =>
    rw [hdone] at he
    simp only [List.mem_cons, List.not_mem_nil, or_false] at he
    rcases he with rfl | rfl
    · exact Or.inl rfl
    · exact Or.inr rfl

namespace Scene

/-- **Nothing is begun beyond a step with a flaw**: a branch would have to be started there, and a
next step would have to come after a success. -/
theorem Reaches.begun_beyond (h : Reaches invoker (opening d input) x)
    (hentered : (⟨id, a, .entered step⟩ : Entry) ∈ x.ledger.history)
    (hflaw : flaw? d step = some failure) (n : Nat) : begun (n :: a) x.ledger.history = 0 := by
  by_contra hsome
  obtain ⟨g, hg, target, hdeed, haddress⟩ := exists_of_begun_pos (Nat.pos_of_ne_zero hsome)
  have haborted := h.aborted id a step failure hentered hflaw
  have hat : d.at? a = some step := (h.placed.entries _ hentered).2
  have hbeyond : d.at? (n :: a) = some target := by
    have hlocated := (h.placed.entries g hg).2
    rwa [hdeed, haddress] at hlocated
  obtain ⟨step', r, hat', hr, -⟩ := Definition.exists_of_at?_cons hbeyond
  obtain rfl : step' = step := Option.some.inj (hat'.symm.trans hat)
  by_cases hn : n = step'.work.references.length
  · -- the next step of a step begins after the step has succeeded
    obtain ⟨before, after, heq⟩ := List.append_of_mem hg
    obtain ⟨t, ht, -, hnext⟩ :=
      h.comes_after.2 before g after heq target n a hdeed haddress
    obtain rfl : t = step' := Option.some.inj (ht.symm.trans hat)
    obtain ⟨f, hf, hsame, hdone⟩ := hnext hn
    have hmem : f ∈ doneAt a x.ledger.history :=
      mem_doneAt.2 ⟨by rw [heq]; exact List.mem_append_left _ hf, by rw [hdone]; rfl, hsame⟩
    rcases haborted.done hmem with heq | heq <;> rw [hdone] at heq <;> cases heq
  · have hlt : n < step'.work.references.length := by
      have hle := lt_of_getElem? hr
      have hlength : step'.next.toList.length ≤ 1 := by cases step'.next <;> simp
      simp only [Step.references, List.length_append, Option.toList_map, List.length_map] at hle
      omega
    rcases flaw_cases hflaw with ⟨call, hwork, -⟩ | ⟨ids, missing, hwork, -⟩
    · rw [hwork] at hlt
      exact absurd hlt (Nat.not_lt_zero n)
    · -- the task of a branch has been started there
      have hforks : d.forksAt a n = true :=
        Definition.forksAt_parallel hat hwork (by simpa [hwork, Work.references] using hlt)
      have hbranch : d.branch? (n :: a) = some (n :: a) := by
        rw [Definition.branch?, if_pos hforks]
      rcases haddress ▸ h.homes g hg (by rw [hdeed]; rfl) with
        ⟨-, hnone⟩ | ⟨p, b, s, kids, k, hforked, -, hsame⟩
      · rw [hbranch] at hnone
        cases hnone
      · rw [hbranch] at hsame
        obtain ⟨rfl, rfl⟩ := List.cons.inj (Option.some.inj hsame)
        have hmem : (⟨p, a, .forked s kids⟩ : Entry) ∈ doneAt a x.ledger.history :=
          mem_doneAt.2 ⟨hforked, rfl, rfl⟩
        rcases haborted.done hmem with heq | heq <;> cases heq

/-- What is done from a step with a flaw is done in its own execution. -/
theorem Reaches.doneFrom_eq (h : Reaches invoker (opening d input) x)
    (hentered : (⟨id, a, .entered step⟩ : Entry) ∈ x.ledger.history)
    (hflaw : flaw? d step = some failure) :
    doneFrom a x.ledger.history = doneAt a x.ledger.history := by
  refine List.filter_congr fun f hf => ?_
  cases hof : f.deed.OfStep with
  | false => rfl
  | true =>
    rw [Bool.true_and, Bool.true_and, Bool.eq_iff_iff, decide_eq_true_iff, beq_iff_eq]
    constructor
    · intro hsuffix
      by_contra hne
      obtain ⟨more, hmore⟩ := hsuffix
      rcases List.eq_nil_or_concat more with rfl | ⟨more, n, rfl⟩
      · exact hne hmore.symm
      · have hon : n :: a <:+ f.address := ⟨more, by rw [← hmore]; simp⟩
        have hpos := h.begun_of_suffix hon (h.begun_of_step f hf hof)
        rw [h.begun_beyond hentered hflaw n] at hpos
        exact absurd hpos (Nat.lt_irrefl 0)
    · rintro rfl
      exact List.suffix_refl _

end Scene

/-! ### How the task goes on -/

/-- Whether a task with this control can only leave with a failure, or wait for its branches until
one of them has failed. -/
def Control.Yields (failure : Failure) : Control → Prop
  | .leave outcome => outcome = .failed failure
  | .join _ _ _ | .stopped => True
  | _ => False

/-- After a task has entered a step with a flaw, an entry for the task is one of leaving with the
failure. -/
def Withdrawing (d : Definition) (before : List Entry) (e : Entry) : Prop :=
  ∀ a step failure, (⟨e.task, a, .entered step⟩ : Entry) ∈ before →
    flaw? d step = some failure → e.deed.Leaves (.failed failure)

theorem Advance.yields {frames frames' : List Frame} {control control' : Control}
    {calls : List Invocation}
    (h : Advance invoker calls run frames control deeds frames' control')
    (hyields : control.Yields failure) : ∀ deed ∈ deeds, deed.Leaves (.failed failure) := by
  cases h <;> simp_all [Deed.Leaves, Control.Yields]

/-- All that such a task does is to leave. -/
theorem Own.leaves (hown : Own invoker m id deeds task)
    (h : ∀ old, m.tasks[id]? = some old → old.control.Yields failure) :
    ∀ deed ∈ deeds, deed.Leaves (.failed failure) := by
  cases hown with
  | idle => exact List.forall_mem_nil _
  | goes htask hrun hadv => exact hadv.yields (h _ htask)
  | forks htask hrun hc =>
    have hnow := h _ htask
    rw [hc] at hnow
    exact hnow.elim
  | @stops old outcome deed htask hframes hc hdeed =>
    have hnow := h _ htask
    rw [hc] at hnow
    obtain rfl : outcome = .failed failure := hnow
    rw [hdeed]
    cases old.parent <;> simp [Deed.Leaves]

namespace Scene

/-- A task that has entered a step with a flaw leaves, or has stopped. -/
theorem Reaches.leaves_of_entered (h : Reaches invoker (opening d input) x)
    (hentered : (⟨id, a, .entered step⟩ : Entry) ∈ x.ledger.history)
    (hflaw : flaw? d step = some failure) (htask : x.machine.tasks[id]? = some task) :
    task.control = .leave (.failed failure) ∨
      (task.control = .stopped ∧ outcomeOf x.ledger.history id = some (.failed failure)) := by
  rcases (h.aborted id a step failure hentered hflaw).bound htask with
    ⟨_, rfl, hleave⟩ | ⟨_, rfl, hended⟩
  · exact Or.inl hleave
  · exact Or.inr ⟨h.orderly.stopped_of_outcomeOf htask hended, hended⟩

/-- **After a task has entered a step with a flaw, it does nothing but leave what it is inside of**,
with the failure. -/
theorem Reaches.withdraws (h : Reaches invoker (opening d input) x) :
    Throughout (Withdrawing d) x.ledger.history := by
  refine h.induct throughout_nil ?turn ?same
  case turn =>
    intro m m' l id deeds hreach ih hturn
    obtain ⟨trail, hid, hhistory⟩ := hreach.placed.history_record hturn
    dsimp only at ih ⊢
    rw [hhistory]
    refine ih.append fun before e after hentries a step failure hentered hflaw => ?_
    have he : e ∈ trail.entries id deeds := by simp [hentries]
    rw [Trail.task_of_mem_entries he] at hentered
    rcases List.mem_append.1 hentered with hentered | hentered
    · have hdeed := Trail.deed_mem_of_mem_entries he
      rcases hturn.exists_own with rfl | ⟨task, hown⟩
      · cases hdeed
      · refine hown.leaves (fun old hold => ?_) e.deed hdeed
        rcases hreach.leaves_of_entered hentered hflaw hold with hc | ⟨hc, -⟩ <;> rw [hc]
        · rfl
        · trivial
    · -- nothing is done after that in the turn in which the task enters the step
      have hmem : (⟨id, a, .entered step⟩ : Entry) ∈ trail.entries id deeds := by
        rw [hentries]
        exact List.mem_append_left _ hentered
      obtain ⟨-, -, rfl, -⟩ := hreach.enters_flawed hturn hmem hflaw
      have hlength := congrArg List.length hentries
      have hpos := List.length_pos_of_mem hentered
      simp only [Trail.entries, List.length_cons, List.length_nil, List.length_append] at hlength
      omega
  case same =>
    intro m m' l htasks hruns hcalls ih
    exact ih

/-- **A task that enters a step with a flaw leaves everything else alone**, and so do those that
fail because of it. -/
theorem Reaches.spares_others (h : Reaches invoker (opening d input) x) {rest : List Nat}
    (hready : x.machine.ready = id :: rest) (htask : x.machine.tasks[id]? = some task)
    (hc : (∃ step, task.control = .enter step ∧ flaw? d step = some failure) ∨
      task.control.Yields failure)
    (hstep : x.machine.step invoker = some m') :
    x.machine.SparesOthers m' id (.failed failure) := by
  obtain ⟨rest', hready', hturn⟩ := step_turn hstep
  obtain ⟨hid, -⟩ := List.cons.inj (hready'.symm.trans hready)
  rw [hid] at hturn
  obtain ⟨run, hrun, hd⟩ := h.placed.exists_run htask
  obtain ⟨after, hafter⟩ := getElem?_of_lt
    (Nat.lt_of_lt_of_le (lt_of_getElem? htask) hturn.length_tasks_le)
  rcases hc with ⟨step, hc, hflaw⟩ | hyields
  · obtain ⟨hdeeds, -⟩ := (hturn.own hafter).flawed htask hrun hc (hd ▸ hflaw)
    rw [hdeeds] at hturn
    exact hturn.spares_others hready (by simp [Deed.Outward]) (by simp)
  · have hleaves := (hturn.own hafter).leaves fun old hold =>
      Option.some.inj (htask.symm.trans hold) ▸ hyields
    exact hturn.spares_others hready (fun deed hdeed => (hleaves deed hdeed).not_outward)
      fun result hmem => hleaves _ hmem

/-- With an empty line, a task that has entered a step with a flaw has failed. -/
theorem Reaches.failed_of_entered (h : Reaches invoker (opening d input) x)
    (hentered : (⟨id, a, .entered step⟩ : Entry) ∈ x.ledger.history)
    (hflaw : flaw? d step = some failure) (hready : x.machine.ready = []) :
    outcomeOf x.ledger.history id = some (.failed failure) := by
  obtain ⟨task, htask⟩ := getElem?_of_lt (h.placed.entry_lt hentered)
  rcases h.leaves_of_entered hentered hflaw htask with hleave | ⟨-, hended⟩
  · rcases h.waiting hready htask with hnow | ⟨_, _, _, hnow⟩ | ⟨_, _, hnow⟩ <;>
      rw [hleave] at hnow <;> cases hnow
  · exact hended

/-- **A run in which a step with a flaw has been entered fails**, if it returns. -/
theorem Reaches.failed_of_flaw (h : Reaches invoker (opening d input) x)
    (hentered : (⟨id, a, .entered step⟩ : Entry) ∈ x.ledger.history)
    (hflaw : flaw? d step = some failure) {outcome : Outcome}
    (hresult : outcomeOf x.ledger.history 0 = some outcome) :
    ∃ other, outcome = .failed other := by
  obtain ⟨task, htask⟩ := getElem?_of_lt (h.placed.entry_lt hentered)
  by_contra hnot
  have hother : ∃ result, outcomeOf x.ledger.history id = some result ∧
      result ≠ .failed failure := by
    by_cases hid : id = 0
    · subst hid
      exact ⟨outcome, hresult, fun heq => hnot ⟨failure, heq⟩⟩
    · exact ⟨.done, h.done_of_returned hresult (fun other heq => hnot ⟨other, heq⟩) hid htask,
        nofun⟩
  obtain ⟨result, hended, hne⟩ := hother
  rcases h.leaves_of_entered hentered hflaw htask with hleave | ⟨-, hfailed⟩
  · rw [h.orderly.outcomeOf_eq_none htask (by rw [hleave]; rfl)] at hended
    cases hended
  · exact hne (Option.some.inj (hended.symm.trans hfailed))

/-- With an empty line, a run in which a step with a flaw has been entered has failed. -/
theorem Reaches.failed_of_flaw_of_ready (h : Reaches invoker (opening d input) x)
    (hentered : (⟨id, a, .entered step⟩ : Entry) ∈ x.ledger.history)
    (hflaw : flaw? d step = some failure) (hready : x.machine.ready = []) :
    ∃ other, outcomeOf x.ledger.history 0 = some (.failed other) := by
  have hended := h.failed_of_entered hentered hflaw hready
  by_cases hid : id = 0
  · exact ⟨failure, hid ▸ hended⟩
  · exact h.failed_of_ready hready hid hended nofun

end Scene

/-! ### Without effect -/

/-- What comes of the flaws of a workflow in its run. -/
structure Scene.FailsClean (invoker : Invoker) (d : Definition) (input : Store) (x : Scene) :
    Prop where
  /-- A task that enters a step with a flaw has left it after two small steps, with the failure. All
  that has become of it is two reports: the variables, the calls, the other tasks, the line and the
  timers are what they were. -/
  enters : ∀ id rest task step failure, x.machine.ready = id :: rest →
    x.machine.tasks[id]? = some task → task.control = .enter step →
    flaw? d step = some failure → ∃ run, x.machine.runs = [run] ∧
      (x.machine.step invoker).bind (·.step invoker) = some
        { x.machine with
          tasks := x.machine.tasks.set id { task with control := .leave (.failed failure) }
          runs := [{ run with events := run.events ++
            [.stepStarted step.id step.work.kind,
              .stepFinished step.id step.work.kind .failed (some failure.message)] }] }
  /-- All that is ever done in the execution of a step with a flaw, and in those begun from it, is to
  enter the step and to leave it with the failure. -/
  around : ∀ id a step failure, (⟨id, a, .entered step⟩ : Entry) ∈ x.ledger.history →
    flaw? d step = some failure →
      (doneFrom a x.ledger.history = [⟨id, a, .entered step⟩] ∧ x.machine.ready ≠ []) ∨
      doneFrom a x.ledger.history =
        [⟨id, a, .entered step⟩, ⟨id, a, .finished step (.failed failure)⟩]
  /-- From then on the task is on its way out with the failure, until it has stopped. -/
  leaves : ∀ id a step failure, (⟨id, a, .entered step⟩ : Entry) ∈ x.ledger.history →
    flaw? d step = some failure → ∃ task, x.machine.tasks[id]? = some task ∧
      (task.control = .leave (.failed failure) ∨ task.control = .stopped)
  /-- All that it does on its way is to leave what it is inside of. -/
  withdraws : Throughout (Withdrawing d) x.ledger.history
  /-- In all of this it leaves everything else alone, and so do the tasks that wait for it as for a
  branch and fail in their turn. -/
  spares : ∀ id rest task failure m, x.machine.ready = id :: rest →
    x.machine.tasks[id]? = some task →
    (∃ step, task.control = .enter step ∧ flaw? d step = some failure) ∨
      task.control.Yields failure →
    x.machine.step invoker = some m → x.machine.SparesOthers m id (.failed failure)
  /-- The run can only fail. Once the line is empty, the task has failed with the failure, and the
  run has failed. -/
  fails : ∀ id a step failure, (⟨id, a, .entered step⟩ : Entry) ∈ x.ledger.history →
    flaw? d step = some failure →
      (∀ outcome, x.machine.runs.map (·.outcome) = [some outcome] →
        ∃ other, outcome = .failed other) ∧
      (x.machine.ready = [] → outcomeOf x.ledger.history id = some (.failed failure) ∧
        ∃ other, x.machine.runs.map (·.outcome) = [some (.failed other)])
  /-- A run without a root fails before anything else is done. -/
  rootless : d.rootStep? = none → x.Rootless invoker d input

namespace Scene

/-- **Flaws have no effect but the failure**, wherever in a run a step with a flaw is come to. -/
theorem Reaches.fails_clean (h : Reaches invoker (opening d input) x) :
    x.FailsClean invoker d input := by
  obtain ⟨run, hruns, -, houtcome⟩ := h.recorded
  have hresult : ∀ {outcome}, x.machine.runs.map (·.outcome) = [some outcome] ↔
      outcomeOf x.ledger.history 0 = some outcome := by
    intro outcome
    rw [hruns, List.map_singleton, List.singleton_inj, houtcome]
  refine ⟨?enters, ?around, ?leaves, h.withdraws, ?spares, ?fails, h.rootless⟩
  case enters =>
    intro id rest task step failure hready htask hc hflaw
    obtain ⟨hzero, -⟩ := h.placed.exists_placed htask
    obtain ⟨run', hrun, hd⟩ := h.placed.exists_run htask
    obtain rfl : run' = run := by
      rw [hzero, hruns] at hrun
      exact (Option.some.inj hrun).symm
    refine ⟨run', hruns, ?_⟩
    rw [Machine.step_step_of_flaw hready htask hrun hc (hd ▸ hflaw), hzero, hruns]
    rfl
  case around =>
    intro id a step failure hentered hflaw
    rw [h.doneFrom_eq hentered hflaw]
    cases h.aborted id a step failure hentered hflaw with
    | leaves htask htrail hframes hc hinside hdone =>
      refine Or.inl ⟨hdone, fun hready => ?_⟩
      rcases h.waiting hready htask with hnow | ⟨_, _, _, hnow⟩ | ⟨_, _, hnow⟩ <;>
        rw [hc] at hnow <;> cases hnow
    | left hdone => exact Or.inr hdone
  case leaves =>
    intro id a step failure hentered hflaw
    obtain ⟨task, htask⟩ := getElem?_of_lt (h.placed.entry_lt hentered)
    exact ⟨task, htask, (h.leaves_of_entered hentered hflaw htask).imp_right And.left⟩
  case spares =>
    intro id rest task failure m hready htask hc hstep
    exact h.spares_others hready htask hc hstep
  case fails =>
    intro id a step failure hentered hflaw
    refine ⟨fun outcome hend => h.failed_of_flaw hentered hflaw (hresult.1 hend),
      fun hready => ?_⟩
    obtain ⟨other, hfailed⟩ := h.failed_of_flaw_of_ready hentered hflaw hready
    exact ⟨h.failed_of_entered hentered hflaw hready, other, hresult.2 hfailed⟩

end Scene

/-- A workflow with three branches, two of which have a flaw. -/
def botched : Definition where
  name := "botched"
  root := "outer"
  steps := [
    { id := "outer", work := .parallel ["slow", "nameless", "forked"], next := some "after" },
    { id := "slow", work := .activity { activity := "wait" }, next := some "after" },
    { id := "nameless", work := .activity { activity := " " }, next := some "after" },
    { id := "forked", work := .parallel ["slow", "ghost", "after", "phantom"],
      next := some "after" },
    { id := "after", work := .activity { activity := "wait" } }]

/-- The two branches fail before the first call has come back. The other branch goes on to its end,
and nothing else is called. Without its root, the workflow fails with nothing called at all. -/
theorem fails_clean_botched :
    let wait : Invoker := fun _ _ => ⟨7, .result (.ok .null)⟩
    let x := (Scene.next wait)^[40] (Scene.opening botched [])
    let lost : Definition := { botched with root := "nowhere" }
    let y := (Scene.next wait)^[40] (Scene.opening lost [])
    (x.FailsClean wait botched [] ∧ y.FailsClean wait lost []) ∧
      x.machine.calls.map (·.name) = ["wait", "wait"] ∧
      (x.ledger.history.filterMap fun e => e.deed.ending?.map (e.task, ·)) =
        [(2, .failed (.missingActivityName "nameless")),
          (3, .failed (.missingBranch "forked" "ghost")),
          (0, .failed (.missingActivityName "nameless")), (1, .done)] ∧
      y.machine.calls = [] ∧
      y.machine.runs.map (·.outcome) = [some (.failed (.rootNotFound "nowhere"))] :=
  ⟨⟨(Scene.reaches_iterate 40).fails_clean, (Scene.reaches_iterate 40).fails_clean⟩,
    by decide +kernel⟩

end Flowgraph.Run

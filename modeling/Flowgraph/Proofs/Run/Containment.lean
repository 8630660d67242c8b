import Flowgraph.Proofs.Run.FirstFailure
import Flowgraph.Proofs.Run.Homes
import Flowgraph.Proofs.Run.Inward
import Flowgraph.Proofs.Run.Line
import Flowgraph.Proofs.Run.Panics
import Flowgraph.Proofs.Run.Verdict

/-!
# Panics are contained

A panic ends the task whose call has panicked, and no other one. If that is the task of a branch,
the innermost step with branches around the call turns the panic into a failure: its own, if the
branch is the first not to succeed, and otherwise it has failed before with the failure of an earlier
branch. From there on the run fails like any other one. So the caller of a run only meets a panic
that was none of a branch's.

`Scene.Contained` says this about a scene; `Reaches.contained` shows it for every scene that is
reached, for whatever definition, invoker and schedule.
-/

set_option autoImplicit false

namespace Flowgraph.Run

open Machine (follow resolveAll)

variable {invoker : Invoker} {d : Definition} {input : Store} {x : Scene} {m m' : Machine}
  {l : Ledger} {id j p : Nat} {deeds : List Deed} {task : Task} {kids : List Nat}
  {history new before : List Entry} {trail : Trail} {a : Address} {step : Step} {outcome : Outcome}
  {payload : Payload}

/-! ### Where branches are started -/

/-- Branches are started for a step that has begun and is not over, once, and by new tasks. -/
def ForkedOnce (before : List Entry) (e : Entry) : Prop :=
  ∀ step kids, e.deed = .forked step kids →
    (0 < begun e.address before ∧ finished e.address before = 0) ∧
      (∀ f ∈ before, f.address = e.address → ∀ step kids, f.deed ≠ .forked step kids) ∧
      ∀ f ∈ before, f.task ∉ kids

/-- Branches are started by a task that begins a step. -/
theorem Turn.forked (h : Turn invoker m id deeds m') {step : Step} {kids : List Nat}
    (hmem : Deed.forked step kids ∈ deeds) :
    deeds = [.entered step, .forked step kids] ∧ ∃ task branches,
      m.tasks[id]? = some task ∧ task.control = .enter step ∧
        kids = List.range' m.tasks.length (List.length (α := Step) branches) := by
  cases h with
  | goes htask hrun hadv => exact absurd rfl (hadv.ne_forked _ hmem step kids)
  | forks htask hrun hc =>
    simp only [List.mem_cons, reduceCtorEq, List.not_mem_nil, or_false, false_or] at hmem
    obtain ⟨rfl, rfl⟩ := Deed.forked.inj hmem
    exact ⟨rfl, _, _, htask, hc, rfl⟩
  | _ => simp at hmem

namespace Scene

/-- **Branches are started once**, at every address. -/
theorem Reaches.forked_once (h : Reaches invoker (opening d input) x) :
    Throughout ForkedOnce x.ledger.history := by
  refine h.induct throughout_nil ?turn ?same
  case turn =>
    intro m m' l id deeds hreach ih hturn
    obtain ⟨trail, hid, hhistory⟩ := hreach.placed.history_record hturn
    dsimp only at ih ⊢
    rw [hhistory]
    refine ih.append fun before e after hentries step kids hdeed => ?_
    have he : e ∈ trail.entries id deeds := by simp [hentries]
    obtain ⟨rfl, task, branches, htask, hc, hkids⟩ :=
      hturn.forked (hdeed ▸ Trail.deed_mem_of_mem_entries he)
    have hlt := lt_of_getElem? htask
    obtain ⟨rfl, rfl⟩ : before = [⟨id, trail.here, .entered step⟩] ∧
        e = ⟨id, trail.here, .forked step kids⟩ := by
      simp only [Trail.entries, Trail.address, Trail.record, List.headD_cons] at hentries
      rcases before with _ | ⟨first, _ | ⟨second, before⟩⟩
      · obtain ⟨rfl, -⟩ := List.cons.inj hentries
        cases hdeed
      · obtain ⟨rfl, hrest⟩ := List.cons.inj hentries
        obtain ⟨rfl, -⟩ := List.cons.inj hrest
        exact ⟨rfl, rfl⟩
      · simp at hentries
    -- nothing has been done at the address before the turn
    have hzero : begun trail.here l.history = 0 :=
      hreach.begun_eq_zero htask (hid task htask) (v := trail.here)
        (by simp [Task.ways, hc]) (List.suffix_refl _)
    have hbalanced : begun trail.here l.history =
      finished trail.here l.history + underway trail.here l.trails := hreach.balanced trail.here
    refine ⟨⟨?_, ?_⟩, fun f hf haddress step' kids' hforked => ?_, fun f hf hkid => ?_⟩
    · rw [begun_append, begun_cons]
      simp [Deed.Begins]
    · rw [finished_append, finished_cons]
      simp [Deed.Finishes]
      omega
    · rcases List.mem_append.1 hf with hf | hf
      · obtain ⟨pre, post, hsplit⟩ := List.append_of_mem hf
        obtain ⟨⟨hpos, -⟩, -⟩ := ih pre f post hsplit step' kids' hforked
        rw [show f.address = trail.here from haddress] at hpos
        rw [hsplit, begun_append] at hzero
        omega
      · rw [List.mem_singleton.1 hf] at hforked
        cases hforked
    · rw [hkids] at hkid
      have hle := (List.mem_range'_1.1 hkid).1
      rcases List.mem_append.1 hf with hf | hf
      · have hold : f.task < m.tasks.length := (hreach.placed.entries f hf).1
        omega
      · rw [List.mem_singleton.1 hf] at hle
        dsimp only at hle
        omega
  case same =>
    intro m m' l htasks hruns hcalls ih
    exact ih

/-- The tasks that have been started for branches are branches of the task that has started them. -/
theorem Reaches.parent_of_forked (h : Reaches invoker (opening d input) x)
    (hforked : (⟨p, a, .forked step kids⟩ : Entry) ∈ x.ledger.history) :
    ∀ k ∈ kids, ∃ child, x.machine.tasks[k]? = some child ∧ child.parent = some p := by
  suffices hall : ∀ p a step kids, (⟨p, a, .forked step kids⟩ : Entry) ∈ x.ledger.history →
      ∀ k ∈ kids, ∃ child, x.machine.tasks[k]? = some child ∧ child.parent = some p from
    hall p a step kids hforked
  refine h.induct ?start ?turn ?same
  case start =>
    rw [history_opening]
    intro p a step kids hforked
    cases hforked
  case turn =>
    intro m m' l id deeds hreach ih hturn p a step kids hforked
    obtain ⟨trail, -, hhistory⟩ := hreach.placed.history_record hturn
    dsimp only at ih hforked ⊢
    rw [hhistory] at hforked
    rcases List.mem_append.1 hforked with hforked | hforked
    · exact Joining.kids_turn hturn (ih p a step kids hforked)
    · obtain rfl : p = id := Trail.task_of_mem_entries hforked
      obtain ⟨rfl, task, branches, -, -, hkids⟩ :=
        hturn.forked (Trail.deed_mem_of_mem_entries hforked)
      intro k hk
      have hlen := hturn.length_tasks_forked
      rw [hkids, List.length_range'] at hlen
      rw [hkids] at hk
      obtain ⟨hle, hlt⟩ := List.mem_range'_1.1 hk
      obtain ⟨child, hchild⟩ := getElem?_of_lt (l := m'.tasks) (i := k) (by omega)
      refine ⟨child, hchild, ?_⟩
      rcases hturn.task_cases hchild with ⟨old, hold, -⟩ | ⟨-, hparent, -⟩
      · have := lt_of_getElem? hold
        omega
      · exact hparent
  case same =>
    intro m m' l htasks hruns hcalls ih
    dsimp only at ih ⊢
    rwa [htasks]

/-- A step whose branches have been started is under way in the task that has started them, or that
task has finished it. -/
theorem Reaches.finished_of_forked (h : Reaches invoker (opening d input) x)
    (hforked : (⟨p, a, .forked step kids⟩ : Entry) ∈ x.ledger.history) :
    (∃ trail, x.ledger.trails[p]? = some trail ∧ a ∈ trail.inside) ∨
      ∃ outcome, (⟨p, a, .finished step outcome⟩ : Entry) ∈ x.ledger.history := by
  suffices hall : ∀ p a step kids, (⟨p, a, .forked step kids⟩ : Entry) ∈ x.ledger.history →
      (∃ trail, x.ledger.trails[p]? = some trail ∧ a ∈ trail.inside) ∨
        ∃ outcome, (⟨p, a, .finished step outcome⟩ : Entry) ∈ x.ledger.history from
    hall p a step kids hforked
  refine h.induct ?start ?turn ?same
  case start =>
    rw [history_opening]
    intro p a step kids hforked
    cases hforked
  case turn =>
    intro m m' l id deeds hreach ih hturn p a step kids hforked
    have hlocated : d.at? a = some step := ((hreach.placed.turn hturn).entries _ hforked).2.1
    have hnext := (hreach.placed.turn hturn).entries
    obtain ⟨trail, hid, hhistory⟩ := hreach.placed.history_record hturn
    dsimp only at ih hforked hnext ⊢
    rw [hhistory] at hforked hnext ⊢
    rcases List.mem_append.1 hforked with hforked | hforked
    · rcases ih p a step kids hforked with ⟨trail', htrail', ha⟩ | ⟨outcome, hfinished⟩
      · by_cases hne : p = id
        · subst hne
          obtain ⟨task, htask⟩ := getElem?_of_lt (l := m.tasks) (i := p)
            (hreach.placed.trails ▸ lt_of_getElem? htrail')
          obtain rfl : trail = trail' := Option.some.inj ((hid task htask).symm.trans htrail')
          cases hturn.marking with
          | enters _ _ hmore =>
            refine Or.inl ⟨_, Ledger.trails_record_self htrail', ?_⟩
            rw [List.foldl_cons, inside_of_not_marks hmore]
            exact List.mem_cons_of_mem _ ha
          | nothing hnone =>
            refine Or.inl ⟨_, Ledger.trails_record_self htrail', ?_⟩
            rwa [inside_of_not_marks hnone]
          | @finishes _ step' outcome frames _ hframes hc =>
            rcases hinside : trail.inside with _ | ⟨b, rest⟩
            · rw [hinside] at ha
              cases ha
            · rw [hinside] at ha
              rcases List.mem_cons.1 ha with rfl | ha
              · -- the step that is finished is the one for which the branches were started
                have hmem : (⟨p, a, .finished step' outcome⟩ : Entry) ∈
                    l.history ++ trail.entries p [.finished step' outcome] := by
                  simp [Trail.entries, Trail.address, hinside]
                obtain rfl : step' = step :=
                  Option.some.inj ((hnext _ hmem).2.symm.trans hlocated)
                exact Or.inr ⟨outcome, hmem⟩
              · refine Or.inl ⟨_, Ledger.trails_record_self htrail', ?_⟩
                simpa [Trail.record, hinside] using ha
        · refine Or.inl ⟨trail', ?_, ha⟩
          rwa [Ledger.trails_record_ne (lt_of_getElem? htrail') (Ne.symm hne)]
      · exact Or.inr ⟨outcome, List.mem_append_left _ hfinished⟩
    · obtain rfl : p = id := Trail.task_of_mem_entries hforked
      obtain ⟨rfl, task, branches, htask, -, -⟩ :=
        hturn.forked (Trail.deed_mem_of_mem_entries hforked)
      refine Or.inl ⟨_, Ledger.trails_record_self (hid task htask), ?_⟩
      obtain rfl : a = trail.here := by
        simpa [Trail.entries, Trail.address, Trail.record] using hforked
      simp [Trail.record]
  case same =>
    intro m m' l htasks hruns hcalls ih
    exact ih

end Scene

/-! ### How steps with branches end -/

/-- A step is finished other than with a failure only if all branches that its task has ever started
have succeeded. -/
def KidsDone (before : List Entry) (e : Entry) : Prop :=
  ∀ step outcome, e.deed = .finished step outcome → (∀ failure, outcome ≠ .failed failure) →
    ∀ a step' kids, (⟨e.task, a, .forked step' kids⟩ : Entry) ∈ before → ∀ k ∈ kids,
      outcomeOf before k = some .done

namespace Scene

theorem Reaches.kids_done (h : Reaches invoker (opening d input) x) :
    Throughout KidsDone x.ledger.history := by
  refine h.induct throughout_nil ?turn ?same
  case turn =>
    intro m m' l id deeds hreach ih hturn
    obtain ⟨trail, hid, hhistory⟩ := hreach.placed.history_record hturn
    dsimp only at ih ⊢
    rw [hhistory]
    refine ih.append fun before e after hentries step outcome hdeed hnot a step' kids hforked k hk =>
      ?_
    obtain ⟨rfl, task, htask, ⟨_, _, rfl⟩ | ⟨left, result, _, _, hc, rfl⟩⟩ :=
      hturn.marking.of_entries hentries (by rw [hdeed]; rfl)
    · cases hdeed
    · obtain ⟨rfl, rfl⟩ : left = step ∧ result = outcome := Deed.finished.inj hdeed
      rw [List.append_nil] at hforked ⊢
      obtain ⟨child, hchild, hparent⟩ := hreach.parent_of_forked hforked k hk
      have hacc := hreach.orderly.kids id k task child htask hchild hparent
      rw [hc] at hacc
      cases result with
      | failed failure => exact absurd rfl (hnot failure)
      | done => exact hacc
      | panicked payload => exact hacc
  case same =>
    intro m m' l htasks hruns hcalls ih
    exact ih

end Scene

/-- Whether a failure is what the first of some branches not to succeed, in the order in which they
have ended, is to their step: its own failure, or the panic of the branch with the id of the
step. -/
def FirstToFail (step : Step) (kids : List Nat) (history : List Entry) (failure : Failure) : Prop :=
  ∃ taken first outcome rest, endings kids history = taken ++ (first, outcome) :: rest ∧
    (∀ news ∈ taken, news.2 = .done) ∧ outcome.blame step first = some failure

theorem blame_eq_none_iff {branch : Nat} : outcome.blame step branch = none ↔ outcome = .done := by
  cases outcome <;> simp [Outcome.blame]

theorem firstToFail_iff {failure : Failure} :
    FirstToFail step kids history failure ↔ firstFailure step kids history = some failure := by
  unfold firstFailure FirstToFail
  rw [List.findSome?_eq_some_iff]
  constructor
  · rintro ⟨taken, first, outcome, rest, heq, htaken, hblame⟩
    exact ⟨taken, (first, outcome), rest, heq, hblame, fun news hnews =>
      blame_eq_none_iff.2 (htaken news hnews)⟩
  · rintro ⟨taken, ⟨first, outcome⟩, rest, heq, hblame, htaken⟩
    exact ⟨taken, first, outcome, rest, heq, fun news hnews =>
      blame_eq_none_iff.1 (htaken news hnews), hblame⟩

/-- An ending in a history. -/
theorem mem_endings {k : Nat} (hk : k ∈ kids) (h : outcomeOf history k = some outcome) :
    (k, outcome) ∈ endings kids history := by
  obtain ⟨e, he, hending⟩ := List.exists_of_findSome?_eq_some h
  split at hending
  case isTrue htask =>
    exact List.mem_filterMap.2 ⟨e, he, by rw [htask, if_pos hk, hending]; rfl⟩
  case isFalse => cases hending

theorem endings_of_forall_notMem (h : ∀ e ∈ history, e.task ∉ kids) : endings kids history = [] :=
  List.filterMap_eq_nil_iff.2 fun e he => if_neg (h e he)

namespace Scene

/-- Branches have been started at an address by one task and with one step. -/
theorem Reaches.forked_unique (h : Reaches invoker (opening d input) x) {e f : Entry}
    (he : e ∈ x.ledger.history) (hf : f ∈ x.ledger.history) (haddress : e.address = f.address)
    {step' : Step} {kids' : List Nat} (hdeed : e.deed = .forked step kids)
    (hdeed' : f.deed = .forked step' kids') : e = f := by
  obtain ⟨before, after, hsplit⟩ := List.append_of_mem he
  rw [hsplit] at hf
  rcases List.mem_append.1 hf with hf | hf
  · exact absurd hdeed' ((h.forked_once before e after hsplit step kids hdeed).2.1 f hf
      haddress.symm step' kids')
  · rcases List.mem_cons.1 hf with rfl | hf
    · rfl
    · obtain ⟨between, rest, rfl⟩ := List.append_of_mem hf
      have hsplit' : x.ledger.history = (before ++ e :: between) ++ f :: rest := by simp [hsplit]
      exact absurd hdeed ((h.forked_once _ f rest hsplit' step' kids' hdeed').2.1 e (by simp)
        haddress step kids)

/-- Branches are started before their step is finished. -/
theorem Reaches.forked_before (h : Reaches invoker (opening d input) x) {before after : List Entry}
    {result : Outcome} (hforked : (⟨p, a, .forked step kids⟩ : Entry) ∈ x.ledger.history)
    (hsplit : x.ledger.history = before ++ ⟨p, a, .finished step result⟩ :: after) :
    (⟨p, a, .forked step kids⟩ : Entry) ∈ before := by
  rw [hsplit] at hforked
  rcases List.mem_append.1 hforked with hforked | hforked
  · exact hforked
  · rcases List.mem_cons.1 hforked with heq | hforked
    · cases heq
    · obtain ⟨between, rest, rfl⟩ := List.append_of_mem hforked
      have hsplit' : x.ledger.history = (before ++ ⟨p, a, .finished step result⟩ :: between) ++
          ⟨p, a, .forked step kids⟩ :: rest := by simp [hsplit]
      obtain ⟨⟨-, hunfinished⟩, -⟩ := h.forked_once _ _ rest hsplit' step kids rfl
      rw [finished_append, finished_cons] at hunfinished
      simp [Deed.Finishes] at hunfinished

/-- A step with branches that has failed has done so with the failure of the first one to fail. -/
theorem Reaches.firstFailure_of_finished (h : Reaches invoker (opening d input) x)
    (hforked : (⟨p, a, .forked step kids⟩ : Entry) ∈ x.ledger.history) {failure : Failure}
    (hfinished : (⟨p, a, .finished step (.failed failure)⟩ : Entry) ∈ x.ledger.history) :
    firstFailure step kids x.ledger.history = some failure := by
  obtain ⟨before, after, hsplit⟩ := List.append_of_mem hfinished
  obtain ⟨-, -, ids, branches, hwork, hall, -⟩ := h.placed.entries _ hforked
  obtain ⟨kids', since, ⟨⟨earlier, hbefore⟩, -⟩, hfirst⟩ :=
    h.first_failure before _ after hsplit step failure ids branches rfl hwork hall
  dsimp only at hbefore
  have hmem : (⟨p, a, .forked step kids'⟩ : Entry) ∈ x.ledger.history := by simp [hsplit, hbefore]
  obtain rfl : kids = kids' := by
    have heq := h.forked_unique hforked hmem rfl rfl rfl
    simpa using heq
  -- the branches are new when they are started, so all their endings come after that
  obtain ⟨-, -, hfresh⟩ := h.forked_once earlier ⟨p, a, .forked step kids⟩
    (since ++ ⟨p, a, .finished step (.failed failure)⟩ :: after) (by simp [hsplit, hbefore]) step kids
    rfl
  have hendings : endings kids before = endings kids since := by
    rw [hbefore, endings_append, endings_of_forall_notMem hfresh, List.nil_append]
    simp [endings, Deed.ending?]
  rw [hsplit]
  refine firstFailure_append ?_
  rw [firstFailure, hendings]
  exact hfirst

/-- **A step one of whose branches has not succeeded** ends with the failure of the first branch that
has not, if it ends. -/
theorem Reaches.ends_with_first (h : Reaches invoker (opening d input) x)
    (hforked : (⟨p, a, .forked step kids⟩ : Entry) ∈ x.ledger.history) {k : Nat} (hk : k ∈ kids)
    (hended : outcomeOf x.ledger.history k = some outcome) (hnot : outcome ≠ .done) :
    ∃ failure, firstFailure step kids x.ledger.history = some failure ∧
      ∀ result, (⟨p, a, .finished step result⟩ : Entry) ∈ x.ledger.history →
        result = .failed failure := by
  have hsome : (firstFailure step kids x.ledger.history).isSome := by
    unfold firstFailure
    rw [List.findSome?_isSome_iff]
    refine ⟨(k, outcome), mem_endings hk hended, ?_⟩
    rw [Option.isSome_iff_ne_none, ne_eq, blame_eq_none_iff]
    exact hnot
  obtain ⟨failure, hfirst⟩ := Option.isSome_iff_exists.1 hsome
  refine ⟨failure, hfirst, fun result hfinished => ?_⟩
  obtain ⟨before, after, hsplit⟩ := List.append_of_mem hfinished
  by_cases hfailed : ∃ other, result = .failed other
  · obtain ⟨other, rfl⟩ := hfailed
    rw [h.firstFailure_of_finished hforked hfinished] at hfirst
    rw [Option.some.inj hfirst]
  · -- else all the branches would have succeeded before
    have hdone := h.kids_done before _ after hsplit step result rfl
      (fun failure heq => hfailed ⟨failure, heq⟩) a step kids (h.forked_before hforked hsplit) k hk
    rw [hsplit, outcomeOf_append_of_some hdone] at hended
    exact absurd (Option.some.inj hended).symm hnot

/-! ### The way up to the run -/

/-- With an empty line, a task one of whose branches has not succeeded has failed. -/
theorem Reaches.parent_failed (h : Reaches invoker (opening d input) x)
    (hready : x.machine.ready = []) {child : Task} (hchild : x.machine.tasks[j]? = some child)
    (hparent : child.parent = some p) (hended : outcomeOf x.ledger.history j = some outcome)
    (hnot : outcome ≠ .done) : ∃ failure, outcomeOf x.ledger.history p = some (.failed failure) := by
  have hlt : p < j := (h.placed.parents j child hchild).2 p hparent
  obtain ⟨parent, hp⟩ := getElem?_of_lt (Nat.lt_trans hlt (lt_of_getElem? hchild))
  rcases h.parent_cases hp hchild hparent hended hnot with
    ⟨step, missing, ended, hc, hmem⟩ | ⟨failure, hc⟩ | hfailed
  · rcases h.waiting hready hp with hnow | ⟨_, _, _, hnow⟩ | ⟨_, _, hnow⟩ <;> rw [hc] at hnow
    · cases hnow
    · cases hnow
    · obtain ⟨-, -, rfl⟩ := Control.join.inj hnow
      cases hmem
  · rcases h.waiting hready hp with hnow | ⟨_, _, _, hnow⟩ | ⟨_, _, hnow⟩ <;> rw [hc] at hnow <;>
      cases hnow
  · exact hfailed

/-- **With an empty line, a run one of whose branches has not succeeded has failed.** -/
theorem Reaches.failed_of_ready (h : Reaches invoker (opening d input) x)
    (hready : x.machine.ready = []) (hid : id ≠ 0)
    (hended : outcomeOf x.ledger.history id = some outcome) (hnot : outcome ≠ .done) :
    ∃ failure, outcomeOf x.ledger.history 0 = some (.failed failure) := by
  induction id using Nat.strongRecOn generalizing outcome with
  | _ id ih =>
    obtain ⟨task, hsome⟩ := h.placed.exists_task_of_outcomeOf hended
    obtain ⟨hfirst, hbefore⟩ := h.placed.parents id task hsome
    cases hparent : task.parent with
    | none => exact absurd (hfirst.1 hparent) hid
    | some p =>
      obtain ⟨failure, hfailed⟩ := h.parent_failed hready hsome hparent hended hnot
      by_cases hzero : p = 0
      · exact ⟨failure, hzero ▸ hfailed⟩
      · exact ih p (hbefore p hparent) hzero hfailed nofun

/-- Once a run has returned without a failure, all tasks but the first have succeeded. -/
theorem Reaches.done_of_returned (h : Reaches invoker (opening d input) x) {result : Outcome}
    (hresult : outcomeOf x.ledger.history 0 = some result)
    (hnot : ∀ failure, result ≠ .failed failure) (hid : id ≠ 0)
    (htask : x.machine.tasks[id]? = some task) : outcomeOf x.ledger.history id = some .done := by
  -- the branches of the first task have succeeded, and so have all tasks under it
  induction id using Nat.strongRecOn generalizing task with
  | _ id ih =>
    obtain ⟨hfirst, hbefore⟩ := h.placed.parents id task htask
    cases hparent : task.parent with
    | none => exact absurd (hfirst.1 hparent) hid
    | some p =>
      have hlt := hbefore p hparent
      obtain ⟨parent, hp⟩ := getElem?_of_lt (Nat.lt_trans hlt (lt_of_getElem? htask))
      by_cases hzero : p = 0
      · subst hzero
        cases result with
        | done => exact h.orderly.done_of_parent hp htask hparent hresult
        | failed failure => exact absurd rfl (hnot failure)
        | panicked payload => exact h.kids_of_panicked htask hparent hresult
      · exact h.orderly.done_of_parent hp htask hparent (ih p hlt hzero hp)

/-- **A run one of whose branches has not succeeded fails**, if it returns. -/
theorem Reaches.failed_of_returned (h : Reaches invoker (opening d input) x) (hid : id ≠ 0)
    (hended : outcomeOf x.ledger.history id = some outcome) (hnot : outcome ≠ .done)
    {result : Outcome} (hresult : outcomeOf x.ledger.history 0 = some result) :
    ∃ failure, result = .failed failure := by
  by_contra hfailed
  obtain ⟨task, htask⟩ := h.placed.exists_task_of_outcomeOf hended
  rw [h.done_of_returned hresult (fun failure heq => hfailed ⟨failure, heq⟩) hid htask] at hended
  exact hnot (Option.some.inj hended).symm

end Scene

/-! ### Everything else goes on -/

/-- Whether a small step of a task leaves everything else alone: the other tasks are what they were,
except that the parent of the task may be told that it has panicked; they keep their places in the
line and their timers; and nothing is called, reported or kept in the variables. -/
structure Machine.Spares (m m' : Machine) (id : Nat) : Prop where
  tasks : ∀ j ≠ id, ∀ task, m.tasks[j]? = some task → m'.tasks[j]? = some task ∨
    ∃ child payload, m.tasks[id]? = some child ∧ child.parent = some j ∧
      m'.tasks[j]? = some (task.told (id, .panicked payload))
  ready : ∀ j ≠ id, j ∈ m.ready → j ∈ m'.ready
  timers : m'.timers = m.timers
  calls : m'.calls = m.calls
  runs : m'.runs.map (fun run => (run.events, run.store)) =
    m.runs.map fun run => (run.events, run.store)

/-- Deeds of unwinding do not reach beyond their task. -/
theorem Deed.Unwinds.not_outward {deed : Deed} (h : deed.Unwinds payload) :
    deed.Outward = false := by
  cases deed <;> first | rfl | exact h.elim

/-- A shaken task leaves everything else alone, and reports nothing. -/
theorem Turn.spares (h : Turn invoker m id deeds m') {rest : List Nat}
    (hready : m.ready = id :: rest) (hunwinds : ∀ deed ∈ deeds, deed.Unwinds payload) :
    m.Spares m' id := by
  have hinward : ∀ deed ∈ deeds, deed.Outward = false := fun deed hdeed =>
    (hunwinds deed hdeed).not_outward
  have hothers : m.SparesOthers m' id (.panicked payload) :=
    h.spares_others hready hinward fun result hmem => hunwinds _ hmem
  refine ⟨fun j hne task hj => ?tasks, hothers.ready, hothers.timers, hothers.calls, ?runs⟩
  case tasks =>
    refine (hothers.tasks j hne task hj).imp_right ?_
    rintro ⟨child, hchild, hparent, htold⟩
    exact ⟨child, payload, hchild, hparent, htold⟩
  case runs =>
    have hevents : deeds.filterMap Deed.event? = [] :=
      List.filterMap_eq_nil_iff.2 fun deed hdeed => (hunwinds deed hdeed).event?
    have heffect := foldl_effect_of_not_outward hinward
    rcases h.runs_eq with ⟨-, hruns⟩ | ⟨task, run, -, hrun, hruns⟩
    · rw [hruns]
    · rw [hruns, List.map_set]
      refine set_self ?_
      rw [List.getElem?_map, hrun]
      simp [Progress.record, hevents, heffect]

namespace Scene

/-- What it means for a scene that panics are contained. -/
structure Contained (invoker : Invoker) (d : Definition) (x : Scene) : Prop where
  /-- A task ends with a panic exactly if one of its own calls has panicked. -/
  own : ∀ id outcome, outcomeOf x.ledger.history id = some outcome → ∀ payload,
    outcome = .panicked payload ↔ Panicked x.ledger.history id payload
  /-- A call that panics was made by the task for the innermost branch around it, or by the first
  task if there is no branch around it. -/
  homes : ∀ e ∈ x.ledger.history, ∀ payload, e.deed.Panics payload →
    Homes d x.ledger.history e.task e.address
  /-- A panic reaches the caller of the run only if the call was made by the first task, outside of
  all branches. -/
  caller : ∀ payload, x.machine.runs.map (·.outcome) = [some (.panicked payload)] →
    ∃ e ∈ x.ledger.history, e.deed.Panics payload ∧ e.task = 0 ∧
      ∀ n b, n :: b <:+ e.address → d.forksAt b n = false
  /-- After the call, the task does nothing but leave its steps and end. -/
  unwinds : Throughout Unwinding x.ledger.history
  /-- As it does so, it leaves everything else alone. -/
  spares : ∀ payload m, Panicked x.ledger.history (x.machine.deeds invoker).1 payload →
    x.machine.step invoker = some m → x.machine.Spares m (x.machine.deeds invoker).1
  /-- If a branch has panicked, its step fails with the failure of the first branch that has not
  succeeded, and it has failed once the line is empty. -/
  settles : ∀ p a step kids, (⟨p, a, .forked step kids⟩ : Entry) ∈ x.ledger.history →
    ∀ k ∈ kids, ∀ payload, outcomeOf x.ledger.history k = some (.panicked payload) →
      ∃ failure, FirstToFail step kids x.ledger.history failure ∧
        (∀ outcome, (⟨p, a, .finished step outcome⟩ : Entry) ∈ x.ledger.history →
          outcome = .failed failure) ∧
        (x.machine.ready = [] →
          (⟨p, a, .finished step (.failed failure)⟩ : Entry) ∈ x.ledger.history)
  /-- If a branch has panicked, the run fails, and it has failed once the line is empty. -/
  returns : ∀ id ≠ 0, ∀ payload, outcomeOf x.ledger.history id = some (.panicked payload) →
    (∀ outcome, x.machine.runs.map (·.outcome) = [some outcome] →
      ∃ failure, outcome = .failed failure) ∧
    (x.machine.ready = [] → ∃ failure, x.machine.runs.map (·.outcome) = [some (.failed failure)])
  /-- No task is cut off: at rest every task has come to its own end, and every step that has begun
  is over. -/
  rest : x.machine.Quiet →
    (∀ id < x.machine.tasks.length, (outcomeOf x.ledger.history id).isSome) ∧
      ∀ a, begun a x.ledger.history = finished a x.ledger.history

/-- A task that has stopped is inside of no step. -/
theorem Reaches.inside_of_stopped (h : Reaches invoker (opening d input) x)
    (htask : x.machine.tasks[id]? = some task) (hstopped : task.control = .stopped)
    (htrail : x.ledger.trails[id]? = some trail) : trail.inside = [] := by
  obtain ⟨-, hstack, -⟩ := h.placed.tasks id task trail htask htrail
  rw [h.placed.frames_of_stopped htask hstopped] at hstack
  exact hstack.inside_of_nil

/-- Whose a panicking call is. -/
theorem Reaches.homes_of_panics (h : Reaches invoker (opening d input) x) {e : Entry}
    (he : e ∈ x.ledger.history) (hpanics : e.deed.Panics payload) :
    Homes d x.ledger.history e.task e.address := by
  cases hdeed : e.deed with
  | called step c invocation reply => exact h.homes e he (by rw [hdeed]; rfl)
  | _ =>
    rw [hdeed] at hpanics
    exact hpanics.elim

/-- **Panics are contained** by the innermost steps with branches, in every scene that is reached. -/
theorem Reaches.contained (h : Reaches invoker (opening d input) x) : x.Contained invoker d := by
  obtain ⟨run, hrun, -, houtcome⟩ := h.recorded
  have hresult : ∀ {outcome}, x.machine.runs.map (·.outcome) = [some outcome] ↔
      outcomeOf x.ledger.history 0 = some outcome := by
    intro outcome
    rw [hrun, List.map_singleton, List.singleton_inj, houtcome]
  refine ⟨fun id outcome hended => h.panicked_iff hended, ?homes, ?caller, h.unwinds, ?spares,
    ?settles, ?returns, ?rest⟩
  case homes => exact fun e he payload hpanics => h.homes_of_panics he hpanics
  case caller =>
    intro payload hreturned
    obtain ⟨e, he, hfirst, hpanics⟩ := (h.panicked_iff (hresult.1 hreturned) payload).1 rfl
    refine ⟨e, he, hpanics, hfirst, Definition.branch?_eq_none_iff.1 ?_⟩
    rcases h.homes_of_panics he hpanics with ⟨-, hnone⟩ | ⟨p, b, step, kids, n, hforked, hkid, -⟩
    · exact hnone
    · -- the first task has not been started for a branch
      obtain ⟨child, hchild, hparent⟩ :=
        h.parent_of_forked hforked e.task (List.mem_of_getElem? hkid)
      rw [(h.placed.parents e.task child hchild).1.2 hfirst] at hparent
      cases hparent
  case spares =>
    intro payload m hpanicked hstep
    obtain ⟨rest, hready, hturn⟩ := step_turn hstep
    have hunwinds : ∀ deed ∈ (x.machine.deeds invoker).2, deed.Unwinds payload := by
      rcases hturn.exists_own with hnil | ⟨task, hown⟩
      · rw [hnil]
        exact List.forall_mem_nil _
      · refine hown.unwinds fun old hold => ?_
        rcases (h.shaken_iff hold payload).2 hpanicked with hshaken | hended
        · exact Or.inl hshaken
        · exact Or.inr (h.orderly.stopped_of_outcomeOf hold hended)
    exact hturn.spares hready hunwinds
  case settles =>
    intro p a step kids hforked k hk payload hended
    obtain ⟨failure, hfirst, hfinished⟩ := h.ends_with_first hforked hk hended nofun
    refine ⟨failure, firstToFail_iff.2 hfirst, hfinished, fun hready => ?_⟩
    -- the task that waits for the branches has failed, so it is inside of no step
    obtain ⟨child, hchild, hparent⟩ := h.parent_of_forked hforked k hk
    obtain ⟨other, hfailed⟩ := h.parent_failed hready hchild hparent hended nofun
    rcases h.finished_of_forked hforked with ⟨trail, htrail, ha⟩ | ⟨outcome, hdone⟩
    · obtain ⟨task, htask⟩ := h.placed.exists_task_of_outcomeOf hfailed
      rw [h.inside_of_stopped htask (h.orderly.stopped_of_outcomeOf htask hfailed) htrail] at ha
      cases ha
    · rwa [hfinished outcome hdone] at hdone
  case returns =>
    intro id hid payload hended
    refine ⟨fun outcome hreturned => h.failed_of_returned hid hended nofun (hresult.1 hreturned),
      fun hready => ?_⟩
    obtain ⟨failure, hfailed⟩ := h.failed_of_ready hready hid hended nofun
    exact ⟨failure, hresult.2 hfailed⟩
  case rest =>
    intro hquiet
    have hstill := h.orderly.still_of_quiet h.placed h.lively hquiet
    refine ⟨fun id hlt => ?_, fun a => ?_⟩
    · obtain ⟨task, htask⟩ := getElem?_of_lt hlt
      rw [← h.orderly.stopped id task htask, hstill task (List.mem_of_getElem? htask)]
      rfl
    · have hbalanced := h.balanced a
      rcases Nat.eq_zero_or_pos (underway a x.ledger.trails) with hzero | hpos
      · omega
      · obtain ⟨id, trail, htrail, ha⟩ := exists_of_underway_pos hpos
        obtain ⟨task, htask⟩ := getElem?_of_lt (h.placed.trails ▸ lt_of_getElem? htrail)
        rw [h.inside_of_stopped htask (hstill task (List.mem_of_getElem? htask)) htrail] at ha
        cases ha

end Scene

/-- A workflow with branches in a branch. -/
def storm : Definition where
  name := "storm"
  root := "outer"
  steps := [
    { id := "outer", work := .parallel ["calm", "inner"], next := some "after" },
    { id := "calm", work := .activity { activity := "wait" } },
    { id := "inner", work := .parallel ["boom", "slow"], next := some "after" },
    { id := "boom", work := .sequence ["spark", "after"] },
    { id := "spark", work := .activity { activity := "explode" } },
    { id := "slow", work := .activity { activity := "stumble" } },
    { id := "after", work := .activity { activity := "wait" } }]

/-- An invoker with an activity that panics. -/
def storming : Invoker := fun _ call =>
  if call.name = "explode" then ⟨2, .panic (.text "bang")⟩
  else if call.name = "stumble" then ⟨5, .result (.failure "slow")⟩
  else ⟨9, .result (.ok .null)⟩

/-- The inner step fails since one of its branches has panicked, and so does the run. The other
branches go on to their ends. -/
theorem contained_storm :
    ((Scene.next storming)^[60] (Scene.opening storm [])).Contained storming storm ∧
      (((Scene.next storming)^[60] (Scene.opening storm [])).ledger.history.filterMap
        fun e => e.deed.ending?.map (e.task, ·)) =
        [(3, .panicked (.text "bang")),
          (2, .failed (.branchPanicked "inner" "task 3 panicked with message \"bang\"")),
          (0, .failed (.branchPanicked "inner" "task 3 panicked with message \"bang\"")),
          (4, .failed (.activity "stumble" "slow")), (1, .done)] :=
  ⟨(Scene.reaches_iterate 60).contained, by decide +kernel⟩

end Flowgraph.Run

import Flowgraph.Definition.Registered
import Flowgraph.Proofs.Activity.Registration
import Flowgraph.Proofs.Run.Replay

/-!
# Names that a registry knows

`Definition.checkWith` looks the names of activities up without the blanks around them; a run
calls them as they are written. So a definition that passes the check calls names that are
**registered once they are trimmed**, and all of them are registered exactly if none is padded
without being registered with its padding (`Reaches.registered_iff`). A call of an unknown name is
answered by the failure of an unknown activity, although the check has not objected
(`padded_name_unknown`).
-/

set_option autoImplicit false

namespace Flowgraph

/-! ### Trimming -/

namespace Text

theorem isBlank_of_dropWhile {s : List Char} (h : ∀ c ∈ s.dropWhile isBlank, isBlank c = true) :
    ∀ c ∈ s, isBlank c = true := by
  induction s with
  | nil => nofun
  | cons c s ih =>
    by_cases hc : isBlank c = true
    · rw [List.dropWhile_cons_of_pos hc] at h
      intro other hother
      rcases List.mem_cons.1 hother with rfl | hother
      · exact hc
      · exact ih h other hother
    · rwa [List.dropWhile_cons_of_neg hc] at h

/-- Only blank texts are trimmed to nothing. -/
theorem blank_of_trim_eq {s : String} (h : trim s = "") : blank s = true := by
  have hrev : (trimStart s.toList).reverse.dropWhile isBlank = [] := by
    have := congrArg String.toList h
    simpa [trim, trimEnd] using this
  have hstart : ∀ c ∈ (trimStart s.toList).reverse, isBlank c = true := by
    apply isBlank_of_dropWhile
    rw [hrev]
    exact nofun
  rw [blank, List.all_eq_true]
  exact isBlank_of_dropWhile fun c hc => hstart c (List.mem_reverse.2 hc)

end Text

/-! ### What the check sees to -/

namespace Definition

variable {d : Definition} {registry : Activity.Registry} {s : Step} {c : Call}

/-- The check of the definition with the registry finds no error. -/
def SoundWith (d : Definition) (registry : Activity.Registry) : Prop :=
  ∀ f ∈ d.checkWith registry, f.isError = false

theorem SoundWith.sound (h : d.SoundWith registry) : d.Sound := fun f hf =>
  h f (List.mem_append_left _ hf)

theorem soundWith_iff : d.SoundWith registry ↔ d.Sound ∧
    ∀ s ∈ d.steps, ∀ defect ∈ s.work.registryDefects registry, defect.severity ≠ .error := by
  constructor
  · refine fun h => ⟨h.sound, fun s hs defect hdefect => ?_⟩
    have hmem : (⟨some s.id, defect⟩ : Finding) ∈ d.checkWith registry :=
      List.mem_append_right _ (List.mem_flatMap.2 ⟨s, hs, List.mem_map_of_mem hdefect⟩)
    simpa [Finding.isError] using h _ hmem
  · rintro ⟨hsound, hregistry⟩ f hf
    rcases List.mem_append.1 hf with hf | hf
    · exact hsound f hf
    · obtain ⟨s, hs, hf⟩ := List.mem_flatMap.1 hf
      obtain ⟨defect, hdefect, rfl⟩ := List.mem_map.1 hf
      simpa [Finding.isError] using hregistry s hs defect hdefect

/-- The names of activities are registered once they are trimmed. -/
theorem SoundWith.has_trim (h : d.SoundWith registry) (hs : s ∈ d.steps)
    (hwork : s.work = .activity c) : registry.has (Text.trim c.activity) = true := by
  by_contra hnot
  rw [Bool.not_eq_true] at hnot
  have hname : Text.trim c.activity ≠ "" := fun hempty => by
    have hblank := h.sound.named hs hwork
    rw [Text.blank_of_trim_eq hempty] at hblank
    cases hblank
  refine (soundWith_iff.1 h).2 s hs (.activityUnknown (Text.trim c.activity)) ?_ rfl
  simp [hwork, Work.registryDefects, Call.defects, hname, hnot]

end Definition

/-- Whether a call is written so that a run finds the activity that the check has found: without
blanks around its name, or else registered with them. -/
def Call.WrittenFor (c : Call) (registry : Activity.Registry) : Prop :=
  Text.trim c.activity = c.activity ∨ registry.has c.activity = true

/-! ### What a run calls -/

namespace Run

open Activity

section

variable {invoker : Invoker} {m m' : Machine} {id : Nat} {deeds : List Deed} {step : Step}
  {c : Call}

/-- A task that begins a step with a named activity calls it at once. -/
theorem Advance.called_of_entered {calls : List Invocation} {run : Progress}
    {frames frames' : List Frame} {control control' : Control}
    (h : Advance invoker calls run frames control deeds frames' control')
    (hmem : Deed.entered step ∈ deeds) (hwork : step.work = .activity c)
    (hname : Text.blank c.activity = false) :
    ∃ invocation reply, Deed.called step c invocation reply ∈ deeds := by
  cases h with
  | unnamed hactivity hblank =>
    obtain rfl := Deed.entered.inj (List.mem_singleton.1 hmem)
    rw [hwork] at hactivity
    cases hactivity
    rw [hname] at hblank
    cases hblank
  | call hactivity =>
    simp only [List.mem_cons, List.not_mem_nil, or_false, reduceCtorEq, Deed.entered.injEq] at hmem
    subst hmem
    rw [hwork] at hactivity
    cases hactivity
    exact ⟨_, _, List.mem_cons_of_mem _ (List.mem_singleton_self _)⟩
  | sequence hother | missing hother | branchless hother | pass hother =>
    obtain rfl := Deed.entered.inj (List.mem_singleton.1 hmem)
    rw [hwork] at hother
    cases hother
  | choose hother =>
    simp only [List.mem_cons, List.not_mem_nil, or_false, reduceCtorEq, Deed.entered.injEq] at hmem
    subst hmem
    rw [hwork] at hother
    cases hother
  | _ => simp at hmem

theorem Turn.called_of_entered (h : Turn invoker m id deeds m')
    (hmem : Deed.entered step ∈ deeds) (hwork : step.work = .activity c)
    (hname : Text.blank c.activity = false) :
    ∃ invocation reply, Deed.called step c invocation reply ∈ deeds := by
  cases h with
  | goes htask hrun hadv => exact hadv.called_of_entered hmem hwork hname
  | forks htask hrun hc hother =>
    simp only [List.mem_cons, List.not_mem_nil, or_false, reduceCtorEq, Deed.entered.injEq] at hmem
    subst hmem
    rw [hwork] at hother
    cases hother
  | _ => simp at hmem

end

namespace Scene

variable {d : Definition} {registry : Registry} {input : Store} {x : Scene}

/-- A step that has begun is one of the definition. -/
theorem Reaches.entered_mem {invoker : Invoker} (h : Reaches invoker (opening d input) x)
    {e : Entry} (he : e ∈ x.ledger.history) {step : Step} (hdeed : e.deed = .entered step) :
    step ∈ d.steps := by
  obtain ⟨-, hlocated⟩ := h.placed.entries e he
  rw [hdeed] at hlocated
  exact Definition.at?_mem hlocated

/-- **A step is begun exactly if its activity is called**, if that has a name. -/
theorem Reaches.entered_iff_called {invoker : Invoker} (h : Reaches invoker (opening d input) x)
    {step : Step} {c : Call} (hwork : step.work = .activity c)
    (hname : Text.blank c.activity = false) :
    (∃ e ∈ x.ledger.history, e.deed = .entered step) ↔
      ∃ invocation reply, ∃ e ∈ x.ledger.history, e.deed = .called step c invocation reply := by
  refine h.induct ?start ?turn ?same
  case start =>
    rw [history_opening]
    simp
  case turn =>
    intro m m' l id deeds hreach ih hturn
    obtain ⟨trail, -, hhistory⟩ := hreach.placed.history_record hturn
    have hdeeds : Deed.entered step ∈ deeds ↔
        ∃ invocation reply, Deed.called step c invocation reply ∈ deeds := by
      constructor
      · exact fun hmem => hturn.called_of_entered hmem hwork hname
      · rintro ⟨invocation, reply, hmem⟩
        obtain ⟨rfl, -⟩ := hturn.called hmem
        exact List.mem_cons_self ..
    dsimp only at ih ⊢
    simp only [hhistory, List.mem_append, or_and_right, exists_or, Trail.exists_mem_entries]
    rw [ih, hdeeds]
  case same =>
    intro m m' l _ _ _ ih
    exact ih

/-- What the names of calls have to do with the registry. -/
theorem Reaches.called_name (hsound : d.SoundWith registry)
    (h : Reaches registry.invoker (opening d input) x) {e : Entry} (he : e ∈ x.ledger.history)
    {step : Step} {c : Call} {invocation : Invocation} {reply : Reply}
    (hdeed : e.deed = .called step c invocation reply) :
    step ∈ d.steps ∧ step.work = .activity c ∧ invocation.name = c.activity ∧
      registry.has (Text.trim c.activity) = true ∧
      (registry.has c.activity = false →
        reply = ⟨0, .result (Registry.notFound c.activity)⟩) := by
  obtain ⟨before, after, hhistory⟩ := List.append_of_mem he
  obtain ⟨hat, hwork, hinv, hreply⟩ := h.faithful before e after hhistory _ _ _ _ hdeed
  have hmem := Definition.at?_mem hat
  have hname : invocation.name = c.activity := by rw [hinv]
  refine ⟨hmem, hwork, hname, hsound.has_trim hmem hwork, fun hunknown => ?_⟩
  rw [← hname] at hunknown ⊢
  rw [hreply, invoker_eq_notFound hunknown]

/-- The calls of a run are those that its history tells of. -/
theorem Reaches.mem_calls_iff {invoker : Invoker} (h : Reaches invoker (opening d input) x)
    {call : Invocation} : call ∈ x.machine.calls ↔
      ∃ e ∈ x.ledger.history, ∃ step c reply, e.deed = .called step c call reply := by
  rw [h.replay.2, invocations, List.mem_filterMap]
  constructor
  · rintro ⟨e, he, hinvocation⟩
    cases hdeed : e.deed with
    | called step c invocation reply =>
      rw [hdeed] at hinvocation
      obtain rfl : invocation = call := Option.some.inj hinvocation
      exact ⟨e, he, step, c, reply, hdeed⟩
    | _ =>
      rw [hdeed] at hinvocation
      cases hinvocation
  · rintro ⟨e, he, step, c, reply, hdeed⟩
    exact ⟨e, he, by rw [hdeed]; rfl⟩

/-- **What the check of names is worth.** The names that a run of a checked definition calls are
registered up to the blanks around them, and a call of an unknown name fails as such. All names
that are called are registered exactly if every step that is executed is written as it is looked
up; so they are if the definition pads no name. -/
theorem Reaches.registered_iff (hsound : d.SoundWith registry)
    (h : Reaches registry.invoker (opening d input) x) :
    (∀ e ∈ x.ledger.history, ∀ step c invocation reply,
        e.deed = .called step c invocation reply →
        step ∈ d.steps ∧ step.work = .activity c ∧ invocation.name = c.activity ∧
          registry.has (Text.trim c.activity) = true ∧
          (registry.has c.activity = false →
            reply = ⟨0, .result (Registry.notFound c.activity)⟩)) ∧
      ((∀ call ∈ x.machine.calls, registry.has call.name = true) ↔
        ∀ e ∈ x.ledger.history, ∀ step c, e.deed = .entered step → step.work = .activity c →
          c.WrittenFor registry) ∧
      ((∀ s ∈ d.steps, ∀ c, s.work = .activity c → c.WrittenFor registry) →
        ∀ call ∈ x.machine.calls, registry.has call.name = true) := by
  have hcalls : (∀ e ∈ x.ledger.history, ∀ step c, e.deed = .entered step →
      step.work = .activity c → c.WrittenFor registry) →
        ∀ call ∈ x.machine.calls, registry.has call.name = true := by
    intro hwritten call hcall
    obtain ⟨e, he, step, c, reply, hdeed⟩ := h.mem_calls_iff.1 hcall
    obtain ⟨hmem, hwork, hname, htrim, -⟩ := h.called_name hsound he hdeed
    obtain ⟨entered, hentered, hstep⟩ := (h.entered_iff_called hwork
      (hsound.sound.named hmem hwork)).2 ⟨call, reply, e, he, hdeed⟩
    rcases hwritten entered hentered step c hstep hwork with heq | hhas
    · rwa [hname, ← heq]
    · rwa [hname]
  refine ⟨fun e he step c invocation reply hdeed => h.called_name hsound he hdeed,
    ⟨fun hall e he step c hdeed hwork => ?_, hcalls⟩, fun hwritten => hcalls ?_⟩
  · -- the step has called its activity, by the name that is written
    have hmem : step ∈ d.steps := h.entered_mem he hdeed
    obtain ⟨invocation, reply, called, hcalled, hdeed'⟩ := (h.entered_iff_called hwork
      (hsound.sound.named hmem hwork)).1 ⟨e, he, hdeed⟩
    obtain ⟨-, -, hname, -⟩ := h.called_name hsound hcalled hdeed'
    refine Or.inr ?_
    rw [← hname]
    exact hall invocation (h.mem_calls_iff.2 ⟨called, hcalled, step, c, reply, hdeed'⟩)
  · intro e he step c hdeed hwork
    exact hwritten step (h.entered_mem he hdeed) c hwork

end Scene

/-- A workflow that calls an activity with a blank before its name. -/
def padded : Definition where
  name := "w"
  root := "a"
  steps := [{ id := "a", work := .activity { activity := " echo" } }]

/-- The activities that come along, all of them instant. -/
def instants : Registry := Builtin.register [] (.instant 0)

theorem soundWith_padded : padded.SoundWith instants :=
  Definition.soundWith_iff.2 ⟨Definition.sound_iff.2 (by decide +kernel), by decide +kernel⟩

/-- The one step of the workflow calls a registered name with a blank before it. -/
theorem registered_iff_padded :
    ((Scene.next instants.invoker)^[4] (Scene.opening padded [])).machine.calls =
        [⟨" echo", []⟩] ∧
      ((∀ call ∈ ((Scene.next instants.invoker)^[4] (Scene.opening padded [])).machine.calls,
          instants.has call.name = true) ↔
        ∀ e ∈ ((Scene.next instants.invoker)^[4] (Scene.opening padded [])).ledger.history,
          ∀ step c, e.deed = .entered step → step.work = .activity c → c.WrittenFor instants) :=
  ⟨by rfl, ((Scene.reaches_iterate 4).registered_iff soundWith_padded).2.1⟩

/-- **The check lets a name pass that the run then does not find.** -/
theorem padded_name_unknown : padded.SoundWith instants ∧
    ∃ x, Scene.Reaches instants.invoker (Scene.opening padded []) x ∧
      x.machine.calls = [⟨" echo", []⟩] ∧ instants.has " echo" = false ∧
      x.machine.runs.map (·.outcome) = [some (.failed (.activity " echo"
        "Activity ' echo' not found in registry"))] :=
  ⟨soundWith_padded, (Scene.next instants.invoker)^[6] (Scene.opening padded []),
    Scene.reaches_iterate 6, by rfl, by rfl, by rfl⟩

end Run

end Flowgraph

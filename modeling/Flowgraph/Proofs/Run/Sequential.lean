import Flowgraph.Proofs.Run.Confluence
import Flowgraph.Proofs.Run.Rounds

/-!
# Runs without branches

A run in which no step with branches is reached has a single task, and its machine is told by a
journal of what has been done, the frames and the control of the task (`Journal.machine`). Each
round of the machine takes this form to another one (`Rounds`). So the machine follows the
recursion of `Proofs/Run/Recursion`, and the two come to the same:

* what a reference comes to by recursion, the machine comes to in some rounds (`Tracked.rounds`);
* where the machine comes to an end, so does the recursion (`Tracked.returns`).

Together they make up `Definition.Sequential.run_iff_evaluate`.
-/

set_option autoImplicit false

namespace Flowgraph

/-- Whether no step with branches is reached from the root. -/
def Definition.Sequential (d : Definition) : Prop :=
  ∀ root, d.rootStep? = some root → ∀ step, d.Leads root step →
    ∀ branches, step.work ≠ .parallel branches

namespace Run

open Machine (follow)
open Stage

section

variable {d : Definition} {invoker : Invoker} {input : Store} {stop : Bool}
  {j j' : Journal} {frames : List Frame} {outcome : Outcome} {step : Step} {k n fuel depth : Nat}
  {m m' m'' e : Machine} {target : String} {root : Step}

/-! ### Machines with one task -/

/-- The machine of a run with a single task that can work, after what is in a journal. -/
def Journal.machine (j : Journal) (d : Definition) (frames : List Frame) (control : Control) :
    Machine where
  now := j.elapsed
  runs := [{ definition := d, store := j.store, events := j.events }]
  tasks := [⟨0, none, frames, control⟩]
  ready := [0]
  calls := j.calls

/-! ### Rounds of such machines -/

/-- A sequence begins. -/
theorem sequence_rounds {ids : List String} (hwork : step.work = .sequence ids) :
    Rounds invoker stop 1 (j.machine d frames (.enter step))
      ((j.start step).machine d (.sequence ids :: .finish step :: frames) (.leave .done)) :=
  sequence_pool rfl hwork

/-- A condition is decided. -/
theorem condition_rounds {choice : Choice} (hwork : step.work = .condition choice) :
    Rounds invoker stop 1 (j.machine d frames (.enter step))
      ((j.start step).machine d (.finish step :: frames)
        ((if Condition.holds choice.arguments j.store then choice.onSuccess
          else choice.onFailure).elim (.leave .done) (follow d))) :=
  condition_pool rfl hwork

/-- **An activity is performed.** -/
theorem perform_rounds {c : Call} (hwork : step.work = .activity c)
    (h : perform invoker step c (j.start step) = some (j', outcome)) :
    ∃ k, Rounds invoker stop k (j.machine d frames (.enter step))
      (j'.machine d (.finish step :: frames) (.leave outcome)) := by
  obtain ⟨k, line, hline, hrounds⟩ : ∃ k line, (line = [0] ∨ line = [0]) ∧
      Rounds invoker stop (k + 1) (j.machine d frames (.enter step))
        (j'.pool d [⟨0, none, .finish step :: frames, .leave outcome⟩] line) :=
    perform_pool rfl hwork h fun _ => List.forall_mem_nil _
  obtain rfl : line = [0] := (or_self_iff).1 hline
  exact ⟨k + 1, hrounds⟩

/-- A step that has succeeded is left for its next one. -/
theorem next_rounds :
    Rounds invoker stop 1 (j.machine d (.finish step :: frames) (.leave .done))
      ((j.finish step .done).machine d frames (step.next.elim (.leave .done) (follow d))) :=
  next_pool rfl

/-- A step that has not succeeded is left. -/
theorem finish_rounds (h : outcome ≠ .done) :
    Rounds invoker stop 1 (j.machine d (.finish step :: frames) (.leave outcome))
      ((j.finish step outcome).machine d frames (.leave outcome)) :=
  finish_pool rfl h

/-- A sequence goes on with its next child. -/
theorem child_rounds {rest : List String} :
    Rounds invoker stop 1 (j.machine d (.sequence (target :: rest) :: frames) (.leave .done))
      (j.machine d (.sequence rest :: frames) (follow d target)) :=
  child_pool rfl

/-- A sequence is over, or broken off. -/
theorem closed_rounds {rest : List String} (h : outcome = .done → rest = []) :
    Rounds invoker stop 1 (j.machine d (.sequence rest :: frames) (.leave outcome))
      (j.machine d frames (.leave outcome)) :=
  closed_pool rfl h

/-! ### Stages in rounds -/

/-- Whether a machine does what a stage does: where the stage comes to something, so does the
machine in some rounds; where the machine comes to an end with no more than so much fuel, the stage
comes to something. The machines before and after the stage are told by their journals. -/
structure Tracked (invoker : Invoker) (stop : Bool) (fuel : Nat) (a : Stage)
    (before : Journal → Machine) (after : Journal → Outcome → Machine) : Prop where
  rounds : ∀ {j j' outcome}, a j = some (j', outcome) →
    ∃ k, Rounds invoker stop k (before j) (after j' outcome)
  returns : ∀ {n j e}, n ≤ fuel →
    Machine.run invoker (Machine.wanted stop) none n (before j) = some e → ∃ ended, a j = some ended

namespace Tracked

variable {a b : Stage} {before middle : Journal → Machine} {after last : Journal → Outcome → Machine}
  {visit : String → Stage}

theorem pass : Tracked invoker stop fuel pass (fun j => j.machine d frames (.leave .done))
    (fun j outcome => j.machine d frames (.leave outcome)) where
  rounds h := by
    cases h
    exact ⟨0, .refl⟩
  returns _ _ := ⟨_, rfl⟩

/-- A stage that begins some rounds later. -/
theorem first {f : Journal → Journal} (h : Tracked invoker stop fuel a middle after)
    (hfirst : ∀ j, Rounds invoker stop 1 (before j) (middle (f j))) :
    Tracked invoker stop (fuel + 1) (fun j => a (f j)) before after where
  rounds := by
    intro j j' outcome hended
    obtain ⟨k, hk⟩ := h.rounds hended
    exact (hfirst j).trans hk
  returns := by
    intro n j e hle hrun
    obtain ⟨rest, rfl, hrest⟩ := (hfirst j).run_sub hrun
    exact h.returns (Nat.le_of_succ_le_succ hle) hrest

/-- One stage after another one. -/
theorem andThen (ha : Tracked invoker stop fuel a before after)
    (hb : Tracked invoker stop fuel b (fun j => after j .done) last)
    (hlast : ∀ j outcome, outcome ≠ .done →
      Rounds invoker stop 1 (after j outcome) (last j outcome)) :
    Tracked invoker stop fuel (a.andThen b) before last where
  rounds := by
    intro j j' outcome h
    unfold Stage.andThen at h
    cases haj : a j with
    | none =>
      rw [haj] at h
      cases h
    | some ended =>
      obtain ⟨j₁, o⟩ := ended
      rw [haj] at h
      obtain ⟨k, hk⟩ := ha.rounds haj
      cases o with
      | done =>
        obtain ⟨k', hk'⟩ := hb.rounds h
        exact hk.trans hk'
      | failed failure =>
        cases h
        exact hk.trans (hlast _ _ nofun)
      | panicked payload =>
        cases h
        exact hk.trans (hlast _ _ nofun)
  returns := by
    intro n j e hle hrun
    obtain ⟨⟨j₁, o⟩, haj⟩ := ha.returns hle hrun
    unfold Stage.andThen
    rw [haj]
    cases o with
    | done =>
      obtain ⟨k, hk⟩ := ha.rounds haj
      obtain ⟨rest, rfl, hrest⟩ := hk.run_sub hrun
      exact hb.returns (by omega) hrest
    | failed failure => exact ⟨_, rfl⟩
    | panicked payload => exact ⟨_, rfl⟩

/-- The children of a sequence. -/
theorem inTurn {ids : List String}
    (h : ∀ target ∈ ids, ∀ frames, Tracked invoker stop fuel (visit target)
      (fun j => j.machine d frames (follow d target))
      (fun j outcome => j.machine d frames (.leave outcome))) :
    Tracked invoker stop fuel (inTurn (ids.map visit))
      (fun j => j.machine d (.sequence ids :: frames) (.leave .done))
      (fun j outcome => j.machine d frames (.leave outcome)) := by
  induction ids with
  | nil =>
    constructor
    case rounds =>
      intro j j' outcome hended
      cases hended
      exact ⟨1, closed_rounds fun _ => rfl⟩
    case returns => exact fun _ _ => ⟨_, rfl⟩
  | cons target rest ih =>
    have hchild := (h target List.mem_cons_self (.sequence rest :: frames)).andThen
      (ih fun target htarget => h target (List.mem_cons_of_mem _ htarget))
      fun j outcome hfailed => closed_rounds fun hdone => absurd hdone hfailed
    have hwhole : Tracked invoker stop (fuel + 1) (Stage.inTurn ((target :: rest).map visit))
        (fun j => j.machine d (.sequence (target :: rest) :: frames) (.leave .done))
        (fun j outcome => j.machine d frames (.leave outcome)) :=
      hchild.first (f := id) fun j => child_rounds
    exact ⟨fun hended => hwhole.rounds hended, fun hle => hwhole.returns (Nat.le_succ_of_le hle)⟩

/-- A reference that may be missing. -/
theorem elim {target : Option String}
    (h : ∀ id, target = some id → Tracked invoker stop fuel (visit id)
      (fun j => j.machine d frames (follow d id))
      (fun j outcome => j.machine d frames (.leave outcome))) :
    Tracked invoker stop fuel (target.elim Stage.pass visit)
      (fun j => j.machine d frames (target.elim (.leave .done) (follow d)))
      (fun j outcome => j.machine d frames (.leave outcome)) := by
  cases target with
  | none => exact pass
  | some id => exact h id rfl

/-- The work of a step. -/
theorem work (hnone : ∀ branches, step.work ≠ .parallel branches)
    (h : ∀ target, (∃ r ∈ step.references, r.target = target) → ∀ frames,
      Tracked invoker stop fuel (visit target) (fun j => j.machine d frames (follow d target))
        (fun j outcome => j.machine d frames (.leave outcome))) :
    Tracked invoker stop (fuel + 1) (fun j => work invoker visit step (j.start step))
      (fun j => j.machine d frames (.enter step))
      (fun j outcome => j.machine d (.finish step :: frames) (.leave outcome)) := by
  unfold Stage.work
  cases hwork : step.work with
  | activity c =>
    exact ⟨fun hended => perform_rounds hwork hended, fun _ _ => perform_exists ..⟩
  | sequence ids =>
    exact (inTurn fun target htarget => h target
      (Step.exists_reference_steps hwork htarget)).first fun j => sequence_rounds hwork
  | parallel branches => exact absurd hwork (hnone branches)
  | condition choice =>
    have hchoice : Tracked invoker stop fuel
        (fun j => (if Condition.holds choice.arguments j.store then choice.onSuccess
          else choice.onFailure).elim Stage.pass visit j)
        (fun j => j.machine d (.finish step :: frames)
          ((if Condition.holds choice.arguments j.store then choice.onSuccess
            else choice.onFailure).elim (.leave .done) (follow d)))
        (fun j outcome => j.machine d (.finish step :: frames) (.leave outcome)) := by
      have htarget (store : Store) : Tracked invoker stop fuel
          ((if Condition.holds choice.arguments store then choice.onSuccess
            else choice.onFailure).elim Stage.pass visit) _ _ :=
        elim fun id hid => h id (Step.exists_reference_choice hwork hid) (.finish step :: frames)
      exact ⟨fun {j} => (htarget j.store).rounds, fun {_ j} => (htarget j.store).returns⟩
    exact hchoice.first fun j => condition_rounds hwork

/-- A step with its next one. -/
theorem withNext (hwork : Tracked invoker stop (fuel + 1)
      (fun j => Stage.work invoker visit step (j.start step))
      (fun j => j.machine d frames (.enter step))
      (fun j outcome => j.machine d (.finish step :: frames) (.leave outcome)))
    (hnext : Tracked invoker stop fuel b
      (fun j => j.machine d frames (step.next.elim (.leave .done) (follow d)))
      (fun j outcome => j.machine d frames (.leave outcome))) :
    Tracked invoker stop (fuel + 1) ((execute invoker visit step).andThen b)
      (fun j => j.machine d frames (.enter step))
      (fun j outcome => j.machine d frames (.leave outcome)) where
  rounds := by
    intro j j' outcome h
    unfold Stage.andThen execute at h
    cases hended : Stage.work invoker visit step (j.start step) with
    | none =>
      rw [hended] at h
      cases h
    | some ended =>
      obtain ⟨j₁, o⟩ := ended
      rw [hended] at h
      obtain ⟨k, hk⟩ := hwork.rounds hended
      cases o with
      | done =>
        obtain ⟨k', hk'⟩ := hk.trans next_rounds
        obtain ⟨k'', hk''⟩ := hnext.rounds h
        exact hk'.trans hk''
      | failed failure =>
        cases h
        exact hk.trans (finish_rounds nofun)
      | panicked payload =>
        cases h
        exact hk.trans (finish_rounds nofun)
  returns := by
    intro n j e hle hrun
    obtain ⟨⟨j₁, o⟩, hended⟩ := hwork.returns hle hrun
    unfold Stage.andThen execute
    rw [hended]
    cases o with
    | done =>
      obtain ⟨k, hk⟩ := hwork.rounds hended
      obtain ⟨rest, rfl, hrest⟩ := hk.run_sub hrun
      obtain ⟨rest', rfl, hrest'⟩ := next_rounds.run_sub hrest
      exact hnext.returns (by omega) hrest'
    | failed failure => exact ⟨_, rfl⟩
    | panicked payload => exact ⟨_, rfl⟩

/-- **The machine follows references as the recursion does.** -/
theorem of_visit (hnone : ∀ s, d.Leads root s → ∀ branches, s.work ≠ .parallel branches)
    (fuel : Nat) {target : String} (htarget : ∀ s, d.find? target = some s → d.Leads root s)
    (frames : List Frame) :
    Tracked invoker stop fuel (Run.visit d invoker fuel target)
      (fun j => j.machine d frames (follow d target))
      (fun j outcome => j.machine d frames (.leave outcome)) := by
  induction fuel generalizing target frames with
  | zero =>
    refine ⟨fun h => (Option.some_ne_none _ h.symm).elim, fun hle hrun => ?_⟩
    rw [Nat.le_zero.1 hle] at hrun
    cases hrun
  | succ fuel ih =>
    unfold follow
    cases hfind : d.find? target with
    | none =>
      rw [visit_none hfind]
      exact pass
    | some s =>
      rw [visit_some hfind]
      have hleads := htarget s hfind
      have hrefers (target : String) (href : ∃ r ∈ s.references, r.target = target) :
          ∀ t, d.find? target = some t → d.Leads root t := fun t ht =>
        hleads.tail (Definition.refers_of_find? href ht)
      exact withNext (work (hnone s hleads) fun target href frames => ih (hrefers target href) frames)
        (elim fun id hid => ih (hrefers id (Step.exists_reference_next hid)) frames)

end Tracked

/-! ### Whole runs -/

theorem stop_rounds : Rounds invoker stop 1 (j.machine d [] (.leave outcome))
    ((j.complete outcome).over d [⟨0, none, [], .stopped⟩] outcome) :=
  stop_pool rfl

/-- The run begins. -/
theorem launch_rounds : Rounds invoker stop 1 (({} : Machine).launch d input)
    ((({ store := input } : Journal).note (.report (.runStarted d.name ()))).machine d []
      (match d.rootStep? with
        | some root => .enter root
        | none => .leave (.failed (.rootNotFound d.root)))) := launch_pool

/-- What the machine that begins the run does, up to the end of its task. -/
theorem tracked_launch (h : d.Sequential) (invoker : Invoker) (input : Store) (stop : Bool)
    (fuel : Nat) :
    (∀ j outcome, evaluate d invoker input fuel = some (j, outcome) →
      ∃ k, Rounds invoker stop k (({} : Machine).launch d input)
        (j.over d [⟨0, none, [], .stopped⟩] outcome)) ∧
    (∀ e, Machine.run invoker (Machine.wanted stop) none fuel
      (({} : Machine).launch d input) = some e →
        ∃ ended, evaluate d invoker input fuel = some ended) := by
  unfold evaluate
  have hlaunch : Rounds invoker stop 1 (({} : Machine).launch d input) _ := launch_rounds
  cases hroot : d.rootStep? with
  | none =>
    rw [hroot] at hlaunch
    refine ⟨fun j outcome hended => ?_, fun _ _ => ⟨_, rfl⟩⟩
    obtain ⟨rfl, rfl⟩ := Prod.mk.inj (Option.some.inj hended)
    exact hlaunch.trans stop_rounds
  | some root =>
    rw [hroot] at hlaunch
    have hvisit : Tracked invoker stop fuel _ _ _ := Tracked.of_visit (h root hroot) fuel
      (fun s hs => (Option.some.inj (hroot.symm.trans hs)) ▸ .refl) []
    have hfollow : follow d d.root = .enter root := by
      unfold follow
      rw [show d.find? d.root = some root from hroot]
    rw [hfollow] at hvisit
    constructor
    · intro j outcome hended
      obtain ⟨⟨j₁, o⟩, hvisited, heq⟩ := Option.map_eq_some_iff.1 hended
      obtain ⟨rfl, rfl⟩ := Prod.mk.inj heq
      obtain ⟨k, hk⟩ := hvisit.rounds hvisited
      obtain ⟨k', hk'⟩ := hk.trans stop_rounds
      exact hlaunch.trans hk'
    · intro e hrun
      obtain ⟨rest, hrest, hfrom⟩ := hlaunch.run_sub hrun
      obtain ⟨ended, hended⟩ := hvisit.returns (by omega) hfrom
      exact ⟨_, congrArg (Option.map _) hended⟩

end

end Run

open Run

/-- **Runs without branches are what the recursion says.** For every input and every invoker, the
machine comes to an end just if the recursion does. Then the calls with their arguments, the
events, the time that has passed, the variables and the outcome are the same, and after the first
failure nothing has been called and no step has begun. The recursion comes to one end, however deep
it may go. -/
theorem Definition.Sequential.run_iff_evaluate {d : Definition} (h : d.Sequential)
    (invoker : Invoker) (input : Store) (stop : Bool) :
    (∀ view, (∃ fuel e, Machine.run invoker (Machine.wanted stop) none fuel
        (({} : Machine).launch d input) = some e ∧ e.view = view) ↔
      ∃ depth j outcome, evaluate d invoker input depth = some (j, outcome) ∧
        j.view outcome = view) ∧
    (∀ depth j outcome, evaluate d invoker input depth = some (j, outcome) → j.Broken) ∧
    ∀ depth depth' ended, depth ≤ depth' → evaluate d invoker input depth = some ended →
      evaluate d invoker input depth' = some ended := by
  refine ⟨fun view => ⟨?_, ?_⟩, fun depth j outcome => evaluate_broken,
    fun depth depth' ended => evaluate_mono⟩
  · rintro ⟨fuel, e, hrun, rfl⟩
    obtain ⟨hrounds, hreturns⟩ := tracked_launch h invoker input stop fuel
    obtain ⟨⟨j, outcome⟩, hended⟩ := hreturns e hrun
    obtain ⟨k, hk⟩ := hrounds j outcome hended
    -- the run goes through the end that the recursion comes to, and stays there
    obtain ⟨rest, -, hrest⟩ := hk.run_sub hrun
    cases rest with
    | zero => cases hrest
    | succ rest =>
      rw [run_over] at hrest
      cases hrest
      exact ⟨fuel, j, outcome, hended, (view_over (d := d)).symm⟩
  · rintro ⟨depth, j, outcome, hended, rfl⟩
    obtain ⟨k, hk⟩ := (tracked_launch h invoker input stop depth).1 j outcome hended
    exact ⟨1 + k, _, (hk.run_add 1).trans run_over, view_over⟩

/-- The steps that can be reached are among any steps with the root that are closed under
references. -/
theorem Definition.Sequential.of_closed {d : Definition} (reached : List Step)
    (hroot : ∀ root ∈ d.rootStep?, root ∈ reached)
    (hclosed : ∀ s ∈ reached, ∀ r ∈ s.references, ∀ t ∈ d.find? r.target, t ∈ reached)
    (hkind : ∀ s ∈ reached, s.work.kind ≠ "parallel") : d.Sequential := by
  intro root hfind step hleads branches hwork
  have hmem : step ∈ reached := by
    clear hwork
    induction hleads with
    | refl => exact hroot root hfind
    | tail _ hrefers ih =>
      obtain ⟨r, hr, ht⟩ := hrefers
      exact hclosed _ ih r hr _ ht
  exact hkind step hmem (by rw [hwork]; rfl)

namespace Run

/-- A workflow without branches, but for a step that is not reached. -/
def errands : Definition where
  name := "errands"
  root := "day"
  steps := [
    { id := "day", work := .sequence ["shop", "ghost", "choose"], next := some "rest" },
    { bring "shop" "buy" "bag" with next := some "carry" },
    { id := "carry", work := .activity {
        activity := "carry", arguments := [("what", .string "$\x7bbag\x7d")] } },
    { id := "choose", next := some "rest", work := .condition {
        arguments := [("variable", .string "bag"), ("operator", .string "exists")]
        onSuccess := some "walk", onFailure := some "ghost" } },
    { id := "walk", work := .activity { activity := "walk" }, next := some "rest" },
    { id := "rest", work := .activity { activity := "sit" } },
    { id := "party", work := .parallel ["rest", "walk"] }]

/-- What comes of its activities: the walk fails. -/
def weather : Invoker := fun _ call =>
  if call.name = "walk" then ⟨2, .result (.failure "rain")⟩
  else ⟨call.name.length, .result (.ok (.string call.name))⟩

/-- What is seen of its run. -/
def errandsView : View where
  calls := [⟨"buy", []⟩, ⟨"carry", [("what", .string "buy")]⟩, ⟨"walk", []⟩]
  now := 10
  events := [[.runStarted "errands" (), .stepStarted "day" "sequence",
    .stepStarted "shop" "activity", .stepFinished "shop" "activity" .succeeded none,
    .stepStarted "carry" "activity", .stepFinished "carry" "activity" .succeeded none,
    .stepStarted "choose" "condition", .stepStarted "walk" "activity",
    .stepFinished "walk" "activity" .failed (some "Activity 'walk' failed: rain"),
    .stepFinished "choose" "condition" .failed (some "Activity 'walk' failed: rain"),
    .stepFinished "day" "sequence" .failed (some "Activity 'walk' failed: rain"),
    .runCompleted .failed () (some "Activity 'walk' failed: rain")]]
  stores := [[("bag", .string "buy"),
    ("carry", .object [("data", .string "carry"), ("success", .bool true)]),
    ("shop", .object [("data", .string "buy"), ("success", .bool true)]),
    ("walk", .object [("error", .string "rain"), ("success", .bool false)])]]
  outcomes := [some (.failed (.activity "walk" "rain"))]

/-- Its run comes to an end as the recursion does, with the failure of the walk. -/
theorem run_iff_evaluate_errands :
    errands.Sequential ∧ ∃ fuel e, Machine.run weather (Machine.wanted true) none fuel
      (({} : Machine).launch errands []) = some e ∧ e.view = errandsView := by
  have hsequential : errands.Sequential :=
    .of_closed errands.steps.dropLast (by decide +kernel) (by decide +kernel) (by decide +kernel)
  have hview : (evaluate errands weather [] 5).map (fun ended => ended.1.view ended.2) =
      some errandsView := by decide +kernel
  obtain ⟨⟨j, outcome⟩, hended, hj⟩ := Option.map_eq_some_iff.1 hview
  exact ⟨hsequential,
    ((hsequential.run_iff_evaluate weather [] true).1 errandsView).2 ⟨5, j, outcome, hended, hj⟩⟩

end Run

end Flowgraph

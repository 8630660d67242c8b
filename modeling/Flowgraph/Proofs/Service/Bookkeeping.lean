import Flowgraph.Proofs.Service.FreeId
import Flowgraph.Proofs.Service.History

/-!
# The books of a service

An id **stands for** a run from the start that returns it until it is forgotten (`StandsFor`).
This is said of the list of what has happened, without a look at the service. The service keeps
its entries accordingly (`Desk.Reaches.kept`), however the runs get on in between.

From this follows what the service answers at any moment (`Bookkeeping`). It refuses a blank name
and gives every other start an id that stands for no run. What it says about an id is read off the
run that the id stands for, or it does not know the id. A call that waits for a result is answered
with the end (`Reports`) of the run that the id stood for when the call was made, whatever the id
stands for when the answer comes.
-/

set_option autoImplicit false

namespace Flowgraph.Service

open Relation (ReflTransGen)
open Run

variable {acts later earlier : List Act} {act : Act} {id id' : String} {r : Request}
  {run run' : Nat}

/-! ### Which run an id stands for -/

/-- The request of a run that is started, and the id that is returned for it. -/
def Act.returned? : Act → Option (Request × String)
  | .started r _ _ (.ok response) => some (r, response.workflowId)
  | _ => none

/-- The id of a run that is forgotten. -/
def Act.released? : Act → Option String
  | .forgotten id (.ok _) => some id
  | _ => none

/-- The requests of the runs that were started, the first one first. -/
def begun : List Act → List Request
  | [] => []
  | act :: earlier => begun earlier ++ (act.returned?.map (·.1)).toList

theorem begun_cons (act : Act) (earlier : List Act) :
    begun (act :: earlier) = begun earlier ++ (act.returned?.map (·.1)).toList := rfl

/-- An id stands for a run of a request: the start of that run has returned the id, and the id
has not been forgotten since. The runs are counted from 0. -/
def StandsFor (acts : List Act) (id : String) (r : Request) (run : Nat) : Prop :=
  ∃ later act earlier, acts = later ++ act :: earlier ∧ act.returned? = some (r, id) ∧
    run = (begun earlier).length ∧ ∀ other ∈ later, other.released? ≠ some id

/-- The run that an id stands for, as the latest act on the id has it. -/
def holder (id : String) : List Act → Option Nat
  | [] => none
  | act :: earlier =>
    if act.returned?.map (·.2) = some id then some (begun earlier).length
    else if act.released? = some id then none
    else holder id earlier

theorem holder_cons (id : String) (act : Act) (earlier : List Act) :
    holder id (act :: earlier) =
      if act.returned?.map (·.2) = some id then some (begun earlier).length
      else if act.released? = some id then none
      else holder id earlier := rfl

/-- What the past must have been for an act: a new id stood for no run, a call waits for the run
that the id stands for, and an answer belongs to a call. -/
def Act.Follows (earlier : List Act) (act : Act) : Prop :=
  (∀ r id, act.returned? = some (r, id) → holder id earlier = none) ∧
  (∀ id run, act = .called id (.ok run) → holder id earlier = some run) ∧
  (∀ id run answer, act = .answered id run answer → .called id (.ok run) ∈ earlier)

/-- A history in which every act follows from its past. -/
def Lawful : List Act → Prop
  | [] => True
  | act :: earlier => act.Follows earlier ∧ Lawful earlier

theorem Lawful.follows (h : Lawful (later ++ act :: earlier)) :
    act.Follows earlier ∧ Lawful earlier := by
  induction later with
  | nil => exact h
  | cons _ _ ih => exact ih h.2

/-- Runs that have begun keep their numbers. -/
theorem getElem?_begun_cons {request : Request} (h : (begun earlier)[run]? = some request) :
    (begun (act :: earlier))[run]? = some request := by
  obtain ⟨hlt, -⟩ := List.getElem?_eq_some_iff.1 h
  rw [begun_cons, List.getElem?_append_left hlt, h]

/-- Runs that have begun keep their numbers, whatever happens later. -/
theorem getElem?_begun_of_suffix {acts earlier : List Act} (hsuffix : earlier <:+ acts)
    (h : (begun earlier)[run]? = some r) : (begun acts)[run]? = some r := by
  obtain ⟨later, rfl⟩ := hsuffix
  induction later with
  | nil => exact h
  | cons act later ih => exact getElem?_begun_cons ih

/-- An id stands for a run that has begun with the request. -/
theorem getElem?_begun_of_standsFor {acts : List Act} (h : StandsFor acts id r run) :
    (begun acts)[run]? = some r := by
  obtain ⟨later, act, earlier, rfl, hreturned, rfl, -⟩ := h
  exact getElem?_begun_of_suffix (List.suffix_append _ _) (by simp [begun_cons, hreturned])

theorem length_begun_le : (begun earlier).length ≤ (begun (act :: earlier)).length := by
  simp [begun_cons]

/-- The run that an id stands for has begun. -/
theorem holder_lt (h : holder id acts = some run) : run < (begun acts).length := by
  induction acts with
  | nil => cases h
  | cons act earlier ih =>
    have hle : (begun earlier).length ≤ (begun (act :: earlier)).length := length_begun_le
    rw [holder_cons] at h
    split at h
    case isTrue hid =>
      obtain ⟨entry, hreturned, -⟩ := Option.map_eq_some_iff.1 hid
      cases h
      simp [begun_cons, hreturned]
    case isFalse =>
      split at h
      · cases h
      · have := ih h
        omega

/-- **The latest act on an id says for which run it stands.** -/
theorem standsFor_iff (hlawful : Lawful acts) :
    StandsFor acts id r run ↔ holder id acts = some run ∧ (begun acts)[run]? = some r := by
  induction acts with
  | nil =>
    refine ⟨fun ⟨later, act, earlier, h, _⟩ => ?_, fun h => ?_⟩
    · simp at h
    · cases h.1
  | cons act earlier ih =>
    have ih := ih hlawful.2
    constructor
    · rintro ⟨_ | ⟨first, later⟩, start, before, heq, hreturned, hrun, hlater⟩
      · obtain ⟨rfl, rfl⟩ := List.cons.inj heq
        refine ⟨by simp [holder_cons, hreturned, hrun], ?_⟩
        simp [begun_cons, hreturned, hrun]
      · obtain ⟨rfl, rfl⟩ := List.cons.inj heq
        obtain ⟨hholder, hrequest⟩ := ih.1 ⟨later, start, before, rfl, hreturned, hrun,
          fun other hother => hlater other (List.mem_cons_of_mem _ hother)⟩
        refine ⟨?_, getElem?_begun_cons hrequest⟩
        -- the id stands for a run, so no later start has returned it
        have hfresh : act.returned?.map (·.2) ≠ some id := by
          intro hid
          obtain ⟨⟨request, other⟩, hreturned', rfl⟩ := Option.map_eq_some_iff.1 hid
          rw [hlawful.1.1 request other hreturned'] at hholder
          cases hholder
        rw [holder_cons, if_neg hfresh, if_neg (hlater act (by simp)), hholder]
    · rintro ⟨hholder, hrequest⟩
      rw [holder_cons] at hholder
      split at hholder
      case isTrue hid =>
        obtain ⟨⟨request, other⟩, hreturned, rfl⟩ := Option.map_eq_some_iff.1 hid
        cases hholder
        rw [begun_cons, hreturned] at hrequest
        obtain rfl : request = r := by simpa using hrequest
        exact ⟨[], act, earlier, rfl, hreturned, rfl, by simp⟩
      case isFalse hid =>
        split at hholder
        · cases hholder
        · rename_i hkept
          have hlt := holder_lt hholder
          rw [begun_cons, List.getElem?_append_left hlt] at hrequest
          obtain ⟨later, start, before, rfl, hreturned, hrun, hlater⟩ := ih.2 ⟨hholder, hrequest⟩
          refine ⟨act :: later, start, before, rfl, hreturned, hrun, ?_⟩
          intro other hother
          rcases List.mem_cons.1 hother with rfl | hother
          · exact hkept
          · exact hlater other hother

/-! ### The entries of the service -/

section Entries

variable {s s' : Service} {clock : Int} {bits : Nat}

theorem find_of_get? (h : Assoc.get? id s.entries = some run) : s.find id = .ok run := by
  rw [find, h]

theorem find_of_get?_eq_none (h : Assoc.get? id s.entries = none) :
    s.find id = .error (.runNotFound id) := by
  rw [find, h]

theorem find_eq_ok_iff : s.find id = .ok run ↔ Assoc.get? id s.entries = some run := by
  cases h : Assoc.get? id s.entries with
  | none => simp [find_of_get?_eq_none h]
  | some other => simp [find_of_get? h]

/-- What a start comes to that is not refused. -/
theorem start_eq_ok {response : Response} (h : s.start clock bits r = .ok (response, s')) :
    Text.blank r.definition.name = false ∧
      ∃ k : Nat, FirstFree s.entries r.definition.name clock k ∧
        response = ⟨idOf r.definition.name (clock + k), randomId bits, "started"⟩ ∧
        s' = { s with
          machine := s.machine.launch r.definition (r.input.getD [])
          entries := Assoc.insert (idOf r.definition.name (clock + k)) s.machine.runs.length
            s.entries } := by
  unfold start at h
  split at h
  · cases h
  · rename_i hname
    obtain ⟨k, hid, hfree⟩ := freeId_firstFree s.entries r.definition.name clock
    cases h
    exact ⟨by simpa using hname, k, hfree, by rw [hid], by rw [hid]⟩

/-- A start is refused for its name and for nothing else. -/
theorem start_eq_error_iff {e : Error} : s.start clock bits r = .error e ↔
    Text.blank r.definition.name = true ∧ e = .invalidDefinition := by
  unfold start
  split
  · simp [*, eq_comm]
  · simp [*]

/-- What forgetting comes to. -/
theorem forget_eq_ok_iff {status : RunStatus} : s.forget id = .ok (status, s') ↔
    ∃ run, s.find id = .ok run ∧ status = s.statusOf run ∧
      s' = { s with entries := Assoc.erase id s.entries } := by
  unfold forget
  cases s.find id with
  | error e => simp [Except.map]
  | ok run => simp [Except.map, eq_comm]

end Entries

/-! ### The entries agree with what has happened -/

/-- The progress of a machine neither adds runs nor changes what is run. -/
def Keeping (progress : Machine → Machine → Prop) : Prop :=
  ∀ m m', progress m m' → m'.runs.map (·.definition) = m.runs.map (·.definition)

theorem keeping_moves (invoker : Invoker) : Keeping (Machine.Moves invoker) := by
  intro m m' h
  cases h with
  | work hstep =>
    obtain ⟨-, -, hturn⟩ := step_turn hstep
    rcases hturn.runs_eq with ⟨-, hruns⟩ | ⟨task, run, -, hrun, hruns⟩
    · rw [hruns]
    · rw [hruns, List.map_set]
      exact set_self (by simp [hrun, Progress.record])
  | wait => rfl
  | reorder => rfl

/-- A service whose entries are those of the runs that its ids stand for. -/
structure Desk.Kept (x : Desk) : Prop where
  entries : ∀ id, Assoc.get? id x.service.entries = holder id x.acts
  runs : x.service.machine.runs.map (·.definition) = (begun x.acts).map (·.definition)
  /-- No run has two ids. -/
  apart : ∀ id id' run, holder id x.acts = some run → holder id' x.acts = some run → id = id'
  lawful : Lawful x.acts

namespace Desk

variable {progress : Machine → Machine → Prop} {x y : Desk}

theorem Kept.length_runs (h : Kept x) :
    x.service.machine.runs.length = (begun x.acts).length := by
  simpa using congrArg List.length h.runs

/-- An act that neither starts nor forgets a run. -/
theorem Kept.note (h : Kept x) (hreturned : act.returned? = none)
    (hreleased : act.released? = none) (hfollows : act.Follows x.acts) : Kept (x.note act) := by
  have hholder : ∀ id, holder id (act :: x.acts) = holder id x.acts := by
    intro id
    simp [holder_cons, hreturned, hreleased]
  have hbegun : begun (act :: x.acts) = begun x.acts := by simp [begun_cons, hreturned]
  refine ⟨fun id => ?_, ?_, fun id id' run hid hid' => ?_, hfollows, h.lawful⟩
  · rw [Desk.note, hholder]
    exact h.entries id
  · rw [Desk.note, hbegun]
    exact h.runs
  · rw [Desk.note, hholder] at hid hid'
    exact h.apart id id' run hid hid'

theorem Kept.start (h : Kept x) (r : Request) (clock : Int) (bits : Nat) :
    Kept (x.start r clock bits) := by
  unfold Desk.start
  split
  case h_2 e _ => exact h.note rfl rfl ⟨nofun, nofun, nofun⟩
  case h_1 response s' hstart =>
  obtain ⟨-, k, hfree, rfl, rfl⟩ := start_eq_ok hstart
  have hlength := h.length_runs
  have hfresh : holder (idOf r.definition.name (clock + k)) x.acts = none := by
    rw [← h.entries]
    exact hfree.free
  have hholder : ∀ id, holder id
      (.started r clock bits (.ok ⟨idOf r.definition.name (clock + k), randomId bits, "started"⟩) ::
        x.acts) = if idOf r.definition.name (clock + k) = id then some (begun x.acts).length
          else holder id x.acts := by
    intro id
    simp [holder_cons, Act.returned?, Act.released?]
  refine ⟨fun id => ?_, ?_, fun id id' run hid hid' => ?_, ⟨⟨?_, nofun, nofun⟩, h.lawful⟩⟩
  · rw [hholder, Assoc.get?_insert, hlength]
    split
    · rfl
    · exact h.entries id
  · simp only [Machine.launch, List.map_append, begun_cons, Act.returned?]
    rw [h.runs]
    rfl
  · rw [hholder] at hid hid'
    split at hid <;> split at hid'
    case isTrue.isTrue hnew hnew' => rw [← hnew, hnew']
    -- the new run has a number of its own
    case isTrue.isFalse =>
      cases hid
      exact absurd (holder_lt hid') (Nat.lt_irrefl _)
    case isFalse.isTrue =>
      cases hid'
      exact absurd (holder_lt hid) (Nat.lt_irrefl _)
    case isFalse.isFalse => exact h.apart id id' run hid hid'
  · intro request id hreturned
    cases hreturned
    exact hfresh

theorem Kept.forget (h : Kept x) (id : String) : Kept (x.forget id) := by
  unfold Desk.forget
  split
  case h_2 e _ => exact h.note rfl rfl ⟨nofun, nofun, nofun⟩
  case h_1 status s' hforget =>
  obtain ⟨run, -, -, rfl⟩ := forget_eq_ok_iff.1 hforget
  have hholder : ∀ other, holder other (.forgotten id (.ok status) :: x.acts) =
      if id = other then none else holder other x.acts := by
    intro other
    simp [holder_cons, Act.returned?, Act.released?]
  refine ⟨fun other => ?_, ?_, fun one other run hone hother => ?_,
    ⟨⟨nofun, nofun, nofun⟩, h.lawful⟩⟩
  · rw [hholder, Assoc.get?_erase]
    split
    · rfl
    · exact h.entries other
  · simpa [begun_cons, Act.returned?] using h.runs
  · rw [hholder] at hone hother
    split at hone
    · cases hone
    · split at hother
      · cases hother
      · exact h.apart one other run hone hother

theorem Kept.call (h : Kept x) (id : String) :
    Kept (x.note (.called id (x.service.find id))) := by
  refine h.note rfl rfl ⟨nofun, fun other run heq => ?_, nofun⟩
  obtain ⟨rfl, hfind⟩ := Act.called.inj heq
  rw [← h.entries]
  exact find_eq_ok_iff.1 hfind

theorem Moves.kept (hkeeping : Keeping progress) (hmoves : Moves progress x y) (h : Kept x) :
    Kept y := by
  cases hmoves with
  | start r clock bits => exact h.start r clock bits
  | ask id => exact h.note rfl rfl ⟨nofun, nofun, nofun⟩
  | forget id => exact h.forget id
  | call id => exact h.call id
  | answer hcalled =>
    refine h.note rfl rfl ⟨nofun, nofun, fun other run answer heq => ?_⟩
    obtain ⟨rfl, rfl, -⟩ := Act.answered.inj heq
    exact hcalled
  | progress hprogress =>
    exact ⟨h.entries, (hkeeping _ _ hprogress).trans h.runs, h.apart, h.lawful⟩

theorem kept_opened (registry : Activity.Registry) : Kept (opened registry) :=
  ⟨fun _ => rfl, rfl, nofun, trivial⟩

theorem Kept.reaches (h : Kept x) (hkeeping : Keeping progress) (hreach : Reaches progress x y) :
    Kept y := by
  induction hreach with
  | refl => exact h
  | tail _ hmoves ih => exact hmoves.kept hkeeping ih

/-- **The entries agree with what has happened**, however the runs get on. -/
theorem Reaches.kept {registry : Activity.Registry} (hkeeping : Keeping progress)
    (h : Reaches progress (opened registry) x) : Kept x :=
  (kept_opened registry).reaches hkeeping h

/-- The runs of the machine are those that were requested. -/
theorem Kept.exists_run (h : Kept x) (hbegun : (begun x.acts)[run]? = some r) :
    ∃ p, x.service.machine.runs[run]? = some p ∧ p.definition = r.definition := by
  have hdefinition : (x.service.machine.runs[run]?).map (·.definition) = some r.definition := by
    rw [← List.getElem?_map, h.runs, List.getElem?_map, hbegun]
    rfl
  exact Option.map_eq_some_iff.1 hdefinition

end Desk

/-! ### What the service answers -/

/-- What is reported of a run that has ended: its variables, the text of its failure, or that it has
stopped. The id is the one under which it was asked for. -/
inductive Reports (id : String) (p : Progress) : Except Error Final → Prop
  | done : p.outcome = some .done → Reports id p (.ok ⟨p.store⟩)
  | failed {failure : Failure} : p.outcome = some (.failed failure) →
      Reports id p (.error (.runFailed failure.message))
  | stopped {payload : Payload} : p.outcome = some (.panicked payload) →
      Reports id p
        (.error (.runFailed ("Workflow '" ++ id ++ "' stopped before reporting a result")))

/-- What is said of a run that is over. -/
theorem reports_outcome {s : Service} {p : Progress} (hrun : s.machine.runs[run]? = some p)
    (hover : s.machine.isOver run = true) (id : String) : Reports id p (s.outcome id run) := by
  obtain ⟨ended, hended⟩ := Option.isSome_iff_exists.1 hover
  have houtcome : p.outcome = some ended := by
    rw [hrun] at hended
    exact hended
  obtain ⟨definition, store, events, outcome⟩ := p
  obtain rfl : outcome = some ended := houtcome
  rw [Service.outcome, hrun]
  cases ended with
  | done => exact .done rfl
  | failed failure => exact .failed rfl
  | panicked payload => exact .stopped rfl

/-- What the operations of a service come to at a desk, after what has happened there. -/
structure Bookkeeping (invoker : Invoker) (registry : Activity.Registry) (x : Desk) : Prop where
  /-- A start with a blank name is refused. -/
  refuses : ∀ (r : Request) (clock : Int) (bits : Nat), Text.blank r.definition.name = true →
    x.service.start clock bits r = .error .invalidDefinition
  /-- Any other start returns an id that stands for no run, and from then on it stands for the new
  run. What is known of all other ids stays. -/
  starts : ∀ (r : Request) (clock : Int) (bits : Nat), Text.blank r.definition.name = false →
    ∃ (k : Nat) (id : String) (s : Service), id = idOf r.definition.name (clock + k) ∧
      x.service.start clock bits r = .ok (⟨id, randomId bits, "started"⟩, s) ∧
      (∀ request run, ¬ StandsFor x.acts id request run) ∧
      s.machine = x.service.machine.launch r.definition (r.input.getD []) ∧
      s.find id = .ok (begun x.acts).length ∧
      ∀ other, other ≠ id → s.find other = x.service.find other
  /-- What is said about an id comes from the run that it stands for, which is a run of what was
  requested: the status is read off the end of this run. Forgetting says the same, takes this id out
  and leaves the run and all other ids alone. -/
  knows : ∀ id r run, StandsFor x.acts id r run →
    ∃ p status, x.service.machine.runs[run]? = some p ∧ p.definition = r.definition ∧
      (status = match p.outcome with
        | some .done => .succeeded
        | some (.failed _) => .failed
        | _ => .running) ∧
      x.service.status id = .ok status ∧
      ∃ s, x.service.forget id = .ok (status, s) ∧ s.machine = x.service.machine ∧
        s.find id = .error (.runNotFound id) ∧
        ∀ other, other ≠ id → s.find other = x.service.find other
  /-- Waiting for a result in one go leaves all ids alone. If the run that the id stands for has
  ended, then it is a call and an answer, and the end of this run is reported. -/
  results : ∀ id r run, StandsFor x.acts id r run → ∀ invoker fuel answer s,
    x.service.result invoker fuel id = some (answer, s) →
    answer = s.outcome id run ∧ s.entries = x.service.entries ∧
      (s.machine.isOver run = true →
        Desk.Reaches (Machine.Moves invoker) x
          ⟨s, .answered id run answer :: .called id (.ok run) :: x.acts⟩ ∧
        ∃ p, s.machine.runs[run]? = some p ∧ p.definition = r.definition ∧ Reports id p answer)
  /-- An id that stands for no run is not known. -/
  misses : ∀ id, (∀ r run, ¬ StandsFor x.acts id r run) →
    x.service.status id = .error (.runNotFound id) ∧
      x.service.forget id = .error (.runNotFound id) ∧
      ∀ invoker fuel,
        x.service.result invoker fuel id = some (.error (.runNotFound id), x.service)
  /-- An id stands for one run, and a run has one id. -/
  single : ∀ id id' r r' run run', StandsFor x.acts id r run → StandsFor x.acts id' r' run' →
    (id = id' ↔ run = run')
  /-- A call that waited for a result was answered from the run that the id stood for when the call
  was made: the end of this run is reported, as it was when the answer was given. -/
  answers : ∀ later earlier id run answer, x.acts = later ++ .answered id run answer :: earlier →
    ∃ between before r, earlier = between ++ .called id (.ok run) :: before ∧
      StandsFor before id r run ∧
      ∃ y, Desk.Reaches (Machine.Moves invoker) (.opened registry) y ∧
        Desk.Reaches (Machine.Moves invoker) y x ∧ y.acts = earlier ∧
        ∃ p, y.service.machine.runs[run]? = some p ∧ p.definition = r.definition ∧
          Reports id p answer

namespace Desk

variable {x : Desk} {s' : Service}

theorem Kept.find_of_standsFor (h : Kept x) (hstands : StandsFor x.acts id r run) :
    x.service.find id = .ok run :=
  find_of_get? ((h.entries id).trans ((standsFor_iff h.lawful).1 hstands).1)

theorem Kept.status_of_standsFor (h : Kept x) (hstands : StandsFor x.acts id r run) :
    x.service.status id = .ok (x.service.statusOf run) := by
  rw [Service.status, h.find_of_standsFor hstands]
  rfl

theorem exists_standsFor (hlawful : Lawful acts) (h : holder id acts = some run) :
    ∃ r, StandsFor acts id r run :=
  ⟨_, (standsFor_iff hlawful).2 ⟨h, List.getElem?_eq_getElem (holder_lt h)⟩⟩

/-- An answer belongs to a call, and the id stood for a run when the call was made. -/
theorem exists_called {answer : Except Error Final}
    (hlawful : Lawful (later ++ .answered id run answer :: earlier)) :
    ∃ between before r, earlier = between ++ .called id (.ok run) :: before ∧
      StandsFor before id r run ∧ (begun earlier)[run]? = some r := by
  obtain ⟨⟨-, -, hanswered⟩, hearlier⟩ := hlawful.follows
  obtain ⟨between, before, rfl⟩ := List.append_of_mem (hanswered id run answer rfl)
  obtain ⟨⟨-, hcalled, -⟩, hbefore⟩ := hearlier.follows
  obtain ⟨r, hstands⟩ := exists_standsFor hbefore (hcalled id run rfl)
  have hsuffix : before <:+ between ++ .called id (.ok run) :: before :=
    ⟨between ++ [.called id (.ok run)], by simp⟩
  exact ⟨between, before, r, rfl, hstands,
    getElem?_begun_of_suffix hsuffix (getElem?_begun_of_standsFor hstands)⟩

theorem Kept.holder_eq_none_iff (h : Kept x) :
    holder id x.acts = none ↔ ∀ r run, ¬ StandsFor x.acts id r run := by
  constructor
  · intro hnone r run hstands
    rw [((standsFor_iff h.lawful).1 hstands).1] at hnone
    cases hnone
  · intro hnone
    by_contra hsome
    obtain ⟨run, hrun⟩ := Option.ne_none_iff_exists'.1 hsome
    obtain ⟨r, hstands⟩ := exists_standsFor h.lawful hrun
    exact hnone r run hstands

theorem Kept.find_of_stands_for_none (h : Kept x) (hnone : ∀ r run, ¬ StandsFor x.acts id r run) :
    x.service.find id = .error (.runNotFound id) :=
  find_of_get?_eq_none ((h.entries id).trans (h.holder_eq_none_iff.2 hnone))

/-- A change of one entry leaves what is known of all other ids. -/
theorem find_congr {s : Service} (h : Assoc.get? id s'.entries = Assoc.get? id s.entries) :
    s'.find id = s.find id := by
  rw [find, find, h]

theorem Kept.starts (h : Kept x) {clock : Int} {bits : Nat}
    (hname : Text.blank r.definition.name = false) :
    ∃ (k : Nat) (id : String) (s' : Service), id = idOf r.definition.name (clock + k) ∧
      x.service.start clock bits r = .ok (⟨id, randomId bits, "started"⟩, s') ∧
      (∀ request run, ¬ StandsFor x.acts id request run) ∧
      s'.machine = x.service.machine.launch r.definition (r.input.getD []) ∧
      s'.find id = .ok (begun x.acts).length ∧
      ∀ other, other ≠ id → s'.find other = x.service.find other := by
  cases hstart : x.service.start clock bits r with
  | error e =>
    rw [(start_eq_error_iff.1 hstart).1] at hname
    cases hname
  | ok result =>
    obtain ⟨response, s'⟩ := result
    obtain ⟨-, k, hfree, rfl, rfl⟩ := start_eq_ok hstart
    refine ⟨k, _, _, rfl, rfl, ?_, rfl, ?_, fun other hother => find_congr ?_⟩
    · exact h.holder_eq_none_iff.1 ((h.entries _).symm.trans hfree.free)
    · apply find_of_get?
      rw [Assoc.get?_insert, if_pos rfl, h.length_runs]
    · rw [Assoc.get?_insert, if_neg (Ne.symm hother)]

/-- Forgetting an id that stands for a run says how the run stands, and changes nothing else. -/
theorem Kept.forget_of_standsFor (h : Kept x) (hstands : StandsFor x.acts id r run) :
    ∃ s, x.service.forget id = .ok (x.service.statusOf run, s) ∧
      s.machine = x.service.machine ∧ s.find id = .error (.runNotFound id) ∧
      ∀ other, other ≠ id → s.find other = x.service.find other := by
  have hfind := h.find_of_standsFor hstands
  refine ⟨_, forget_eq_ok_iff.2 ⟨run, hfind, rfl, rfl⟩, rfl, ?_, fun other hother => ?_⟩
  · apply find_of_get?_eq_none
    rw [Assoc.get?_erase, if_pos rfl]
  · apply find_congr
    rw [Assoc.get?_erase, if_neg (Ne.symm hother)]

/-- If a run is over once a result has been waited for, then the call and the answer are acts at a
desk that is reached, and the end of the run is reported. -/
theorem Kept.reports_result (h : Kept x) (hstands : StandsFor x.acts id r run)
    {invoker : Invoker} {fuel : Nat} {answer : Except Error Final}
    (hresult : x.service.result invoker fuel id = some (answer, s'))
    (hover : s'.machine.isOver run = true) :
    Reaches (Machine.Moves invoker) x
        ⟨s', .answered id run answer :: .called id (.ok run) :: x.acts⟩ ∧
      ∃ p, s'.machine.runs[run]? = some p ∧ p.definition = r.definition ∧ Reports id p answer := by
  have hfind := h.find_of_standsFor hstands
  obtain ⟨hflows, rfl, hentries⟩ := Reaches.result hresult hfind
  have hfind' : s'.find id = .ok run := (find_congr (congrArg _ hentries)).trans hfind
  have hcollect : Reaches (Machine.Flows invoker) { x with service := s' } _ :=
    Reaches.collect hfind' hover
  have hreach := (hflows.trans hcollect).mono fun _ _ => Machine.Flows.moves
  have hbegun := getElem?_begun_of_suffix
    (List.suffix_append [.answered id run (s'.outcome id run), .called id (.ok run)] x.acts)
    (getElem?_begun_of_standsFor hstands)
  obtain ⟨p, hrun, hdefinition⟩ := (h.reaches (keeping_moves invoker) hreach).exists_run hbegun
  exact ⟨hreach, p, hrun, hdefinition, reports_outcome hrun hover id⟩

theorem Kept.misses (h : Kept x) (hnone : ∀ r run, ¬ StandsFor x.acts id r run) :
    x.service.status id = .error (.runNotFound id) ∧
      x.service.forget id = .error (.runNotFound id) ∧
      ∀ invoker fuel,
        x.service.result invoker fuel id = some (.error (.runNotFound id), x.service) := by
  have hfind := h.find_of_stands_for_none hnone
  refine ⟨?_, ?_, fun invoker fuel => ?_⟩
  · rw [Service.status, hfind]
    rfl
  · rw [Service.forget, hfind]
    rfl
  · rw [Service.result, hfind]

/-- **The books of a service are in order**, whatever has happened and however the runs get on. -/
theorem Reaches.bookkeeping {invoker : Invoker} {registry : Activity.Registry}
    (h : Reaches (Machine.Moves invoker) (opened registry) x) : Bookkeeping invoker registry x := by
  have hkept := h.kept (keeping_moves invoker)
  refine ⟨?refuses, fun r clock bits => hkept.starts, ?knows, ?results, fun id => hkept.misses,
    ?single, ?answers⟩
  case refuses =>
    intro r clock bits hname
    exact start_eq_error_iff.2 ⟨hname, rfl⟩
  case knows =>
    intro id r run hstands
    obtain ⟨p, hrun, hdefinition⟩ := hkept.exists_run (getElem?_begun_of_standsFor hstands)
    refine ⟨p, x.service.statusOf run, hrun, hdefinition, ?_, hkept.status_of_standsFor hstands,
      hkept.forget_of_standsFor hstands⟩
    rw [statusOf, hrun]
    rfl
  case results =>
    intro id r run hstands invoker fuel answer s hresult
    obtain ⟨-, hanswer, hentries⟩ := Reaches.result hresult (hkept.find_of_standsFor hstands)
    exact ⟨hanswer, hentries, hkept.reports_result hstands hresult⟩
  case single =>
    intro id id' r r' run run' hstands hstands'
    have hholder := ((standsFor_iff hkept.lawful).1 hstands).1
    have hholder' := ((standsFor_iff hkept.lawful).1 hstands').1
    constructor
    · rintro rfl
      exact Option.some.inj (hholder.symm.trans hholder')
    · rintro rfl
      exact hkept.apart id id' run hholder hholder'
  case answers =>
    intro later earlier id run answer hacts
    obtain ⟨between, before, r, hearlier, hstands, hbegun⟩ := exists_called (hacts ▸ hkept.lawful)
    obtain ⟨y, hy, hlater, rfl, hover, rfl⟩ := h.given hacts
    obtain ⟨p, hrun, hdefinition⟩ := (hy.kept (keeping_moves invoker)).exists_run hbegun
    exact ⟨between, before, r, hearlier, hstands, y, hy, hlater, rfl, p, hrun, hdefinition,
      reports_outcome hrun hover id⟩

/-- A request for a run that only waits. -/
def waiting (name : String) : Request where
  definition := {
    name := name
    root := "wait"
    steps := [{ id := "wait", work := .activity { activity := "wait" } }] }
  input := some [("for", .string name)]

/-- An invoker that takes a second for every call. -/
def slow : Invoker := fun _ _ => ⟨1000, .result { success := true }⟩

/-- A desk at which the names "a-" and "a" come to the same id, which is returned twice. When it
is returned again, its first run still goes on. -/
def reused : Desk :=
  let x := ((opened []).start (waiting "a-") 7 0).start (waiting "a") (-7) 0
  let x := x.note (.called "a--7" (x.service.find "a--7"))
  let x := x.proceed { x.service.machine with ready := [1, 0] }
  (x.forget "a--7").start (waiting "a") (-7) 0

/-- The desk at which all runs have come to their ends. -/
def elapsed : Desk := reused.proceed ((Machine.next slow)^[20] reused.service.machine)

/-- The call that waits for the first run is answered, and the id is asked for once more. -/
def settled : Desk :=
  (elapsed.note (.answered "a--7" 0 (elapsed.service.outcome "a--7" 0))).collect "a--7" 2

/-- What is left of a run that has waited. -/
def waited (name : String) : Final :=
  ⟨[("for", .string name), ("wait", .object [("success", .bool true)])]⟩

/-- The id that is returned again stands for the new run and for no other. The call that waited for
the first run is answered from this run nevertheless. -/
theorem bookkeeping_reused :
    reused.acts.reverse.filterMap Act.returned? =
        [(waiting "a-", "a--7"), (waiting "a", "a--6"), (waiting "a", "a--7")] ∧
      (reused.service.statusOf 0 = .running) ∧ StandsFor reused.acts "a--7" (waiting "a") 2 ∧
      settled.acts = .answered "a--7" 2 (.ok (waited "a")) :: .called "a--7" (.ok 2) ::
        .answered "a--7" 0 (.ok (waited "a-")) :: reused.acts ∧
      Bookkeeping slow [] reused ∧ Bookkeeping slow [] settled := by
  have hfirst : Reaches (Machine.Moves slow) (opened []) _ :=
    (Moves.start (waiting "a-") 7 0).reaches
  have hsecond := hfirst.trans (Moves.start (waiting "a") (-7) 0).reaches
  have hcalled := hsecond.trans (Moves.call "a--7").reaches
  have hturned := hcalled.trans (Moves.progress (.reorder (List.Perm.swap 0 1 []))).reaches
  have hforgotten := hturned.trans (Moves.forget "a--7").reaches
  have hreused : Reaches (Machine.Moves slow) (opened []) reused :=
    hforgotten.trans (Moves.start (waiting "a") (-7) 0).reaches
  have helapsed : Reaches (Machine.Moves slow) (opened []) elapsed := hreused.trans
    (Reaches.mono (fun _ _ => Machine.Flows.moves) (Reaches.proceed (Machine.flows_iterate 20)))
  have hanswered := helapsed.trans
    (Moves.answer (.tail _ (.tail _ (.head _))) (by decide +kernel)).reaches
  have hsettled : Reaches (Machine.Moves slow) (opened []) settled :=
    hanswered.trans (Reaches.collect (by decide +kernel) (by decide +kernel))
  have hold : elapsed.service.outcome "a--7" 0 = .ok (waited "a-") := by decide +kernel
  have hnew : elapsed.service.outcome "a--7" 2 = .ok (waited "a") := by decide +kernel
  refine ⟨by decide +kernel, rfl, ⟨[], _, _, rfl, rfl, rfl, by simp⟩, ?_,
    hreused.bookkeeping, hsettled.bookkeeping⟩
  rw [← hold, ← hnew]
  rfl

end Desk

end Flowgraph.Service

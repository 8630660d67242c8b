import Flowgraph.Proofs.Run.Placement
import Mathlib.Data.List.Chain

/-!
# The variables are the replay of the answers

The tasks of a run share its variables and change them while others wait, in any order that the
schedule brings about. The variables are nevertheless a function of the history alone: **at any
moment they are the input with the answers of activities replayed on it**, in the order in which
the answers were taken. `Completion.update` says what one answer does to the values: the data of
a success goes to the result variable, or clears it, and then the whole result goes to the id of
the step.

`Scene.Replays` has this, and what links calls to answers: every call carries the arguments of
its step, resolved in the replay of what was done before it, and every answer belongs to one call
of the same step execution.
-/

set_option autoImplicit false

namespace Flowgraph.Run

/-! ### Replaying a history -/

/-- An activity that has come back. -/
structure Completion where
  step : Step
  call : Call
  result : Activity.Result
  deriving DecidableEq

/-- What a completion does to the values of the variables. The data of a success goes to the result
variable, and then the object of what the result has goes to the id of the step. -/
def Completion.update (c : Completion) (values : String → Option Json.Value) :
    String → Option Json.Value :=
  let kept := match c.call.resultVariable with
    | some name => if c.result.success then Function.update values name c.result.data else values
    | none => values
  Function.update kept c.step.id <| some <| .object <|
    (c.result.data.map fun data => ("data", data)).toList ++
    (c.result.error.map fun error => ("error", .string error)).toList ++
    [("success", .bool c.result.success)]

/-- The completion that an entry is about. -/
def Entry.completion? (e : Entry) : Option Completion :=
  match e.deed with
  | .answered step call result => some ⟨step, call, result⟩
  | _ => none

/-- The completions in a history, in their order. -/
def completions (history : List Entry) : List Completion := history.filterMap Entry.completion?

/-- The calls in a history, in their order. -/
def invocations (history : List Entry) : List Invocation :=
  history.filterMap (·.deed.invocation?)

/-- The variables after a history that began with an input. -/
def replay (input : Store) (history : List Entry) : Store :=
  history.foldl (fun store e => e.deed.effect store) input

/-- The values of variables. -/
def Store.values (store : Store) : String → Option Json.Value := fun key => Assoc.get? key store

theorem values_insert (key : String) (value : Json.Value) (store : Store) :
    Store.values (Assoc.insert key value store) =
      Function.update (Store.values store) key (some value) := by
  funext other
  rw [Function.update_apply]
  simp only [Store.values, Assoc.get?_insert, eq_comm]

theorem values_erase (key : String) (store : Store) :
    Store.values (Assoc.erase key store) = Function.update (Store.values store) key none := by
  funext other
  rw [Function.update_apply]
  simp only [Store.values, Assoc.get?_erase, eq_comm]

/-- What an answer does to the values. -/
theorem values_effect_answered (step : Step) (call : Call) (result : Activity.Result)
    (store : Store) : Store.values ((Deed.answered step call result).effect store) =
      (Completion.mk step call result).update (Store.values store) := by
  obtain ⟨success, data, error⟩ := result
  obtain ⟨activity, arguments, target⟩ := call
  cases target with
  | none => exact values_insert _ _ _
  | some name =>
    cases success with
    | false => exact values_insert _ _ _
    | true =>
      cases data with
      | none =>
        show Store.values (Assoc.insert _ _ (Assoc.erase name store)) = _
        rw [values_insert, values_erase]
        rfl
      | some data =>
        show Store.values (Assoc.insert _ _ (Assoc.insert name data store)) = _
        rw [values_insert, values_insert]
        rfl

/-- **Nothing but answers changes the values.** -/
theorem values_effect (e : Entry) (store : Store) : Store.values (e.deed.effect store) =
    match e.completion? with
    | some c => c.update (Store.values store)
    | none => Store.values store := by
  obtain ⟨task, address, deed⟩ := e
  cases deed with
  | answered step call result => exact values_effect_answered step call result store
  | _ => rfl

/-- The values after a history are those of the input, with the completions one after another. -/
theorem values_replay (input : Store) (history : List Entry) :
    Store.values (replay input history) =
      (completions history).foldl (fun values c => c.update values) (Store.values input) := by
  induction history generalizing input with
  | nil => rfl
  | cons e history ih =>
    have hfirst := values_effect e input
    rw [replay, List.foldl_cons, ← replay, ih, hfirst]
    cases hc : e.completion? <;> simp [completions, hc]

theorem replay_append (input : Store) (history new : List Entry) :
    replay input (history ++ new) = replay (replay input history) new := by
  simp [replay]

theorem replay_entries (trail : Trail) (id : Nat) (deeds : List Deed) (input : Store) :
    replay input (trail.entries id deeds) =
      deeds.foldl (fun store deed => deed.effect store) input := by
  conv_rhs => rw [← trail.map_deed_entries id deeds]
  rw [List.foldl_map]
  rfl

theorem invocations_append (history new : List Entry) :
    invocations (history ++ new) = invocations history ++ invocations new := by
  simp [invocations]

theorem invocations_entries (trail : Trail) (id : Nat) (deeds : List Deed) :
    invocations (trail.entries id deeds) = deeds.filterMap Deed.invocation? := by
  conv_rhs => rw [← trail.map_deed_entries id deeds, List.filterMap_map]
  rfl

/-! ### The history of one task -/

/-- What one task has done. -/
def own (id : Nat) (history : List Entry) : List Entry := history.filter (·.task = id)

theorem own_append (id : Nat) (history new : List Entry) :
    own id (history ++ new) = own id history ++ own id new := List.filter_append ..

theorem own_entries (trail : Trail) (id : Nat) (deeds : List Deed) :
    own id (trail.entries id deeds) = trail.entries id deeds := by
  apply List.filter_eq_self.2
  intro e he
  simpa using Trail.task_of_mem_entries he

theorem own_entries_ne (trail : Trail) {id j : Nat} (hne : j ≠ id) (deeds : List Deed) :
    own j (trail.entries id deeds) = [] := by
  apply List.filter_eq_nil_iff.2
  intro e he
  rw [Trail.task_of_mem_entries he]
  simpa using Ne.symm hne

/-- Whether a deed is a call. -/
def Deed.IsCall (deed : Deed) : Prop :=
  ∃ step c invocation reply, deed = .called step c invocation reply

/-- Whether a deed is the answer to a call. -/
def Deed.IsAnswer (deed : Deed) : Prop := ∃ step c result, deed = .answered step c result

/-- Whether the second of two entries is the answer to the call in the first. -/
def Answers (e e' : Entry) : Prop :=
  ∃ step c invocation reply result, e.deed = .called step c invocation reply ∧
    e'.deed = .answered step c result ∧ e'.address = e.address ∧ reply.ending = .result result

/-- Of two entries that follow on each other, the first is a call if and only if the second is
its answer. -/
def Follows (e e' : Entry) : Prop := e.deed.IsCall ∨ e'.deed.IsAnswer → Answers e e'

/-- Whether a task waits for an activity. -/
def Control.Waits : Control → Prop
  | .receive .. => True
  | _ => False

/-- Whether a task waits for the activity that it has called in an entry. -/
def Awaits (control : Control) (trail : Trail) (e : Entry) : Prop :=
  ∃ step c invocation reply, e.deed = .called step c invocation reply ∧
    control = .receive step c reply.ending ∧ e.address = trail.inside.headD []

/-- The calls and the answers of one task come in pairs, but for a last call that the task waits
for. -/
structure Paired (history : List Entry) (control : Control) (trail : Trail) : Prop where
  /-- A call is followed by its answer, and an answer comes after its call. -/
  chain : history.IsChain Follows
  /-- The task does not begin with an answer. -/
  first : ∀ e ∈ history.head?, ¬ e.deed.IsAnswer
  /-- A last call is waited for. -/
  last : ∀ e ∈ history.getLast?, e.deed.IsCall → Awaits control trail e
  /-- If the task waits, it is for its last call. -/
  awaits : control.Waits → ∃ e ∈ history.getLast?, Awaits control trail e

theorem Awaits.waits {control : Control} {trail : Trail} {e : Entry}
    (h : Awaits control trail e) : control.Waits := by
  obtain ⟨_, _, _, _, _, rfl, _⟩ := h
  trivial

section

variable {history new : List Entry} {control control' : Control} {trail trail' : Trail}

theorem Paired.nil (h : ¬ control.Waits) : Paired [] control trail where
  chain := .nil
  first e he := by cases he
  last e he := by cases he
  awaits hwaits := absurd hwaits h

theorem Paired.append (h : Paired history control trail) (hchain : new.IsChain Follows)
    (hcall : ∀ e ∈ history.getLast?, e.deed.IsCall → ∃ e' ∈ new.head?, Answers e e')
    (hanswer : ∀ e' ∈ new.head?, e'.deed.IsAnswer → ∃ e ∈ history.getLast?, Answers e e')
    (hlast : ∀ e ∈ new.getLast?, e.deed.IsCall → Awaits control' trail' e)
    (hawaits : control'.Waits → ∃ e ∈ new.getLast?, Awaits control' trail' e) :
    Paired (history ++ new) control' trail' where
  chain := by
    refine h.chain.append hchain fun e he e' he' hpair => ?_
    rcases hpair with hcalled | hanswered
    · obtain ⟨e'', he'', hpaired⟩ := hcall e he hcalled
      rwa [Option.mem_unique he' he'']
    · obtain ⟨e'', he'', hpaired⟩ := hanswer e' he' hanswered
      rwa [Option.mem_unique he he'']
  first e he := by
    rw [List.head?_append, Option.mem_def, Option.or_eq_some_iff] at he
    rcases he with he | ⟨hnone, he⟩
    · exact h.first e he
    · intro hanswered
      obtain ⟨e', he', -⟩ := hanswer e he hanswered
      rw [List.head?_eq_none_iff.1 hnone] at he'
      cases he'
  last e he hcalled := by
    rw [List.getLast?_append, Option.mem_def, Option.or_eq_some_iff] at he
    rcases he with he | ⟨hnone, he⟩
    · exact hlast e he hcalled
    · obtain ⟨e', he', -⟩ := hcall e he hcalled
      rw [List.getLast?_eq_none_iff.1 hnone] at he'
      cases he'
  awaits hwaits := by
    obtain ⟨e, he, hawait⟩ := hawaits hwaits
    refine ⟨e, ?_, hawait⟩
    rw [List.getLast?_append, Option.mem_def.1 he]
    rfl

/-- Deeds that are neither calls nor answers, of a task that does not wait. -/
theorem Paired.append_other (h : Paired history control trail)
    (hnew : ∀ e ∈ new, ¬ e.deed.IsCall ∧ ¬ e.deed.IsAnswer) (hcontrol : ¬ control.Waits)
    (hcontrol' : ¬ control'.Waits) : Paired (history ++ new) control' trail' := by
  refine h.append ?_ ?_ ?_ ?_ ?_
  · refine List.isChain_iff_forall_rel_of_append_cons_cons.2 fun e e' before after heq hpair => ?_
    rcases hpair with hcalled | hanswered
    · exact absurd hcalled (hnew e (by rw [heq]; simp)).1
    · exact absurd hanswered (hnew e' (by rw [heq]; simp)).2
  · exact fun e he hcalled => absurd (h.last e he hcalled).waits hcontrol
  · exact fun e he hanswered => absurd hanswered (hnew e (List.mem_of_mem_head? he)).2
  · exact fun e he hcalled => absurd hcalled (hnew e (List.mem_of_mem_getLast? he)).1
  · exact fun hwaits => absurd hwaits hcontrol'

/-- A task that begins a step and calls its activity. -/
theorem Paired.append_call (h : Paired history control trail) (hcontrol : ¬ control.Waits)
    (id : Nat) (step : Step) (c : Call) (invocation : Invocation) (reply : Reply) :
    Paired (history ++ trail.entries id [.entered step, .called step c invocation reply])
      (.receive step c reply.ending)
      ([Deed.entered step, .called step c invocation reply].foldl Trail.record trail) := by
  have hawait : Awaits (.receive step c reply.ending)
      ([Deed.entered step, .called step c invocation reply].foldl Trail.record trail)
      ⟨id, trail.here, .called step c invocation reply⟩ :=
    ⟨step, c, invocation, reply, rfl, rfl, rfl⟩
  refine h.append ?_ ?_ ?_ ?_ ?_
  · refine List.isChain_pair.2 fun hpair => ?_
    rcases hpair with ⟨_, _, _, _, hdeed⟩ | ⟨_, _, _, hdeed⟩ <;> cases hdeed
  · exact fun e he hcalled => absurd (h.last e he hcalled).waits hcontrol
  · rintro e he ⟨_, _, _, hdeed⟩
    cases he
    cases hdeed
  · intro e he _
    cases he
    exact hawait
  · exact fun _ => ⟨_, rfl, hawait⟩

/-- A task that takes the answer to its call. -/
theorem Paired.append_answer {step : Step} {c : Call} {result : Activity.Result}
    (h : Paired history (.receive step c (.result result)) trail) (hcontrol' : ¬ control'.Waits)
    (id : Nat) : Paired (history ++ trail.entries id [.answered step c result]) control'
      ([Deed.answered step c result].foldl Trail.record trail) := by
  obtain ⟨call, hcall, step', c', invocation, reply, hdeed, heq, haddress⟩ := h.awaits trivial
  obtain ⟨rfl, rfl, hending⟩ := Control.receive.inj heq
  have hanswers : Answers call ⟨id, trail.inside.headD [], .answered step c result⟩ :=
    ⟨step, c, invocation, reply, result, hdeed, rfl, haddress.symm, hending.symm⟩
  refine h.append ?_ ?_ ?_ ?_ ?_
  · exact List.isChain_singleton _
  · intro e he _
    obtain rfl := Option.mem_unique he hcall
    exact ⟨_, rfl, hanswers⟩
  · intro e he _
    cases he
    exact ⟨call, hcall, hanswers⟩
  · rintro e he ⟨_, _, _, _, hdeed⟩
    cases he
    cases hdeed
  · exact fun hwaits => absurd hwaits hcontrol'

end

/-- What the deeds of a task have to do with calls and answers. -/
theorem Advance.deeds_cases {invoker : Invoker} {calls : List Invocation} {run : Progress}
    {frames frames' : List Frame} {control control' : Control} {deeds : List Deed}
    (h : Advance invoker calls run frames control deeds frames' control') :
    (∃ step c invocation reply, deeds = [.entered step, .called step c invocation reply] ∧
        ¬ control.Waits ∧ control' = .receive step c reply.ending) ∨
      (∃ step c result, deeds = [.answered step c result] ∧
        control = .receive step c (.result result) ∧ ¬ control'.Waits) ∨
      (∃ step c payload, control = .receive step c (.panic payload)) ∨
      ((∀ deed ∈ deeds, ¬ deed.IsCall ∧ ¬ deed.IsAnswer) ∧ ¬ control.Waits ∧ ¬ control'.Waits) := by
  have hfollow : ∀ target, ¬ (Machine.follow run.definition target).Waits := by
    intro target
    unfold Machine.follow
    split <;> exact id
  cases h with
  | call => exact Or.inl ⟨_, _, _, _, rfl, id, rfl⟩
  | answer => exact Or.inr (Or.inl ⟨_, _, _, rfl, rfl, id⟩)
  | panic => exact Or.inr (Or.inr (Or.inl ⟨_, _, _, rfl⟩))
  | choose | next | child =>
    exact Or.inr (Or.inr (Or.inr ⟨by simp [Deed.IsCall, Deed.IsAnswer], id, hfollow _⟩))
  | _ => exact Or.inr (Or.inr (Or.inr ⟨by simp [Deed.IsCall, Deed.IsAnswer], id, id⟩))

/-- The calls and answers of a task after its own turn. -/
theorem Paired.own_turn {invoker : Invoker} {m : Machine} {id : Nat} {deeds : List Deed}
    {task task' : Task} {history : List Entry} {trail : Trail}
    (hpaired : Paired history task.control trail) (htask : m.tasks[id]? = some task)
    (hcalm : ∀ step c payload, task.control ≠ .receive step c (.panic payload))
    (hown : Own invoker m id deeds task') :
    Paired (history ++ trail.entries id deeds) task'.control (deeds.foldl Trail.record trail) := by
  cases hown with
  | idle htask' =>
    rw [htask] at htask'
    cases htask'
    simpa [Trail.entries] using hpaired
  | goes htask' hrun hadv =>
    rw [htask] at htask'
    cases htask'
    rcases hadv.deeds_cases with ⟨step, c, invocation, reply, rfl, hwaits, rfl⟩ |
      ⟨step, c, result, rfl, hc, hwaits⟩ | ⟨step, c, payload, hc⟩ | ⟨hdeeds, hwaits, hwaits'⟩
    · exact hpaired.append_call hwaits id step c invocation reply
    · rw [hc] at hpaired
      exact hpaired.append_answer hwaits id
    · exact absurd hc (hcalm step c payload)
    · refine hpaired.append_other (fun e he => hdeeds e.deed ?_) hwaits hwaits'
      exact Trail.deed_mem_of_mem_entries he
  | forks htask' hrun hc hwork hall hne =>
    rw [htask] at htask'
    cases htask'
    refine hpaired.append_other ?_ (by rw [hc]; exact not_false) not_false
    simp [Trail.entries, Deed.IsCall, Deed.IsAnswer]
  | stops htask' hframes hc hdeed =>
    rw [htask] at htask'
    cases htask'
    refine hpaired.append_other ?_ (by rw [hc]; exact not_false) not_false
    rw [hdeed]
    split <;> simp [Trail.entries, Deed.IsCall, Deed.IsAnswer]

theorem Paired.told {history : List Entry} {control : Control} {trail : Trail}
    {news : Nat × Outcome}
    (h : Paired history control trail) : Paired history (control.told news) trail := by
  cases control with
  | join =>
    exact ⟨h.chain, h.first, fun e he hcalled => (h.last e he hcalled).waits.elim, False.elim⟩
  | _ => exact h

/-! ### The history of a run -/

/-- Whether what an entry calls for is as the history before it says: the arguments are those of
the step at the address, resolved in the replay, and the invoker replies to them after the calls
so far. -/
def Faithful (invoker : Invoker) (d : Definition) (input : Store) (before : List Entry)
    (e : Entry) : Prop :=
  ∀ step c invocation reply, e.deed = .called step c invocation reply →
    d.at? e.address = some step ∧ step.work = .activity c ∧
      invocation = ⟨c.activity, c.arguments.resolve (replay input before)⟩ ∧
      reply = invoker (invocations before) invocation

/-- How the variables and the calls of a run come from what has been done in it. -/
structure Scene.Replays (invoker : Invoker) (d : Definition) (input : Store) (x : Scene) :
    Prop where
  /-- The variables are the input with the completions replayed on it, one after another. -/
  values : ∃ run, x.machine.runs = [run] ∧ run.store = replay input x.ledger.history ∧
    Store.values run.store =
      (completions x.ledger.history).foldl (fun values c => c.update values) (Store.values input)
  /-- The invoker has received the calls of the history. -/
  calls : x.machine.calls = invocations x.ledger.history
  /-- Each call resolves the arguments of its step in the variables of its moment. -/
  faithful : Throughout (Faithful invoker d input) x.ledger.history
  /-- Each call has one answer, or its task waits for it, and there are no other answers. -/
  paired : ∀ (id : Nat) (task : Task) (trail : Trail), x.machine.tasks[id]? = some task →
    x.ledger.trails[id]? = some trail → Paired (own id x.ledger.history) task.control trail

namespace Scene

variable {invoker : Invoker} {d : Definition} {input : Store} {x : Scene} {m m' : Machine}
  {l : Ledger} {id j : Nat} {deeds : List Deed} {task : Task} {trail : Trail}

/-- **The variables of a run are the replay of its history**, and its calls are those of the
history. -/
theorem Reaches.replay (h : Reaches invoker (opening d input) x) :
    (∃ run, x.machine.runs = [run] ∧ run.store = replay input x.ledger.history) ∧
      x.machine.calls = invocations x.ledger.history := by
  refine h.induct ?start ?turn ?same
  case start => exact ⟨⟨_, rfl, rfl⟩, rfl⟩
  case turn =>
    rintro m m' l id deeds hreach ⟨⟨run, hrun, hstore⟩, hcalls⟩ hturn
    obtain ⟨trail, -, hhistory⟩ := hreach.placed.history_record hturn
    dsimp only at hrun hstore hcalls ⊢
    rw [hhistory, replay_append, replay_entries, invocations_append, invocations_entries,
      ← hcalls, hturn.calls_eq]
    refine ⟨?_, rfl⟩
    rcases hturn.runs_eq with ⟨rfl, hruns⟩ | ⟨task, run', htask, hrun', hruns⟩
    · exact ⟨run, by rw [hruns, hrun], hstore⟩
    · obtain ⟨hzero, -⟩ := hreach.placed.exists_placed htask
      rw [hzero, hrun] at hrun'
      cases hrun'
      rw [hruns, hzero, hrun]
      exact ⟨_, rfl, by rw [← hstore]; rfl⟩
  case same =>
    rintro m m' l - hruns hcalls ⟨hrun, hcalls'⟩
    dsimp only at *
    rw [hruns, hcalls]
    exact ⟨hrun, hcalls'⟩

/-- **Every call is faithful** to the definition and to the history before it. -/
theorem Reaches.faithful (h : Reaches invoker (opening d input) x) :
    Throughout (Faithful invoker d input) x.ledger.history := by
  refine h.induct throughout_nil ?turn ?same
  case turn =>
    intro m m' l id deeds hreach hfaithful hturn
    obtain ⟨⟨run, hrun, hstore⟩, hcalls⟩ := hreach.replay
    obtain ⟨trail, htrail, hhistory⟩ := hreach.placed.history_record hturn
    dsimp only at hfaithful hrun hstore hcalls ⊢
    rw [hhistory]
    refine hfaithful.append fun before e after heq step c invocation reply hdeed => ?_
    have he : e ∈ trail.entries id deeds := by simp [heq]
    have hmem : Deed.called step c invocation reply ∈ deeds :=
      Trail.exists_mem_entries.1 ⟨e, he, hdeed⟩
    obtain ⟨rfl, task, run', htask, hrun', hc, hwork, hinv, hreply, -⟩ := hturn.called hmem
    obtain ⟨hzero, -, hcontrol⟩ := hreach.placed.tasks id task trail htask (htrail task htask)
    rw [hc] at hcontrol
    rw [hzero, hrun] at hrun'
    cases hrun'
    -- the call is the second of the two deeds, and the first changes neither variables nor calls
    obtain ⟨rfl, rfl, rfl⟩ : before = [⟨id, trail.here, .entered step⟩] ∧
        e = ⟨id, trail.here, .called step c invocation reply⟩ ∧ after = [] := by
      match before, heq with
      | [], heq =>
        cases heq
        cases hdeed
      | [_], heq =>
        cases heq
        exact ⟨rfl, rfl, rfl⟩
      | _ :: _ :: _, heq =>
        simp [Trail.entries] at heq
    refine ⟨hcontrol.1, hwork, ?_, ?_⟩
    · rw [hinv, replay_append, ← hstore]
      rfl
    · rw [hreply, invocations_append, ← hcalls]
      exact (congrArg (invoker · invocation) (List.append_nil _)).symm
  case same =>
    intro m m' l _ _ _ hfaithful
    exact hfaithful

/-- A task that waits for an activity waits for a result, if the invoker is calm. -/
theorem Reaches.ending_of_awaits (hcalm : invoker.Calm) (h : Reaches invoker (opening d input) x)
    {e : Entry} (he : e ∈ x.ledger.history) {step : Step} {c : Call} {ending : Ending}
    (hawaits : Awaits (.receive step c ending) trail e) : ∃ result, ending = .result result := by
  obtain ⟨step', c', invocation, reply, hdeed, heq, -⟩ := hawaits
  obtain ⟨-, -, rfl⟩ := Control.receive.inj heq
  obtain ⟨before, after, hhistory⟩ := List.append_of_mem he
  obtain ⟨-, -, -, hreply⟩ := h.faithful before e after hhistory _ _ _ _ hdeed
  rw [hreply]
  exact hcalm _ _

/-- **The calls and answers of every task come in pairs.** -/
theorem Reaches.paired (hcalm : invoker.Calm) (h : Reaches invoker (opening d input) x) :
    ∀ (id : Nat) (task : Task) (trail : Trail), x.machine.tasks[id]? = some task →
      x.ledger.trails[id]? = some trail → Paired (own id x.ledger.history) task.control trail := by
  refine h.induct ?start ?turn ?same
  case start =>
    intro id task trail htask htrail
    rw [(task_of_opening htask).2, history_opening]
    exact Paired.nil not_false
  case turn =>
    intro m m' l id deeds hreach hpaired hturn j task trail' htask htrail'
    have hplaced := hreach.placed
    obtain ⟨trail, htrail, hhistory⟩ := hplaced.history_record hturn
    dsimp only at htask htrail' ⊢
    rw [hhistory, own_append]
    by_cases hj : j = id
    · subst hj
      obtain ⟨old, hold⟩ := (hturn.own htask).exists_task
      rw [Ledger.trails_record_self (htrail old hold)] at htrail'
      cases htrail'
      rw [own_entries]
      have hpair := hpaired j old trail hold (htrail old hold)
      refine hpair.own_turn hold (fun step c payload hc => ?_) (hturn.own htask)
      rw [hc] at hpair
      obtain ⟨e, he, hawaits⟩ := hpair.awaits trivial
      obtain ⟨result, hresult⟩ := hreach.ending_of_awaits hcalm
        (List.mem_of_mem_filter (List.mem_of_mem_getLast? he)) hawaits
      cases hresult
    · rw [own_entries_ne trail hj, List.append_nil]
      have hsame : ∀ old, m.tasks[j]? = some old → l.trails[j]? = some trail' := fun old hold => by
        rwa [hplaced.trails_other hj hold] at htrail'
      cases hturn.fate hj htask with
      | kept hold => exact hpaired j task trail' hold (hsame task hold)
      | told hold => exact (hpaired j _ trail' hold (hsame _ hold)).told
      | born hold hc hdeeds hb hjb =>
        have hnone : own j l.history = [] := by
          apply List.filter_eq_nil_iff.2
          intro e he
          have hlt : e.task < m.tasks.length := (hplaced.entries e he).1
          have hne : e.task ≠ j := by omega
          simpa using hne
        rw [hnone]
        exact Paired.nil not_false
  case same =>
    intro m m' l htasks _ _ hpaired j task trail htask htrail
    dsimp only at htask
    rw [htasks] at htask
    exact hpaired j task trail htask htrail

/-- **The state of a run is the replay of its completed activities**, at every moment and for
every schedule, and every call resolves its arguments in it. -/
theorem Reaches.replays (hcalm : invoker.Calm) (h : Reaches invoker (opening d input) x) :
    x.Replays invoker d input := by
  obtain ⟨⟨run, hrun, hstore⟩, hcalls⟩ := h.replay
  exact ⟨⟨run, hrun, hstore, by rw [hstore, values_replay]⟩, hcalls, h.faithful, h.paired hcalm⟩

end Scene

/-- A workflow whose one step keeps the data of its activity under its own id. -/
def greeting : Definition where
  name := "greeting"
  root := "hello"
  steps := [{
    id := "hello"
    work := .activity { activity := "say", resultVariable := some "hello" } }]

/-- An invoker whose activities take their time and come back with a greeting. -/
def slowly : Invoker := fun _ _ => ⟨5, .result (.ok (.string "hi"))⟩

theorem calm_slowly : slowly.Calm := fun _ _ => ⟨_, rfl⟩

/-- Once the greeting has come back, the whole result stands under the id of the step. -/
theorem replays_greeting :
    ((Scene.next slowly)^[7] (Scene.opening greeting [])).Replays slowly greeting [] ∧
      ((Scene.next slowly)^[7] (Scene.opening greeting [])).machine.calls = [⟨"say", []⟩] ∧
      ((Scene.next slowly)^[7] (Scene.opening greeting [])).machine.runs.map (·.store) =
        [[("hello", .object [("data", .string "hi"), ("success", .bool true)])]] :=
  ⟨(Scene.reaches_iterate 7).replays calm_slowly, by rfl, by rfl⟩

end Flowgraph.Run

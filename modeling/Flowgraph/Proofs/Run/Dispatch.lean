import Flowgraph.Proofs.Run.Once

/-!
# What a step has done on its behalf

A step execution dispatches those that lie beyond the references of its work: its children with
their next steps, at every depth, but not its own next step (`Definition.Dispatches`). A task that
works at one of them is the task of the step itself or a task under it
(`Reaches.under_of_dispatches`), and these have all stopped when the step succeeds. So **whatever a
step has dispatched is over before the step succeeds** (`Reaches.after_dispatched`).

In the other direction, an execution is only begun once the one that refers to it has begun, and a
next step only once the step before it has succeeded (`Reaches.comes_after`).
-/

set_option autoImplicit false

namespace Flowgraph.Run

open Machine (follow resolveAll)

/-- Whether one step execution is among those that another one has done on its behalf. -/
def Dispatches (d : Definition) (a b : Address) : Prop :=
  ∃ step n, d.at? a = some step ∧ n < step.work.references.length ∧ n :: a <:+ b

variable {d : Definition} {invoker : Invoker} {calls : List Invocation} {run : Progress}
  {frames frames' : List Frame} {control control' : Control} {deeds : List Deed} {trail : Trail}
  {a b c goal : Address} {step : Step} {n : Nat}

theorem Dispatches.length_lt (h : Dispatches d a b) : a.length < b.length := by
  obtain ⟨step, n, -, -, hsuffix⟩ := h
  have := hsuffix.length_le
  simpa using this

/-- What is dispatched beyond a reference is dispatched where the reference stands, or the reference
is the step's own. -/
theorem Dispatches.of_cons (h : Dispatches d a (n :: b)) : a = b ∨ Dispatches d a b := by
  obtain ⟨step, k, hat, hk, hsuffix⟩ := h
  rcases List.suffix_cons_iff.1 hsuffix with heq | hsuffix
  · exact Or.inl (List.tail_eq_of_cons_eq heq)
  · exact Or.inr ⟨step, k, hat, hk, hsuffix⟩

theorem Dispatches.suffix (h : Dispatches d a b) : a <:+ b := by
  obtain ⟨step, n, -, -, hsuffix⟩ := h
  exact (List.suffix_cons n a).trans hsuffix

/-- What is beyond a longer address is dispatched if the longer address is. -/
theorem Dispatches.of_suffix (h : Dispatches d a goal) (hb : b <:+ goal)
    (hlt : a.length < b.length) : Dispatches d a b := by
  obtain ⟨step, n, hat, hn, hsuffix⟩ := h
  exact ⟨step, n, hat, hn, List.suffix_of_suffix_length_le hsuffix hb (by simpa using hlt)⟩

/-- Nothing that a step has dispatched begins or ends after the step has succeeded. -/
def AfterDispatched (d : Definition) (before : List Entry) (e : Entry) : Prop :=
  e.deed.Marks = true → ∀ f ∈ before, ∀ step, f.deed = .finished step .done →
    ¬ Dispatches d f.address e.address

/-- Whether a reference of a step execution can be followed after a history: the step has begun, and
if the reference is its next step, it has succeeded. -/
def Comes (d : Definition) (history : List Entry) (n : Nat) (a : Address) : Prop :=
  ∃ step, d.at? a = some step ∧ (∃ e ∈ history, e.address = a ∧ e.deed = .entered step) ∧
    (n = step.work.references.length →
      ∃ e ∈ history, e.address = a ∧ e.deed = .finished step .done)

theorem Comes.append {history new : List Entry} (h : Comes d history n a) :
    Comes d (history ++ new) n a := by
  obtain ⟨step, hat, ⟨e, he, hentered⟩, hnext⟩ := h
  refine ⟨step, hat, ⟨e, List.mem_append_left _ he, hentered⟩, fun hn => ?_⟩
  obtain ⟨f, hf, hfinished⟩ := hnext hn
  exact ⟨f, List.mem_append_left _ hf, hfinished⟩

/-- The reference by which a step execution has been come to can be followed. -/
def ComesAfter (d : Definition) (before : List Entry) (e : Entry) : Prop :=
  ∀ step n a, e.deed = .entered step → e.address = n :: a → Comes d before n a

/-! ### How a task comes to where it is -/

/-- Whether a task is inside of a step execution, or about to enter it. -/
def Task.At (task : Task) (trail : Trail) (c : Address) : Prop :=
  c ∈ trail.inside ∨ c ∈ task.control.ways trail

/-- A reference that leads to an address, and the step that it belongs to: it is a reference of the
step's work, or the step has just succeeded. -/
structure Onward (d : Definition) (control : Control) (trail : Trail) (deeds : List Deed)
    (c : Address) (n : Nat) (b : Address) (step : Step) : Prop where
  address : c = n :: b
  located : d.at? b = some step
  origin : b ∈ trail.inside ∨
    (control = .enter step ∧ b = trail.here ∧ ∃ more, deeds = .entered step :: more)
  order : n < step.work.references.length ∨
    deeds = [.finished step .done] ∧ trail.inside.head? = some b

theorem mem_ways_follow {target : String} (h : c ∈ (follow d target).ways trail) :
    c = trail.here := by
  unfold follow at h
  split at h
  · exact List.mem_singleton.1 h
  · cases h

/-- **A task turns to a reference of a step that it is inside of.** -/
theorem Advance.onward (h : Advance invoker calls run frames control deeds frames' control')
    (hstack : Stack d frames trail.inside) (hcontrol : control.Placed d trail frames)
    (hc : c ∈ control'.ways (deeds.foldl Trail.record trail)) :
    c ∈ control.ways trail ∨ ∃ n b step, Onward d control trail deeds c n b step := by
  cases h with
  | begin hroot => exact Or.inl hc
  | @choose _ step choice target n hwork hto htarget =>
    obtain ⟨r, hr, -⟩ := Option.map_eq_some_iff.1 htarget
    exact Or.inr ⟨n, trail.here, step, mem_ways_follow hc, hcontrol.1,
      Or.inr ⟨rfl, rfl, _, rfl⟩, Or.inl (lt_of_getElem? hr)⟩
  | @next _ step target hnext =>
    obtain ⟨a, rest, hinside, ha, -⟩ := hstack.tail_of_finish
    have hhere := mem_ways_follow hc
    simp only [List.foldl_cons, List.foldl_nil, Trail.record, hinside, List.headD_cons] at hhere
    exact Or.inr ⟨_, a, step, hhere, ha, Or.inl (by simp [hinside]),
      Or.inr ⟨rfl, by simp [hinside]⟩⟩
  | @child _ target rest =>
    cases hstack with
    | @sequence step before _ frames _ hwork hstack =>
      obtain ⟨a, outside, hinside, ha, -⟩ := hstack.tail_of_finish
      have hwidth : step.work.references.length = before.length + (rest.length + 1) := by
        simp [hwork, Work.references]
      have hhere := mem_ways_follow hc
      simp only [List.foldl_cons, List.foldl_nil, Trail.record, hinside, List.headD_cons] at hhere
      refine Or.inr ⟨_, a, step, hhere, ha, Or.inl (by simp [hinside]), Or.inl ?_⟩
      simp only [Frame.place, hwidth]
      omega
  | _ => cases hc

/-- A step whose end comes next has no way left into its work. -/
theorem Stack.not_dispatches {rest : List Address}
    (h : Stack d (.finish step :: frames) (a :: rest)) (hnested : ∀ b ∈ rest, ¬ a <:+ b)
    (hn : n :: a ∈ Frame.ways (.finish step :: frames) (a :: rest)) :
    ¬ Dispatches d a (n :: a) := by
  rintro ⟨step', k, hat', hk, hsuffix⟩
  obtain ⟨_, _, heq, hat, hstack⟩ := h.tail_of_finish
  cases heq
  obtain rfl : step' = step := Option.some.inj (hat'.symm.trans hat)
  rcases List.mem_cons.1 hn with heq | hn
  · have hkn := List.head_eq_of_cons_eq (hsuffix.eq_of_length rfl)
    have hnext := List.head_eq_of_cons_eq heq
    omega
  · obtain ⟨n', b, hb, heq⟩ := exists_of_mem_ways hstack hn
    obtain rfl := List.tail_eq_of_cons_eq heq
    exact hnested a hb (List.suffix_refl a)

namespace Scene

variable {x : Scene} {m m' : Machine} {l : Ledger} {input : Store} {id i j : Nat}
  {task task' : Task} {trail' : Trail}

/-- The trails after a turn: that of the task whose turn it is, those of the others, and those of
new tasks, which are inside of nothing. -/
theorem Placed.trail_cases (h : Placed d ⟨m, l⟩) (hturn : Turn invoker m id deeds m')
    (htrail : (l.record id deeds).trails[j]? = some trail') :
    (j = id ∧ ∃ trail, l.trails[id]? = some trail ∧ trail' = deeds.foldl Trail.record trail) ∨
      (j ≠ id ∧ l.trails[j]? = some trail') ∨ trail'.inside = [] := by
  rcases hturn.runs_eq with ⟨rfl, -⟩ | ⟨task, -, htask, -, -⟩
  · by_cases hj : j = id
    · subst hj
      exact Or.inl ⟨rfl, trail', htrail, rfl⟩
    · exact Or.inr (Or.inl ⟨hj, htrail⟩)
  · obtain ⟨trail, hid⟩ := h.exists_trail htask
    obtain ⟨kids, htrails, hkids⟩ := Ledger.exists_trails_record deeds hid
    rw [htrails] at htrail
    rcases getElem?_append_cases htrail with htrail | ⟨-, htrail⟩
    · rcases getElem?_set_cases htrail with ⟨rfl, rfl⟩ | ⟨hne, htrail⟩
      · exact Or.inl ⟨rfl, trail, hid, rfl⟩
      · exact Or.inr (Or.inl ⟨hne, htrail⟩)
    · exact Or.inr (Or.inr (hkids _ (List.mem_of_getElem? htrail)))

/-- What a task is inside of after a turn, it was inside of before or has just entered. -/
theorem Placed.inside_cases (h : Placed d ⟨m, l⟩) (hturn : Turn invoker m id deeds m')
    (htrail : (l.record id deeds).trails[j]? = some trail') (hc : c ∈ trail'.inside) :
    (∃ trail, l.trails[j]? = some trail ∧ c ∈ trail.inside) ∨
      ∃ task trail step, j = id ∧ m.tasks[id]? = some task ∧ l.trails[id]? = some trail ∧
        task.control = .enter step ∧ c = trail.here := by
  rcases h.trail_cases hturn htrail with ⟨rfl, trail, hid, rfl⟩ | ⟨-, htrail⟩ | hnil
  · cases hturn.marking with
    | @enters task step more htask hcontrol hmore =>
      rw [List.foldl_cons, inside_of_not_marks hmore] at hc
      rcases List.mem_cons.1 hc with rfl | hc
      · exact Or.inr ⟨task, trail, step, rfl, htask, hid, hcontrol, rfl⟩
      · exact Or.inl ⟨trail, hid, hc⟩
    | finishes htask hframes hcontrol => exact Or.inl ⟨trail, hid, List.mem_of_mem_tail hc⟩
    | nothing hnone =>
      rw [inside_of_not_marks hnone] at hc
      exact Or.inl ⟨trail, hid, hc⟩
  · exact Or.inl ⟨trail', htrail, hc⟩
  · rw [hnil] at hc
    cases hc

/-- What a task turns to after a turn, it turned to before, or the task whose turn it was has come
to it, for itself or for a branch. -/
theorem Placed.ways_cases (h : Placed d ⟨m, l⟩) (hturn : Turn invoker m id deeds m')
    (hnow : m'.tasks[j]? = some task') (htrail : (l.record id deeds).trails[j]? = some trail')
    (hc : c ∈ task'.control.ways trail') :
    (∃ task trail, m.tasks[j]? = some task ∧ l.trails[j]? = some trail ∧
        c ∈ task.control.ways trail) ∨
      ∃ task trail n b step, m.tasks[id]? = some task ∧ l.trails[id]? = some trail ∧
        Onward d task.control trail deeds c n b step ∧ (j = id ∨ task'.parent = some id) := by
  by_cases hj : j = id
  · subst hj
    cases hturn.own hnow with
    | idle htask => exact Or.inl ⟨_, trail', htask, htrail, hc⟩
    | goes htask hrun hadv =>
      obtain ⟨trail, hid⟩ := h.exists_trail htask
      rw [Ledger.trails_record_self hid] at htrail
      cases htrail
      obtain ⟨-, hstack, hcontrol⟩ := h.tasks j _ trail htask hid
      rcases hadv.onward hstack hcontrol hc with hc | ⟨n, b, step, honward⟩
      · exact Or.inl ⟨_, trail, htask, hid, hc⟩
      · exact Or.inr ⟨_, trail, n, b, step, htask, hid, honward, Or.inl rfl⟩
    | forks => cases hc
    | stops => cases hc
  · cases hturn.fate hj hnow with
    | kept htask =>
      rw [h.trails_other hj htask] at htrail
      exact Or.inl ⟨_, trail', htask, htrail, hc⟩
    | told htask =>
      rw [h.trails_other hj htask] at htrail
      exact Or.inl ⟨_, trail', htask, htrail, ways_told ▸ hc⟩
    | @born task step b branches k htask hcontrol hdeeds hb hjk =>
      obtain ⟨trail, hid⟩ := h.exists_trail htask
      obtain ⟨-, -, hplaced⟩ := h.tasks id task trail htask hid
      rw [hcontrol] at hplaced
      subst hdeeds
      -- a branch stands at the reference that it was started for
      obtain ⟨-, -, ids, found, hwork, hall, hlength⟩ :=
        (h.turn hturn).entries ⟨id, trail.here, .forked step
          (List.range' m.tasks.length branches.length)⟩ (by
            rw [Ledger.history_record hid]
            simp [Trail.entries, Trail.address, Trail.record])
      have hk : k < step.work.references.length := by
        have hlt := lt_of_getElem? hb
        rw [List.length_range'] at hlength
        simpa [hwork, Work.references, ← length_resolveAll hall, ← hlength] using hlt
      rw [hjk, ← h.trails] at htrail
      obtain rfl := Ledger.trail_of_kid hid htrail
      refine Or.inr ⟨task, trail, k, trail.here, step, htask, hid, ?_, Or.inr rfl⟩
      exact ⟨List.mem_singleton.1 hc, hplaced.1, Or.inr ⟨hcontrol, rfl, _, rfl⟩,
        Or.inl hk⟩

/-! ### Whose a step execution is -/

/-- What a task comes to after a turn: it was there before, or it comes from where the task was
whose turn it was, for itself or for a branch. -/
theorem Placed.at_cases (h : Placed d ⟨m, l⟩) (hturn : Turn invoker m id deeds m')
    (hnow : m'.tasks[j]? = some task') (htrail : (l.record id deeds).trails[j]? = some trail')
    (hc : task'.At trail' c) :
    (∃ task trail, m.tasks[j]? = some task ∧ l.trails[j]? = some trail ∧ task.At trail c) ∨
      ∃ task trail n b, m.tasks[id]? = some task ∧ l.trails[id]? = some trail ∧
        task.At trail b ∧ c = n :: b ∧ (j = id ∨ task'.parent = some id) := by
  rcases hc with hc | hc
  · rcases h.inside_cases hturn htrail hc with
      ⟨trail, hj, hc⟩ | ⟨task, trail, step, rfl, htask, hid, hcontrol, rfl⟩
    · obtain ⟨task, htask⟩ := getElem?_of_lt (l := m.tasks) (i := j)
        (h.trails ▸ lt_of_getElem? hj)
      exact Or.inl ⟨task, trail, htask, hj, Or.inl hc⟩
    · exact Or.inl ⟨task, trail, htask, hid,
        Or.inr (by rw [hcontrol]; exact List.mem_singleton_self _)⟩
  · rcases h.ways_cases hturn hnow htrail hc with
      ⟨task, trail, htask, hj, hc⟩ | ⟨task, trail, n, b, step, htask, hid, honward, hwhose⟩
    · exact Or.inl ⟨task, trail, htask, hj, Or.inr hc⟩
    · refine Or.inr ⟨task, trail, n, b, htask, hid, ?_, honward.address, hwhose⟩
      rcases honward.origin with hb | ⟨hcontrol, rfl, -⟩
      · exact Or.inl hb
      · exact Or.inr (by rw [hcontrol]; exact List.mem_singleton_self _)

/-- What a task is at has not been entered or is under way there. -/
theorem Reaches.inside_of_at (h : Reaches invoker (opening d input) x)
    (htask : x.machine.tasks[j]? = some task) (htrail : x.ledger.trails[j]? = some trail)
    (hat : task.At trail a) (hi : x.ledger.trails[i]? = some trail') (ha : a ∈ trail'.inside) :
    i = j := by
  rcases hat with hinside | hways
  · exact h.eq_of_inside hi htrail ha hinside
  · have hzero := h.begun_eq_zero htask htrail (List.mem_append_left _ hways)
      (List.suffix_refl a)
    have hone := (h.of_inside hi ha).1
    omega

/-- **Whatever a step execution has dispatched is worked at by the task that is inside of it, or by
a task under that.** -/
theorem Reaches.under_of_dispatches (h : Reaches invoker (opening d input) x) :
    ∀ (i j : Nat) (trail trail' : Trail) (task' : Task) (a c : Address),
      x.ledger.trails[i]? = some trail → x.machine.tasks[j]? = some task' →
      x.ledger.trails[j]? = some trail' → a ∈ trail.inside → task'.At trail' c →
      Dispatches d a c → j = i ∨ Under x.machine.tasks i j := by
  refine h.induct ?start ?turn ?same
  case start =>
    intro i j trail trail' task' a c hi _ _ ha
    obtain rfl : trail = {} := List.mem_singleton.1 (List.mem_of_getElem? hi)
    cases ha
  case turn =>
    intro m m' l id deeds hreach ih hturn i j trail trail' task' a c hi hnow hj ha hc hdispatches
    have hplaced := hreach.placed
    -- a branch of the task whose turn it was is under whatever that task is, or is under
    have hwhose : (j = id ∨ task'.parent = some id) → (id = i ∨ Under m.tasks i id) →
        j = i ∨ Under m'.tasks i j := by
      rintro (rfl | hparent) (rfl | hunder)
      · exact Or.inl rfl
      · exact Or.inr (hunder.mono hturn.parents)
      · exact Or.inr (.kid hnow hparent)
      · exact Or.inr (.deeper (hunder.mono hturn.parents) hnow hparent)
    rcases hplaced.inside_cases hturn hi ha with
      ⟨before, hi, ha⟩ | ⟨task, before, step, rfl, htask, hi, hcontrol, rfl⟩
    · rcases hplaced.at_cases hturn hnow hj hc with
        ⟨task, there, htask, hj, hc⟩ | ⟨task, there, n, b, htask, hid, hb, rfl, hfrom⟩
      · exact (ih i j before there task a c hi htask hj ha hc hdispatches).imp_right
          (·.mono hturn.parents)
      · refine hwhose hfrom ?_
        rcases hdispatches.of_cons with rfl | hdispatches
        · exact Or.inl (hreach.inside_of_at htask hid hb hi ha).symm
        · exact ih i id before there task a b hi htask hid ha hb hdispatches
    · rcases hplaced.at_cases hturn hnow hj hc with
        ⟨task', there, htask', hj, hc⟩ | ⟨task', there, n, b, htask', hid, hb, rfl, hfrom⟩
      · -- nothing beyond a step that is just entered has been worked at before
        have hways : before.here ∈ task.ways before :=
          List.mem_append_left _ (by rw [hcontrol]; exact List.mem_singleton_self _)
        rcases hc with hc | hc
        · have hzero := hreach.begun_eq_zero htask hi hways hdispatches.suffix
          have hone := (hreach.of_inside hj hc).1
          dsimp only at hzero hone
          omega
        · exact Or.inl (hreach.eq_of_ways htask' hj htask hi (List.mem_append_left _ hc)
            (List.suffix_refl c) hways hdispatches.suffix)
      · exact hwhose hfrom (Or.inl rfl)
  case same =>
    intro m m' l htasks hruns hcalls ih
    dsimp only at ih ⊢
    rwa [htasks]

/-! ### When a step succeeds -/

/-- Whether no task can come to a step execution any more, or is inside of it. -/
structure Settled (goal : Address) (x : Scene) : Prop where
  ahead : ahead goal x.machine.tasks x.ledger.trails = 0
  finished : begun goal x.ledger.history = finished goal x.ledger.history

/-- What is settled stays so. -/
theorem Settled.turn (h : Settled goal ⟨m, l⟩) (hreach : Reaches invoker (opening d input) ⟨m, l⟩)
    (hturn : Turn invoker m id deeds m') : Settled goal ⟨m', l.record id deeds⟩ := by
  obtain ⟨hahead, hfinished⟩ := h
  have hle := hreach.placed.ahead_turn hturn goal
  have hbalanced := hreach.placed.balanced_turn hturn (hreach.balanced goal)
  obtain ⟨trail, -, hhistory⟩ := hreach.placed.history_record hturn
  rw [hhistory, begun_append, finished_append] at hbalanced
  rw [hhistory, begun_append] at hle
  dsimp only at hahead hfinished
  refine ⟨?_, ?_⟩
  · dsimp only
    omega
  · dsimp only
    rw [hhistory, begun_append, finished_append]
    omega

/-- A task under one that is about to succeed has stopped. -/
theorem Orderly.stopped_of_under (h : x.Orderly) (htask : x.machine.tasks[i]? = some task)
    (hc : task.control = .leave .done) (hunder : Under x.machine.tasks i j)
    (hj : x.machine.tasks[j]? = some task') : task'.control = .stopped := by
  refine h.stopped_of_outcomeOf hj (h.under_done (fun k child hk hparent => ?_) hunder)
  have hacc := h.kids i k task child htask hk hparent
  rw [hc] at hacc
  exact hacc

/-- The step executions that a task is inside of are nested: the outer ones do not lie beyond the
inner ones. -/
theorem Reaches.nested (h : Reaches invoker (opening d input) x) :
    ∀ (j : Nat) (trail : Trail), x.ledger.trails[j]? = some trail →
      trail.inside.Pairwise fun a b => ¬ a <:+ b := by
  refine h.induct ?start ?turn ?same
  case start =>
    intro j trail hj
    obtain rfl : trail = {} := List.mem_singleton.1 (List.mem_of_getElem? hj)
    exact .nil
  case turn =>
    intro m m' l id deeds hreach ih hturn j trail' hj
    rcases hreach.placed.trail_cases hturn hj with ⟨rfl, trail, hid, rfl⟩ | ⟨-, hj⟩ | hnil
    · have hbefore := ih j trail hid
      cases hturn.marking with
      | @enters task step more htask hcontrol hmore =>
        rw [List.foldl_cons, inside_of_not_marks hmore]
        refine List.pairwise_cons.2 ⟨fun b hb hsuffix => ?_, hbefore⟩
        have hzero := hreach.begun_eq_zero htask hid
          (List.mem_append_left _ (by rw [hcontrol]; exact List.mem_singleton_self _)) hsuffix
        have hone := (hreach.of_inside hid hb).1
        omega
      | finishes => exact hbefore.tail
      | nothing hnone =>
        rw [inside_of_not_marks hnone]
        exact hbefore
    · exact ih j trail' hj
    · rw [hnil]
      exact .nil
  case same =>
    intro m m' l htasks hruns hcalls ih
    exact ih

/-- No task but those that have stopped is inside of anything that a step has dispatched that is
about to succeed. -/
theorem Reaches.not_inside (h : Reaches invoker (opening d input) x)
    (htask : x.machine.tasks[i]? = some task) (hi : x.ledger.trails[i]? = some trail)
    (hc : task.control = .leave .done) {rest : List Address} (hinside : trail.inside = a :: rest)
    (hj : x.ledger.trails[j]? = some trail') (hb : b ∈ trail'.inside) :
    ¬ Dispatches d a b := by
  intro hdispatches
  obtain ⟨task', htask'⟩ := getElem?_of_lt (h.placed.trails ▸ lt_of_getElem? hj)
  rcases h.under_of_dispatches i j trail trail' task' a b hi htask' hj (by simp [hinside])
    (Or.inl hb) hdispatches with rfl | hunder
  · rw [hi] at hj
    cases hj
    have hnested := h.nested j trail hi
    rw [hinside] at hb hnested
    rcases List.mem_cons.1 hb with rfl | hb
    · exact Nat.lt_irrefl _ hdispatches.length_lt
    · exact (List.pairwise_cons.1 hnested).1 b hb hdispatches.suffix
  · have hstopped := h.orderly.stopped_of_under htask hc hunder htask'
    obtain ⟨-, hstack, -⟩ := h.placed.tasks j task' trail' htask' hj
    rw [h.placed.frames_of_stopped htask' hstopped] at hstack
    rw [hstack.inside_of_nil] at hb
    cases hb

/-- **When a step is about to succeed, all that it has dispatched is settled.** -/
theorem Reaches.settled_of_leaving (h : Reaches invoker (opening d input) x)
    (htask : x.machine.tasks[i]? = some task) (hi : x.ledger.trails[i]? = some trail)
    (hframes : task.frames = .finish step :: frames) (hc : task.control = .leave .done)
    {rest : List Address} (hinside : trail.inside = a :: rest)
    (hdispatches : Dispatches d a goal) : Settled goal x := by
  have hplaced := h.placed
  have ha : a ∈ trail.inside := by simp [hinside]
  obtain ⟨hone, -, -⟩ := h.of_inside hi ha
  constructor
  · by_contra hahead
    obtain ⟨j, task', trail', htask', hj, v, hv, hgoal⟩ :=
      exists_of_ahead_pos (Nat.pos_of_ne_zero hahead)
    have hstack := (hplaced.tasks j task' trail' htask' hj).2.1
    -- a way that led to the step itself would have been taken
    have hlt : a.length < v.length := by
      by_contra hle
      have hsuffix := List.suffix_of_suffix_length_le hgoal hdispatches.suffix (by omega)
      have hzero := h.begun_eq_zero htask' hj hv hsuffix
      omega
    have hv' := hdispatches.of_suffix hgoal hlt
    rcases List.mem_append.1 hv with hv | hv
    · have hways : task'.control.ways trail' = [] := by
        rcases h.under_of_dispatches i j trail trail' task' a v hi htask' hj ha (Or.inr hv) hv'
          with rfl | hunder
        · rw [htask] at htask'
          cases htask'
          rw [hc]
          rfl
        · rw [h.orderly.stopped_of_under htask hc hunder htask']
          rfl
      rw [hways] at hv
      cases hv
    · obtain ⟨n, b, hb, rfl⟩ := exists_of_mem_ways hstack hv
      rcases hv'.of_cons with rfl | hdispatches
      · -- what is left of the step itself is its next step
        obtain rfl := h.eq_of_inside hi hj ha hb
        rw [htask] at htask'
        rw [hi] at hj
        cases htask'
        cases hj
        rw [hframes, hinside] at hstack hv
        have hnested := h.nested i trail hi
        rw [hinside] at hnested
        exact hstack.not_dispatches (List.pairwise_cons.1 hnested).1 hv hv'
      · exact h.not_inside htask hi hc hinside hj hb hdispatches
  · by_contra hne
    have hbalanced := h.balanced goal
    have hpos : 0 < underway goal x.ledger.trails := by omega
    obtain ⟨j, trail', hj, hb⟩ := exists_of_underway_pos hpos
    exact h.not_inside htask hi hc hinside hj hb hdispatches

/-- What is marked in a turn is not settled before. -/
theorem Reaches.not_settled (h : Reaches invoker (opening d input) ⟨m, l⟩)
    (hturn : Turn invoker m id deeds m')
    (htrail : ∀ task, m.tasks[id]? = some task → l.trails[id]? = some trail)
    {before after : List Entry} {e : Entry}
    (hentries : trail.entries id deeds = before ++ e :: after)
    (he : e.deed.Marks = true) : before = [] ∧ ¬ Settled e.address ⟨m, l⟩ := by
  obtain ⟨rfl, task, htask, ⟨step, hc, rfl⟩ | ⟨step, outcome, frames, hframes, hc, rfl⟩⟩ :=
    hturn.marking.of_entries hentries he
  · refine ⟨rfl, fun hsettled => ?_⟩
    have hle := leading_le_ahead trail.here htask (htrail task htask)
    have hpos : 0 < leading trail.here (task.ways trail) :=
      leading_pos (v := trail.here) (by simp [Task.ways, hc]) (List.suffix_refl _)
    have hahead := hsettled.ahead
    dsimp only at hahead
    omega
  · refine ⟨rfl, fun hsettled => ?_⟩
    obtain ⟨-, hstack, -⟩ := h.placed.tasks id task trail htask (htrail task htask)
    rw [hframes] at hstack
    obtain ⟨a, rest, hinside, -, -⟩ := hstack.tail_of_finish
    obtain ⟨hbegun, hfinished, -⟩ := h.of_inside (a := a) (htrail task htask) (by simp [hinside])
    have hsame := hsettled.finished
    rw [hinside] at hsame
    dsimp only [List.headD_cons] at hsame hbegun hfinished
    omega

/-- **Whatever a step has dispatched is over before the step succeeds**, and stays so. -/
theorem Reaches.after_dispatched (h : Reaches invoker (opening d input) x) :
    (∀ f ∈ x.ledger.history, ∀ step, f.deed = .finished step .done →
        ∀ goal, Dispatches d f.address goal → Settled goal x) ∧
      Throughout (AfterDispatched d) x.ledger.history := by
  refine h.induct ⟨List.forall_mem_nil _, throughout_nil⟩ ?turn ?same
  case turn =>
    intro m m' l id deeds hreach ih hturn
    obtain ⟨hsettled, hthroughout⟩ := ih
    obtain ⟨trail, htrail, hhistory⟩ := hreach.placed.history_record hturn
    constructor
    · intro f hf step hdeed goal hdispatches
      refine Settled.turn ?_ hreach hturn
      dsimp only at hf
      rw [hhistory, List.mem_append] at hf
      rcases hf with hf | hf
      · exact hsettled f hf step hdeed goal hdispatches
      · obtain ⟨before, after, hentries⟩ := List.append_of_mem hf
        obtain ⟨-, task, htask, ⟨step', hc, rfl⟩ | ⟨step', outcome, frames, hframes, hc, rfl⟩⟩ :=
          hturn.marking.of_entries hentries (by rw [hdeed]; rfl)
        · cases hdeed
        · cases hdeed
          obtain ⟨-, hstack, -⟩ := hreach.placed.tasks id task trail htask (htrail task htask)
          rw [hframes] at hstack
          obtain ⟨a, rest, hinside, -, -⟩ := hstack.tail_of_finish
          rw [hinside] at hdispatches
          exact hreach.settled_of_leaving htask (htrail task htask) hframes hc hinside hdispatches
    · dsimp only
      rw [hhistory]
      refine hthroughout.append fun before e after hentries he f hf step hdeed hdispatches => ?_
      obtain ⟨rfl, hnot⟩ := hreach.not_settled hturn htrail hentries he
      rw [List.append_nil] at hf
      exact hnot (hsettled f hf step hdeed _ hdispatches)
  case same =>
    intro m m' l htasks hruns hcalls ih
    obtain ⟨hsettled, hthroughout⟩ := ih
    refine ⟨fun f hf step hdeed goal hdispatches => ?_, hthroughout⟩
    obtain ⟨hahead, hfinished⟩ := hsettled f hf step hdeed goal hdispatches
    exact ⟨by dsimp only; rwa [htasks], hfinished⟩

/-! ### What comes before a step -/

/-- Where a reference leads on, it can be followed. -/
theorem Reaches.comes_onward (h : Reaches invoker (opening d input) ⟨m, l⟩)
    (hid : l.trails[id]? = some trail) (honward : Onward d control trail deeds c n b step) :
    Comes d (l.history ++ trail.entries id deeds) n b := by
  refine ⟨step, honward.located, ?_, fun hn => ?_⟩
  · rcases honward.origin with hb | ⟨-, rfl, more, rfl⟩
    · have hone := (h.of_inside hid hb).1
      have hpos : 0 < begun b l.history := by
        dsimp only at hone
        omega
      obtain ⟨e, he, step', hdeed, rfl⟩ := exists_of_begun_pos hpos
      have hlocated := (h.placed.entries e he).2
      rw [hdeed] at hlocated
      obtain rfl : step' = step := Option.some.inj (hlocated.symm.trans honward.located)
      exact ⟨e, List.mem_append_left _ he, rfl, hdeed⟩
    · exact ⟨_, List.mem_append_right _ (List.mem_cons_self ..), rfl, rfl⟩
  · rcases honward.order with hlt | ⟨rfl, hhead⟩
    · omega
    · refine ⟨_, List.mem_append_right _ (List.mem_cons_self ..), ?_, rfl⟩
      show trail.inside.headD [] = b
      rw [List.headD_eq_head?_getD, hhead]
      rfl

/-- **No step begins before the one that refers to it, and none before the step that it is the next
of has succeeded.** -/
theorem Reaches.comes_after (h : Reaches invoker (opening d input) x) :
    (∀ (j : Nat) (task : Task) (trail : Trail) (n : Nat) (a : Address),
        x.machine.tasks[j]? = some task → x.ledger.trails[j]? = some trail →
        n :: a ∈ task.control.ways trail → Comes d x.ledger.history n a) ∧
      Throughout (ComesAfter d) x.ledger.history := by
  refine h.induct ?start ?turn ?same
  case start =>
    refine ⟨fun j task trail n a htask hj hmem => ?_, throughout_nil⟩
    obtain rfl : trail = {} := List.mem_singleton.1 (List.mem_of_getElem? hj)
    rw [(task_of_opening htask).2] at hmem
    simp at hmem
  case turn =>
    intro m m' l id deeds hreach ih hturn
    obtain ⟨hcomes, hthroughout⟩ := ih
    obtain ⟨trail, htrail, hhistory⟩ := hreach.placed.history_record hturn
    dsimp only
    rw [hhistory]
    constructor
    · intro j task' trail' n a hnow hj hmem
      rcases hreach.placed.ways_cases hturn hnow hj hmem with
        ⟨task, before, htask, hj, hmem⟩ | ⟨task, before, k, b, step, htask, hid, honward, -⟩
      · exact (hcomes j task before n a htask hj hmem).append
      · obtain ⟨rfl, rfl⟩ := List.cons.inj honward.address
        obtain rfl := Option.some.inj ((htrail task htask).symm.trans hid)
        exact hreach.comes_onward hid honward
    · refine hthroughout.append fun before e after hentries step n a hdeed haddress => ?_
      obtain ⟨rfl, task, htask, ⟨step', hc, rfl⟩ | ⟨_, _, _, _, _, rfl⟩⟩ :=
        hturn.marking.of_entries hentries (by rw [hdeed]; rfl)
      · rw [List.append_nil]
        refine hcomes id task trail n a htask (htrail task htask) ?_
        rw [hc, ← haddress]
        exact List.mem_singleton_self _
      · cases hdeed
  case same =>
    intro m m' l htasks hruns hcalls ih
    obtain ⟨hcomes, hthroughout⟩ := ih
    refine ⟨?_, hthroughout⟩
    dsimp only
    rwa [htasks]

end Scene

end Flowgraph.Run

import Flowgraph.Proofs.Canvas.Stability

/-!
# Conditions whose edges only have labels

Where no edge of a condition has a handle for it, the targets are found by the labels of the edges
and by their positions: the first edge stands for success and the second one for failure, and so
do, wherever they stand, edges with the label for it. Of several edges for one target the last one
counts. So **an edge with the label for success is heard in any place** (`onSuccess_byLabels`): no
edge after it is in the first place. An edge with the label for failure is heard in any place but the
first (`onFailure_byLabels`), where its position makes it stand for success
(`onFailure_byLabels_of_first`).
-/

set_option autoImplicit false

namespace Flowgraph.Canvas

variable {c : Canvas} {node : Node} {e yes no : Edge} {edges before after : List Edge}
  {t : Targets} {index : Nat}

/-! ### Going through the edges -/

/-- The targets after edges have been taken by labels and positions, the first one in the place
`index`. -/
def Targets.byLabels (t : Targets) (index : Nat) (edges : List Edge) : Targets :=
  (edges.zipIdx index).foldl (fun t (e, i) => t.byLabel e i) t

namespace Targets

@[simp] theorem byLabels_nil : t.byLabels index [] = t := rfl

@[simp] theorem byLabels_cons :
    t.byLabels index (e :: edges) = (t.byLabel e index).byLabels (index + 1) edges := rfl

theorem byLabels_append : t.byLabels index (before ++ after) =
    (t.byLabels index before).byLabels (index + before.length) after := by
  rw [byLabels, List.zipIdx_append, List.foldl_append]
  rfl

/-- An edge stands for success by its label or in the first place, and for nothing else then. -/
theorem byLabel_of_success (h : e.label = some successLabel ∨ index = 0) :
    t.byLabel e index = { t with onSuccess := some e.target } := if_pos h

theorem onSuccess_byLabel (h : ¬ (e.label = some successLabel ∨ index = 0)) :
    (t.byLabel e index).onSuccess = t.onSuccess := by
  rw [byLabel, if_neg h]
  split <;> rfl

theorem onFailure_byLabel (h : ¬ (e.label = some failureLabel ∨ index = 1)) :
    (t.byLabel e index).onFailure = t.onFailure := by
  rw [byLabel, if_neg h]
  split <;> rfl

theorem onFailure_byLabel_of_failure (hsuccess : ¬ (e.label = some successLabel ∨ index = 0))
    (h : e.label = some failureLabel ∨ index = 1) :
    (t.byLabel e index).onFailure = some e.target := by
  rw [byLabel, if_neg hsuccess, if_pos h]

/-- Past the first place, edges without the label leave the target for success as it is. -/
theorem onSuccess_byLabels_of_unlabelled (hindex : 0 < index)
    (h : ∀ e ∈ edges, e.label ≠ some successLabel) :
    (t.byLabels index edges).onSuccess = t.onSuccess := by
  induction edges generalizing t index with
  | nil => rfl
  | cons e edges ih =>
    obtain ⟨he, hedges⟩ := List.forall_mem_cons.1 h
    rw [byLabels_cons, ih (Nat.succ_pos index) hedges, onSuccess_byLabel]
    rintro (hlabel | hzero)
    · exact he hlabel
    · omega

/-- Past the second place, edges without the label leave the target for failure as it is. -/
theorem onFailure_byLabels_of_unlabelled (hindex : 1 < index)
    (h : ∀ e ∈ edges, e.label ≠ some failureLabel) :
    (t.byLabels index edges).onFailure = t.onFailure := by
  induction edges generalizing t index with
  | nil => rfl
  | cons e edges ih =>
    obtain ⟨he, hedges⟩ := List.forall_mem_cons.1 h
    rw [byLabels_cons, ih (Nat.lt_succ_of_lt hindex) hedges, onFailure_byLabel]
    rintro (hlabel | hone)
    · exact he hlabel
    · omega

/-- **The last edge with the label for success is taken**, in whatever place. -/
theorem onSuccess_byLabels (hlabel : e.label = some successLabel)
    (hafter : ∀ e ∈ after, e.label ≠ some successLabel) :
    (t.byLabels index (before ++ e :: after)).onSuccess = some e.target := by
  rw [byLabels_append, byLabels_cons, onSuccess_byLabels_of_unlabelled (Nat.succ_pos _) hafter,
    byLabel_of_success (Or.inl hlabel)]

/-- **The last edge with the label for failure is taken**, in any place but the first. -/
theorem onFailure_byLabels (hplace : 0 < index + before.length)
    (hlabel : e.label = some failureLabel)
    (hafter : ∀ e ∈ after, e.label ≠ some failureLabel) :
    (t.byLabels index (before ++ e :: after)).onFailure = some e.target := by
  have hsuccess : ¬ (e.label = some successLabel ∨ index + before.length = 0) := by
    rintro (hother | hzero)
    · rw [hlabel] at hother
      exact absurd hother (by decide)
    · omega
  rw [byLabels_append, byLabels_cons, onFailure_byLabels_of_unlabelled (by omega) hafter,
    onFailure_byLabel_of_failure hsuccess (Or.inl hlabel)]

/-- If no edge but the first one has the label for failure, the second edge is taken, unless it has
the label for success. -/
theorem onFailure_byLabels_of_first (hafter : ∀ e ∈ after, e.label ≠ some failureLabel) :
    (byLabels {} 0 (e :: after)).onFailure =
      (after.head?.filter (·.label ≠ some successLabel)).map (·.target) := by
  rw [byLabels_cons, byLabel_of_success (Or.inr rfl)]
  cases after with
  | nil => rfl
  | cons second rest =>
    obtain ⟨-, hrest⟩ := List.forall_mem_cons.1 hafter
    rw [byLabels_cons, onFailure_byLabels_of_unlabelled Nat.one_lt_two hrest, List.head?_cons,
      Option.filter_some]
    by_cases hsecond : second.label = some successLabel
    · rw [byLabel_of_success (Or.inl hsecond), if_neg (by simpa using hsecond)]
      rfl
    · have hsuccess : ¬ (second.label = some successLabel ∨ 0 + 1 = 0) := by simpa using hsecond
      rw [onFailure_byLabel_of_failure hsuccess (Or.inr rfl), if_pos (by simpa using hsecond)]
      rfl

end Targets

/-- Without handles for a condition, labels and positions are all there is to go by. -/
theorem targetsOf_of_no_handle (h : ∀ e ∈ edges, e.handle ≠ some successHandle ∧
    e.handle ≠ some failureHandle) : targetsOf edges = Targets.byLabels {} 0 edges := by
  have hhandled : edges.foldl Targets.byHandle {} = {} := by
    refine List.foldlRecOn (motive := (· = ({} : Targets))) edges Targets.byHandle rfl ?_
    rintro t rfl e he
    obtain ⟨hsuccess, hfailure⟩ := h e he
    simp [Targets.byHandle, Edge.leavesAt, hsuccess, hfailure]
  unfold targetsOf
  rw [hhandled]
  rfl

/-! ### The conditions of a canvas -/

/-- The edges from a node to steps. -/
def edgesFrom (c : Canvas) (node : Node) : List Edge :=
  c.edges.filter fun e => e.source = node.id ∧ e.target ∈ c.stepNodes.map (·.id)

/-- The edges of a node that stand for its work: all but those to its next step. -/
def workEdges (c : Canvas) (node : Node) : List Edge :=
  (c.edgesFrom node).filter (!·.leavesAt nextHandle)

/-- There is a step for each node that stands for one, in the same order. -/
theorem steps_toDefinition (c : Canvas) :
    c.toDefinition.steps = c.stepNodes.map fun node => stepOf node (c.edgesFrom node) := rfl

/-- What the step of a condition is. -/
theorem stepOf_condition (h : node.data.kind = .condition) :
    ∃ choice, (stepOf node (c.edgesFrom node)).work = .condition choice ∧
      choice.onSuccess = (targetsOf (c.workEdges node)).onSuccess ∧
      choice.onFailure = (targetsOf (c.workEdges node)).onFailure := by
  unfold stepOf workEdges
  rw [h]
  exact ⟨_, rfl, rfl, rfl⟩

/-- **Labels tell the targets of a condition**, where none of its edges to steps has a handle for
it, just one has the label for success and just one that for failure. The former is the target for
success wherever it stands. The latter is the target for failure wherever it stands, but for the
first place; if it stands there, the target for failure is that of the second edge, or none if there
is no second edge or it has the label for success. -/
theorem labels_decide (c : Canvas) {i : Nat} {node : Node} {yes no : Edge}
    (hnode : c.stepNodes[i]? = some node) (hkind : node.data.kind = .condition)
    (hhandles : ∀ e ∈ c.edgesFrom node, e.handle ≠ some successHandle ∧
      e.handle ≠ some failureHandle)
    (hyes : (c.workEdges node).filter (·.label = some successLabel) = [yes])
    (hno : (c.workEdges node).filter (·.label = some failureLabel) = [no]) :
    ∃ step choice, c.toDefinition.steps[i]? = some step ∧ step.id = node.id ∧
      step.work = .condition choice ∧
      choice.onSuccess = some yes.target ∧
      ((c.workEdges node).head? ≠ some no → choice.onFailure = some no.target) ∧
      ((c.workEdges node).head? = some no → choice.onFailure =
        ((c.workEdges node)[1]?.filter (·.label ≠ some successLabel)).map (·.target)) := by
  obtain ⟨choice, hwork, hsuccess, hfailure⟩ := stepOf_condition (c := c) hkind
  have htargets : targetsOf (c.workEdges node) = Targets.byLabels {} 0 (c.workEdges node) :=
    targetsOf_of_no_handle fun e he => hhandles e (List.mem_filter.1 he).1
  refine ⟨_, choice, ?step, id_stepOf node _, hwork, ?yes, ?no, ?first⟩
  case step => rw [steps_toDefinition, List.getElem?_map, hnode, Option.map_some]
  case yes =>
    obtain ⟨before, after, heq, -, hlabel, hnone⟩ := List.filter_eq_cons_iff.1 hyes
    rw [hsuccess, htargets, heq]
    refine Targets.onSuccess_byLabels (by simpa using hlabel) fun e he => ?_
    simpa using List.filter_eq_nil_iff.1 hnone e he
  case no =>
    intro hplace
    obtain ⟨before, after, heq, -, hlabel, hnone⟩ := List.filter_eq_cons_iff.1 hno
    rw [hfailure, htargets]
    rw [heq] at hplace ⊢
    refine Targets.onFailure_byLabels ?_ (by simpa using hlabel) fun e he => ?_
    · cases before with
      | nil => exact absurd rfl hplace
      | cons first before => simp
    · simpa using List.filter_eq_nil_iff.1 hnone e he
  case first =>
    intro hplace
    obtain ⟨rest, heq⟩ := List.head?_eq_some_iff.1 hplace
    rw [hfailure, htargets]
    rw [heq] at hno ⊢
    have hlabel : no.label = some failureLabel := by
      have hmem : no ∈ (no :: rest).filter (·.label = some failureLabel) := by
        rw [hno]
        exact List.mem_singleton_self no
      simpa using (List.mem_filter.1 hmem).2
    rw [List.filter_cons_of_pos (by simpa using hlabel)] at hno
    rw [Targets.onFailure_byLabels_of_first fun e he => by
      simpa using List.filter_eq_nil_iff.1 (List.cons.inj hno).2 e he]
    rw [List.getElem?_cons_succ, List.head?_eq_getElem?]

/-- The node of a condition. -/
def askNode : Node := ⟨"ask", "conditionNode", placeAt 0, { label := "ask", kind := .condition }⟩

/-- The node of a step that is an answer to it. -/
def answerNode (id : String) : Node :=
  ⟨id, "activityNode", placeAt 0, { label := id, activityName := some "log", kind := .activity }⟩

/-- A condition with edges in an order of their own: one without a label comes first, and the label
for failure before that for success. -/
def shuffled : Canvas where
  name := "shuffled"
  nodes := [askNode, answerNode "maybe", answerNode "no", answerNode "yes"]
  edges :=
    [ edge "ask" "end" none (some "✓ Success"), edge "ask" "maybe" (some "next"),
      edge "ask" "maybe", edge "ask" "no" none (some "✗ Failure"), edge "ask" "maybe",
      edge "ask" "yes" none (some "✓ Success"), edge "ask" "maybe" ]

/-- The labels are heard. -/
theorem labels_decide_shuffled :
    shuffled.stepNodes[0]? = some askNode ∧
      (∀ e ∈ shuffled.edgesFrom askNode, e.handle ≠ some "success" ∧
        e.handle ≠ some "failure") ∧
      (shuffled.workEdges askNode).filter (·.label = some "✓ Success") =
        [edge "ask" "yes" none (some "✓ Success")] ∧
      (shuffled.workEdges askNode).filter (·.label = some "✗ Failure") =
        [edge "ask" "no" none (some "✗ Failure")] ∧
      ∃ step choice, shuffled.toDefinition.steps[0]? = some step ∧ step.id = "ask" ∧
        step.work = .condition choice ∧ choice.onSuccess = some "yes" ∧
        choice.onFailure = some "no" := by
  have hhandles : ∀ e ∈ shuffled.edgesFrom askNode, e.handle ≠ some "success" ∧
      e.handle ≠ some "failure" := by decide
  have hyes : (shuffled.workEdges askNode).filter (·.label = some "✓ Success") =
      [edge "ask" "yes" none (some "✓ Success")] := by decide
  have hno : (shuffled.workEdges askNode).filter (·.label = some "✗ Failure") =
      [edge "ask" "no" none (some "✗ Failure")] := by decide
  obtain ⟨step, choice, hstep, hid, hwork, hsuccess, hfailure, -⟩ :=
    labels_decide shuffled (i := 0) rfl rfl hhandles hyes hno
  exact ⟨rfl, hhandles, hyes, hno, step, choice, hstep, hid, hwork, hsuccess,
    hfailure (by decide)⟩

/-- A condition whose first edge has the label for failure. -/
def contrary : Canvas where
  name := "contrary"
  nodes := [askNode, answerNode "no", answerNode "yes"]
  edges := [edge "ask" "no" none (some "✗ Failure"), edge "ask" "yes" none (some "✓ Success")]

/-- The label is not heard: the condition leads nowhere if it does not hold. -/
theorem label_unheard :
    contrary.stepNodes[0]? = some askNode ∧ askNode.data.kind = .condition ∧
      (∀ e ∈ contrary.edgesFrom askNode, e.handle ≠ some "success" ∧
        e.handle ≠ some "failure") ∧
      (contrary.workEdges askNode).filter (·.label = some "✓ Success") =
        [edge "ask" "yes" none (some "✓ Success")] ∧
      (contrary.workEdges askNode).filter (·.label = some "✗ Failure") =
        [edge "ask" "no" none (some "✗ Failure")] ∧
      contrary.toDefinition.steps[0]? = some
        { id := "ask", name := some "ask",
          work := .condition { onSuccess := some "yes", onFailure := none } } :=
  ⟨rfl, rfl, by decide, by decide, by decide, by decide⟩

end Flowgraph.Canvas

import Flowgraph.Proofs.Assoc
import Flowgraph.Proofs.Definition.Findings
import Flowgraph.Proofs.Definition.Normal

/-!
# Conditions that never hold

A check warns about conditions that never hold: those without a variable or an operator, and those
whose operator has no name that is known. It looks at the arguments as they are written, and a run
looks at them by itself. The two agree (`dead_conditions`): **a condition with a warning holds in no
state of a run**, and one without a warning that compares by `equals`, `notEquals` or `exists` holds
in some state, whatever the other variables are. For that the variable is given the value it is
compared with, or none; every value is equal to itself, floats included, since they are finite.
-/

set_option autoImplicit false

namespace Flowgraph

/-! ### Values that are equal to themselves -/

namespace Json

theorem Number.same_self (n : Number) : n.same n = true := by
  cases n with
  | integer n bounds => exact beq_self_eq_true n
  | float x => exact Binary64.same_iff.2 rfl

namespace Value

mutual

/-- A value is the same as itself. -/
theorem same_self : ∀ v : Value, v.same v = true
  | .null => by simp only [same]
  | .bool b => by simp only [same, beq_self_eq_true]
  | .number n => by simp only [same, n.same_self]
  | .string s => by simp only [same, beq_self_eq_true]
  | .array items => by simp only [same, sameItems_self items]
  | .object members => by simp only [same, sameMembers_self members]

theorem sameItems_self : ∀ items : List Value, sameItems items items = true
  | [] => by simp only [sameItems]
  | v :: rest => by simp only [sameItems, same_self v, sameItems_self rest, Bool.and_self]

theorem sameMembers_self : ∀ members : List (String × Value), sameMembers members members = true
  | [] => by simp only [sameMembers]
  | (k, v) :: rest => by
    simp only [sameMembers, beq_self_eq_true, same_self v, sameMembers_self rest, Bool.and_self]

end

end Value

end Json

namespace Condition

variable {arguments : Arguments} {subject : String} {operator : Operator} {store : Store}

/-- An operand is equal to itself, also if it is absent. -/
theorem equal_self : ∀ operand : Option Json.Value, equal operand operand = true
  | none => rfl
  | some (.number _) => Binary64.same_iff.2 rfl
  | some .null => Json.Value.same_self _
  | some (.bool _) => Json.Value.same_self _
  | some (.string _) => Json.Value.same_self _
  | some (.array _) => Json.Value.same_self _
  | some (.object _) => Json.Value.same_self _

/-! ### When a condition can hold -/

/-- No operator has an empty name, so it does not matter that a run takes such a name for none. -/
theorem bind_ofName_operand : (operand? arguments "operator").bind Operator.ofName? =
    ((Assoc.get? "operator" arguments).bind Json.Value.string?).bind Operator.ofName? := by
  unfold operand?
  cases (Assoc.get? "operator" arguments).bind Json.Value.string? with
  | none => rfl
  | some name =>
    by_cases hname : name = ""
    · subst hname
      rfl
    · rw [Option.filter_some, if_pos (by simpa using hname)]

/-- Whether the arguments of a condition make sense: they name a variable and an operator. -/
def Sensible (arguments : Arguments) (subject : String) (operator : Operator) : Prop :=
  operand? arguments "variable" = some subject ∧
    (operand? arguments "operator").bind Operator.ofName? = some operator

/-- A condition compares the variable with the value. -/
theorem Sensible.holds (h : Sensible arguments subject operator) (store : Store) :
    holds arguments store =
      compare operator (Assoc.get? subject store) (Assoc.get? "value" arguments) := by
  unfold Condition.holds
  rw [h.1, h.2]

/-- A condition that makes no sense does not hold. -/
theorem holds_of_not_sensible (h : ¬ ∃ subject operator, Sensible arguments subject operator)
    (store : Store) : holds arguments store = false := by
  unfold holds
  split
  · rename_i subject operator hsubject hoperator
    exact absurd ⟨subject, operator, hsubject, hoperator⟩ h
  · rfl

/-- The operators that some value of the variable satisfies, whatever it is compared with. -/
def Operator.Attainable (operator : Operator) : Prop :=
  operator = .equals ∨ operator = .notEquals ∨ operator = .exists

/-- Some value of the variable, or none, satisfies such an operator. -/
theorem Operator.Attainable.exists_operand (h : operator.Attainable)
    (expected : Option Json.Value) : ∃ actual, compare operator actual expected = true := by
  rcases h with rfl | rfl | rfl
  · exact ⟨expected, equal_self expected⟩
  · cases expected with
    | none => exact ⟨some .null, rfl⟩
    | some value => exact ⟨none, rfl⟩
  · exact ⟨some .null, rfl⟩

/-- A variable can be given any value, or none, and the others be left alone. -/
theorem exists_store (hstore : Assoc.Ascending store) (subject : String)
    (actual : Option Json.Value) : ∃ live, Assoc.Ascending live ∧
      Assoc.get? subject live = actual ∧
      ∀ key, key ≠ subject → Assoc.get? key live = Assoc.get? key store := by
  cases actual with
  | none =>
    refine ⟨Assoc.erase subject store, hstore.erase, ?_, fun key hkey => ?_⟩
    · rw [Assoc.get?_erase, if_pos rfl]
    · rw [Assoc.get?_erase, if_neg (Ne.symm hkey)]
  | some value =>
    refine ⟨Assoc.insert subject value store, hstore.insert, ?_, fun key hkey => ?_⟩
    · rw [Assoc.get?_insert, if_pos rfl]
    · rw [Assoc.get?_insert, if_neg (Ne.symm hkey)]

/-- A condition that makes sense holds for some value of its variable, if its operator is
attainable. -/
theorem Sensible.exists_holds (h : Sensible arguments subject operator)
    (hattainable : operator.Attainable) (hstore : Assoc.Ascending store) :
    ∃ live, Assoc.Ascending live ∧
      (∀ key, key ≠ subject → Assoc.get? key live = Assoc.get? key store) ∧
      Condition.holds arguments live = true := by
  obtain ⟨actual, hactual⟩ := hattainable.exists_operand (Assoc.get? "value" arguments)
  obtain ⟨live, hlive, hget, hothers⟩ := exists_store hstore subject actual
  refine ⟨live, hlive, hothers, ?_⟩
  rw [h.holds, hget, hactual]

end Condition

/-! ### The warnings -/

/-- Whether a defect says that a condition never holds. -/
def Defect.saysDead : Defect → Bool
  | .conditionWithoutVariable | .conditionWithoutOperator | .operatorUnknown _ => true
  | _ => false

theorem Defect.concern_of_saysDead {defect : Defect} (h : defect.saysDead = true) :
    defect.concern = .work := by
  cases defect <;> first | rfl | cases h

/-- The warnings that the condition of a step never holds. -/
def Step.deadFindings (s : Step) : List Finding :=
  (s.work.defects.filter Defect.saysDead).map (⟨some s.id, ·⟩)

/-- A condition is not warned about exactly if its arguments make sense. -/
theorem Step.deadFindings_eq_nil_iff {s : Step} {choice : Choice}
    (hwork : s.work = .condition choice) : s.deadFindings = [] ↔
      ∃ subject operator, Condition.Sensible choice.arguments subject operator := by
  have htargets : (if choice.onSuccess.isNone && choice.onFailure.isNone then
      [Defect.conditionWithoutTarget] else []).filter Defect.saysDead = [] := by
    split <;> rfl
  unfold deadFindings Condition.Sensible
  rw [hwork, List.map_eq_nil_iff, Work.defects, List.filter_append, htargets, List.append_nil,
    List.filter_append, List.append_eq_nil_iff, Condition.bind_ofName_operand]
  rw [← exists_and_exists_comm]
  refine and_congr ?_ ?_
  · cases Condition.operand? choice.arguments "variable" with
    | none => simp [Defect.saysDead]
    | some subject => simp
  · cases (Assoc.get? "operator" choice.arguments).bind Json.Value.string? with
    | none => simp [Defect.saysDead]
    | some name =>
      cases hname : Condition.Operator.ofName? name with
      | none => simp [Defect.saysDead, hname]
      | some operator => simp [hname]

namespace Definition

variable {d : Definition} {s : Step}

/-- The warnings that conditions never hold are those of the steps. -/
theorem filter_saysDead (d : Definition) :
    d.check.filter (·.defect.saysDead) = d.steps.flatMap Step.deadFindings := by
  have hconcern : d.check.filter (·.defect.saysDead) =
      (d.check.filter (·.defect.concern = .work)).filter (·.defect.saysDead) := by
    rw [List.filter_filter]
    refine List.filter_congr fun f _ => ?_
    cases hdead : f.defect.saysDead with
    | false => rfl
    | true => simp [Defect.concern_of_saysDead hdead]
  rw [hconcern, filter_check]
  show d.workFindings.filter (·.defect.saysDead) = _
  rw [workFindings, List.filter_flatMap]
  simp only [List.filter_map]
  rfl

/-- Where no two steps share their id, the warnings with the id of a step are its own. -/
theorem filter_stepId (hids : d.ids.Nodup) (hs : s ∈ d.steps) :
    (d.steps.flatMap Step.deadFindings).filter (·.stepId = some s.id) = s.deadFindings := by
  obtain ⟨before, after, hsteps⟩ := List.append_of_mem hs
  have hkeep : ∀ t : Step, t.deadFindings.filter (·.stepId = some s.id) =
      if t.id = s.id then t.deadFindings else [] := by
    intro t
    unfold Step.deadFindings
    rw [List.filter_map]
    split <;> simp [Function.comp_def, *]
  have hother : ∀ steps : List Step, (∀ t ∈ steps, t.id ≠ s.id) →
      (steps.flatMap fun t => if t.id = s.id then t.deadFindings else []) = [] := by
    intro steps hsteps
    exact List.flatMap_eq_nil_iff.2 fun t ht => if_neg (hsteps t ht)
  rw [ids, hsteps, List.map_append, List.map_cons, List.nodup_middle, List.nodup_cons,
    List.mem_append, not_or] at hids
  rw [hsteps, List.filter_flatMap]
  simp only [hkeep]
  rw [List.flatMap_append, List.flatMap_cons, hother before, hother after, if_pos rfl]
  · simp
  · intro t ht heq
    exact hids.1.2 (List.mem_map.2 ⟨t, ht, heq⟩)
  · intro t ht heq
    exact hids.1.1 (List.mem_map.2 ⟨t, ht, heq⟩)

/-- **A check and a run agree on which conditions never hold.** The warnings about that are those of
the steps, one after the other, and if ids are distinct, those with the id of a step are its own.
A condition with such a warning does not hold in any state. One without has a variable and an
operator; if it compares by `equals`, `notEquals` or `exists`, then a change of the variable takes
any state to one in which the condition holds. -/
theorem dead_conditions (d : Definition) :
    d.check.filter (·.defect.saysDead) = d.steps.flatMap Step.deadFindings ∧
      ∀ s ∈ d.steps, ∀ choice, s.work = .condition choice →
        (d.ids.Nodup → (d.check.filter (·.defect.saysDead)).filter (·.stepId = some s.id) =
          s.deadFindings) ∧
        (s.deadFindings ≠ [] → ∀ store, Condition.holds choice.arguments store = false) ∧
        (s.deadFindings = [] → ∃ subject operator,
          Condition.operand? choice.arguments "variable" = some subject ∧
          (Condition.operand? choice.arguments "operator").bind Condition.Operator.ofName? =
            some operator ∧
          (operator = .equals ∨ operator = .notEquals ∨ operator = .exists →
            ∀ store, Assoc.Ascending store → ∃ live, Assoc.Ascending live ∧
              (∀ key, key ≠ subject → Assoc.get? key live = Assoc.get? key store) ∧
              Condition.holds choice.arguments live = true)) := by
  refine ⟨filter_saysDead d, fun s hs choice hwork => ⟨fun hids => ?_, fun hdead => ?_, ?_⟩⟩
  · rw [filter_saysDead, filter_stepId hids hs]
  · exact Condition.holds_of_not_sensible (mt (Step.deadFindings_eq_nil_iff hwork).2 hdead)
  · intro halive
    obtain ⟨subject, operator, hsensible⟩ := (Step.deadFindings_eq_nil_iff hwork).1 halive
    exact ⟨subject, operator, hsensible.1, hsensible.2, fun hattainable store hstore =>
      hsensible.exists_holds hattainable hstore⟩

/-- A choice by some operands. -/
def gate (arguments : Arguments) : Choice := { arguments, onSuccess := some "done" }

/-- The operands of a gate with an operator that is not known. -/
def oddly : Arguments := [("variable", .string "mood"), ("operator", .string "resembles")]

/-- The operands of a gate that is open if there is no mood. -/
def moodless : Arguments := [("variable", .string "mood"), ("operator", .string "equals")]

/-- A workflow with a gate that is never open and one that can be. -/
def gates : Definition where
  name := "gates"
  root := "odd"
  steps :=
    [ { id := "odd", work := .condition (gate oddly) },
      { id := "plain", work := .condition (gate moodless) },
      { id := "done", work := .activity { activity := "log" } } ]

/-- The check tells them apart. -/
theorem dead_conditions_gates :
    gates.ids.Nodup ∧
      (gates.check.filter (·.defect.saysDead)).filter (·.stepId = some "odd") =
        [⟨some "odd", .operatorUnknown "resembles"⟩] ∧
      (gates.check.filter (·.defect.saysDead)).filter (·.stepId = some "plain") = [] ∧
      (∀ store, Condition.holds oddly store = false) ∧
      ∃ live, Assoc.Ascending live ∧ Condition.holds moodless live = true := by
  have hids : gates.ids.Nodup := by decide
  obtain ⟨-, hsteps⟩ := dead_conditions gates
  obtain ⟨hodd, hdead, -⟩ := hsteps { id := "odd", work := .condition (gate oddly) }
    List.mem_cons_self (gate oddly) rfl
  obtain ⟨hplain, -, hlive⟩ := hsteps { id := "plain", work := .condition (gate moodless) }
    (List.mem_cons_of_mem _ List.mem_cons_self) (gate moodless) rfl
  refine ⟨hids, hodd hids, hplain hids, hdead (by decide), ?_⟩
  obtain ⟨subject, operator, -, hoperator, hholds⟩ := hlive rfl
  have hequals : operator = .equals := (Option.some.inj hoperator).symm
  obtain ⟨live, hascending, -, hopen⟩ := hholds (Or.inl hequals) [] List.Pairwise.nil
  exact ⟨live, hascending, hopen⟩

end Definition

end Flowgraph

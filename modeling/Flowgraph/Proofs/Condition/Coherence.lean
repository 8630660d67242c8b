import Flowgraph.Proofs.Definition.DeadConditions

/-!
# The operators of conditions belong together

Equality and order are decided apart from each other: values are equal by their structure, except
that numbers are equal by their binary value, and only two numbers or two texts have an order
(`Comparable`). The five operators still agree on what the operands are (`coherent`): for comparable
operands **exactly one** of `equals`, `greaterThan` and `lessThan` holds, for others neither order
holds, `notEquals` is the negation of `equals`, whatever is in order with something exists, and
**exchanging the operands** exchanges the two orders and keeps equality. The last needs that
equality is symmetric all the way down (`Value.same_comm`), the first that the line of numbers and
the order of texts are total.
-/

set_option autoImplicit false

namespace Flowgraph

/-! ### Equality is symmetric -/

theorem Binary64.same_comm (x y : Binary64) : x.same y = y.same x :=
  Bool.eq_iff_iff.2 (by rw [same_iff, same_iff, eq_comm])

namespace Json

theorem Number.same_comm (m n : Number) : m.same n = n.same m := by
  cases m with
  | integer a => cases n with
    | integer b => exact BEq.comm
    | float y => rfl
  | float x => cases n with
    | integer b => rfl
    | float y => exact Binary64.same_comm x y

namespace Value

mutual

/-- It does not matter which of two values is compared with the other. -/
theorem same_comm : ∀ a b : Value, a.same b = b.same a
  | .null, b => by cases b <;> simp only [same]
  | .bool a, b => by cases b <;> simp only [same, BEq.comm]
  | .number m, b => by cases b <;> simp only [same, Number.same_comm]
  | .string s, b => by cases b <;> simp only [same, BEq.comm]
  | .array items, b => by
    cases b with
    | array others => simp only [same, sameItems_comm items others]
    | _ => simp only [same]
  | .object members, b => by
    cases b with
    | object others => simp only [same, sameMembers_comm members others]
    | _ => simp only [same]

theorem sameItems_comm : ∀ as bs : List Value, sameItems as bs = sameItems bs as
  | [], [] => rfl
  | [], _ :: _ => by simp only [sameItems]
  | _ :: _, [] => by simp only [sameItems]
  | a :: as, b :: bs => by simp only [sameItems, same_comm a b, sameItems_comm as bs]

theorem sameMembers_comm :
    ∀ as bs : List (String × Value), sameMembers as bs = sameMembers bs as
  | [], [] => rfl
  | [], _ :: _ => by simp only [sameMembers]
  | _ :: _, [] => by simp only [sameMembers]
  | (j, a) :: as, (k, b) :: bs => by
    simp only [sameMembers, same_comm a b, sameMembers_comm as bs, BEq.comm (a := j)]

end

end Value

end Json

namespace Condition

variable {actual expected : Option Json.Value}

/-- Equality of operands is symmetric, absent ones included. -/
theorem equal_comm (actual expected : Option Json.Value) :
    equal actual expected = equal expected actual := by
  cases actual with
  | none =>
    cases expected with
    | none => rfl
    | some b => cases b <;> rfl
  | some a =>
    cases expected with
    | none => cases a <;> rfl
    | some b =>
      cases a with
      | number m =>
        cases b with
        | number n => exact Binary64.same_comm m.toBinary64 n.toBinary64
        | _ => exact Json.Value.same_comm _ _
      | _ => cases b <;> exact Json.Value.same_comm _ _

/-! ### Operands that have an order -/

/-- Two operands are comparable if they are two numbers or two texts. -/
def Comparable : Option Json.Value → Option Json.Value → Prop
  | some (.number _), some (.number _) => True
  | some (.string _), some (.string _) => True
  | _, _ => False

theorem Comparable.cases (h : Comparable actual expected) :
    (∃ m n, actual = some (.number m) ∧ expected = some (.number n)) ∨
      ∃ s t, actual = some (.string s) ∧ expected = some (.string t) := by
  unfold Comparable at h
  split at h
  · exact Or.inl ⟨_, _, rfl, rfl⟩
  · exact Or.inr ⟨_, _, rfl, rfl⟩
  · cases h

theorem Comparable.symm (h : Comparable actual expected) : Comparable expected actual := by
  rcases h.cases with ⟨m, n, rfl, rfl⟩ | ⟨s, t, rfl, rfl⟩ <;> trivial

/-- Neither of two comparable operands is absent. -/
theorem Comparable.isSome (h : Comparable actual expected) : actual.isSome = true := by
  rcases h.cases with ⟨m, n, rfl, -⟩ | ⟨s, t, rfl, -⟩ <;> rfl

/-- Only comparable operands have an order. -/
theorem comparable_of_less (h : less actual expected = true) : Comparable actual expected := by
  unfold less at h
  split at h
  · trivial
  · trivial
  · cases h

/-- The order is that of the numbers, or that of the texts. -/
theorem less_cases (h : less actual expected = true) :
    (∃ m n : Json.Number, actual = some (.number m) ∧ expected = some (.number n) ∧
      m.toBinary64.lt n.toBinary64 = true) ∨
      ∃ s t, actual = some (.string s) ∧ expected = some (.string t) ∧ s < t := by
  rcases (comparable_of_less h).cases with ⟨m, n, rfl, rfl⟩ | ⟨s, t, rfl, rfl⟩
  · exact Or.inl ⟨m, n, rfl, rfl, h⟩
  · exact Or.inr ⟨s, t, rfl, rfl, of_decide_eq_true h⟩

theorem less_of_not_comparable (h : ¬ Comparable actual expected) : less actual expected = false :=
  Bool.eq_false_iff.2 (mt comparable_of_less h)

/-- An operand that is equal to a value is a value. -/
theorem isSome_of_equal (h : equal actual expected = true) (hexpected : expected.isSome = true) :
    actual.isSome = true := by
  cases actual with
  | some a => rfl
  | none =>
    obtain ⟨value, rfl⟩ := Option.isSome_iff_exists.1 hexpected
    cases value <;> cases h

/-- Numbers and texts are on a line: of two operands one is less, or they are equal. -/
theorem Comparable.total (h : Comparable actual expected) :
    less actual expected = true ∨ equal actual expected = true ∨ less expected actual = true := by
  rcases h.cases with ⟨m, n, rfl, rfl⟩ | ⟨s, t, rfl, rfl⟩
  · show m.toBinary64.lt _ = true ∨ m.toBinary64.same _ = true ∨ n.toBinary64.lt _ = true
    simp only [Binary64.lt_iff, Binary64.same_iff]
    exact Int.lt_trichotomy ..
  · show decide (s < t) = true ∨ Json.Value.same (.string s) (.string t) = true ∨
      decide (t < s) = true
    simp only [Json.Value.same, decide_eq_true_eq, beq_iff_eq]
    by_cases hless : s < t
    · exact Or.inl hless
    · by_cases hgreater : t < s
      · exact Or.inr (Or.inr hgreater)
      · exact Or.inr (Or.inl (String.le_antisymm (String.not_lt.1 hgreater) (String.not_lt.1 hless)))

/-- What is less than another operand is not equal to it, -/
theorem not_equal_of_less (h : less actual expected = true) : equal actual expected = false := by
  rcases less_cases h with ⟨m, n, rfl, rfl, hless⟩ | ⟨s, t, rfl, rfl, hless⟩
  · rw [Binary64.lt_iff] at hless
    show m.toBinary64.same n.toBinary64 = false
    rw [Bool.eq_false_iff, ne_eq, Binary64.same_iff]
    exact Int.ne_of_lt hless
  · show Json.Value.same (.string s) (.string t) = false
    simp only [Json.Value.same, beq_eq_false_iff_ne]
    exact String.ne_of_lt hless

/-- and not greater. -/
theorem not_less_of_less (h : less actual expected = true) : less expected actual = false := by
  rcases less_cases h with ⟨m, n, rfl, rfl, hless⟩ | ⟨s, t, rfl, rfl, hless⟩
  · rw [Binary64.lt_iff] at hless
    show n.toBinary64.lt m.toBinary64 = false
    rw [Bool.eq_false_iff, ne_eq, Binary64.lt_iff]
    exact Int.lt_asymm hless
  · exact decide_eq_false (String.lt_asymm hless)

/-! ### What the operators make of two operands -/

/-- No two of equality and the two orders hold at once. -/
theorem countP_compare_le (actual expected : Option Json.Value) :
    [Operator.equals, .greaterThan, .lessThan].countP (compare · actual expected) ≤ 1 := by
  simp only [List.countP_cons, List.countP_nil, compare]
  cases hless : less actual expected with
  | true => simp [not_equal_of_less hless, not_less_of_less hless]
  | false =>
    cases hgreater : less expected actual with
    | true =>
      have hequal := not_equal_of_less hgreater
      rw [equal_comm] at hequal
      simp [hequal]
    | false => cases equal actual expected <;> simp

/-- Of comparable operands one of them holds. -/
theorem Comparable.countP_compare (h : Comparable actual expected) :
    [Operator.equals, .greaterThan, .lessThan].countP (compare · actual expected) = 1 := by
  refine Nat.le_antisymm (countP_compare_le actual expected) (List.countP_pos_iff.2 ?_)
  rcases h.total with hless | hequal | hgreater
  · exact ⟨.lessThan, by decide, hless⟩
  · exact ⟨.equals, by decide, hequal⟩
  · exact ⟨.greaterThan, by decide, hgreater⟩

/-- The operator that says the same of the operands in the other order. -/
def Operator.converse : Operator → Operator
  | .greaterThan => .lessThan
  | .lessThan => .greaterThan
  | operator => operator

theorem compare_converse {operator : Operator} (h : operator ≠ .exists)
    (actual expected : Option Json.Value) :
    compare operator.converse expected actual = compare operator actual expected := by
  cases operator with
  | equals => exact equal_comm expected actual
  | notEquals => exact congrArg (!·) (equal_comm expected actual)
  | greaterThan => rfl
  | lessThan => rfl
  | «exists» => exact absurd rfl h

/-! ### What conditions answer -/

/-- Arguments by which a condition compares a variable with a value, or with none. -/
structure Asks (arguments : Arguments) (operator : Operator) (subject : String)
    (expected : Option Json.Value) : Prop where
  /-- The variable has a name. -/
  named : subject ≠ ""
  subject : Assoc.get? "variable" arguments = some (.string subject)
  operator : Assoc.get? "operator" arguments = some (.string operator.name)
  value : Assoc.get? "value" arguments = expected

theorem Operator.ofName?_name (operator : Operator) : ofName? operator.name = some operator := by
  cases operator <;> rfl

variable {arguments : Arguments} {operator : Operator} {subject : String}

theorem Asks.sensible (h : Asks arguments operator subject expected) :
    Sensible arguments subject operator := by
  refine ⟨?_, ?_⟩
  · rw [operand?, h.subject, Option.bind_some, Json.Value.string?, Option.filter_some,
      if_pos (decide_eq_true h.named)]
  · rw [bind_ofName_operand, h.operator]
    exact operator.ofName?_name

/-- Such a condition is the comparison of the two operands. -/
theorem Asks.holds (h : Asks arguments operator subject expected) (store : Store) :
    Condition.holds arguments store = compare operator (Assoc.get? subject store) expected := by
  rw [h.sensible.holds, h.value]

/-- **The operators belong together.** Take conditions with each of the operators that compare one
variable with one value, or with none. `notEquals` holds when `equals` does not. At most one of
`equals`, `greaterThan` and `lessThan` holds; it is exactly one if the variable and the value are
two numbers or two texts, and in all other cases neither order holds. A variable that is greater or
less than the value exists, and so does one that equals a value. Conditions with the operands
exchanged have the orders exchanged and the equality kept. -/
theorem coherent {ask : Operator → Arguments}
    (hask : ∀ operator, Asks (ask operator) operator subject expected) (store : Store) :
    let actual := Assoc.get? subject store
    let answer := fun operator => holds (ask operator) store
    (answer .notEquals = !answer .equals) ∧
      [Operator.equals, .greaterThan, .lessThan].countP answer ≤ 1 ∧
      (Comparable actual expected →
        [Operator.equals, .greaterThan, .lessThan].countP answer = 1) ∧
      (¬ Comparable actual expected →
        answer .greaterThan = false ∧ answer .lessThan = false) ∧
      (answer .greaterThan = true ∨ answer .lessThan = true ∨
        answer .equals = true ∧ expected.isSome = true → answer .exists = true) ∧
      ∀ (ask' : Operator → Arguments) (subject' : String) (store' : Store),
        (∀ operator, Asks (ask' operator) operator subject' actual) →
        Assoc.get? subject' store' = expected →
        holds (ask' .greaterThan) store' = answer .lessThan ∧
          holds (ask' .lessThan) store' = answer .greaterThan ∧
          holds (ask' .equals) store' = answer .equals := by
  intro actual answer
  have hanswer : answer = fun operator => compare operator actual expected :=
    funext fun operator => (hask operator).holds store
  rw [hanswer]
  refine ⟨rfl, countP_compare_le actual expected, Comparable.countP_compare,
    fun h => ⟨?_, ?_⟩, ?_, ?_⟩
  · exact less_of_not_comparable (mt Comparable.symm h)
  · exact less_of_not_comparable h
  · rintro (hgreater | hless | ⟨hequal, hexpected⟩)
    · exact (comparable_of_less hgreater).symm.isSome
    · exact (comparable_of_less hless).isSome
    · exact isSome_of_equal hequal hexpected
  · intro ask' subject' store' hask' hexpected
    have hexchange : ∀ operator, operator ≠ .exists →
        holds (ask' operator.converse) store' = compare operator actual expected := by
      intro operator hoperator
      rw [(hask' operator.converse).holds store', hexpected, compare_converse hoperator]
    exact ⟨hexchange .lessThan nofun, hexchange .greaterThan nofun, hexchange .equals nofun⟩

/-- The arguments that compare a variable with a value or with none, and no others. -/
def question (subject : String) (expected : Option Json.Value) (operator : Operator) : Arguments :=
  [("variable", .string subject), ("operator", .string operator.name)] ++
    (expected.map fun value => ("value", value)).toList

theorem asks_question (hnamed : subject ≠ "") (expected : Option Json.Value)
    (operator : Operator) :
    Asks (question subject expected operator) operator subject expected where
  named := hnamed
  subject := rfl
  operator := rfl
  value := by cases expected <;> rfl

/-- The float 7.5. -/
def sevenAndAHalf : Json.Value := .number (.float ⟨false, 0x401E000000000000, by decide⟩)

/-- An integer is compared with a float that is greater, and then the other way round. -/
theorem coherent_mixed :
    (∀ operator, Asks (question "rate" (some sevenAndAHalf) operator) operator "rate"
      (some sevenAndAHalf)) ∧
      [Operator.equals, .greaterThan, .lessThan].countP (fun operator =>
        holds (question "rate" (some sevenAndAHalf) operator) [("rate", .ofInt 7)]) = 1 ∧
      holds (question "rate" (some sevenAndAHalf) .lessThan) [("rate", .ofInt 7)] = true ∧
      holds (question "limit" (some (.ofInt 7)) .greaterThan) [("limit", sevenAndAHalf)] = true := by
  have hask : ∀ operator, Asks (question "rate" (some sevenAndAHalf) operator) operator "rate"
      (some sevenAndAHalf) := asks_question (by decide) _
  have hask' : ∀ operator, Asks (question "limit" (some (.ofInt 7)) operator) operator "limit"
      (some (.ofInt 7)) := asks_question (by decide) _
  obtain ⟨-, -, hone, -, -, hexchange⟩ := coherent hask [("rate", .ofInt 7)]
  have hless : holds (question "rate" (some sevenAndAHalf) .lessThan) [("rate", .ofInt 7)] =
      true := by decide +kernel
  refine ⟨hask, hone trivial, hless, ?_⟩
  rw [(hexchange _ "limit" [("limit", sevenAndAHalf)] hask' rfl).1]
  exact hless

end Condition

end Flowgraph

import Flowgraph.Proofs.Binary64.Integers
import Flowgraph.Proofs.Condition.Coherence

/-!
# Conditions on integers

A condition compares integers as binary numbers, so what it compares are the integers rounded to 53
binary digits (`integers_compare`). It **never says the wrong order**, and it says what the integers
themselves are like if both have 53 digits or if they are further apart than `2 ^ 11`. Others can be
taken for equal: `2 ^ 53` and the integer after it are (`integers_confused`).
-/

set_option autoImplicit false

namespace Flowgraph

namespace Json.Number

variable {a b : Int} {ha : leastInteger ≤ a ∧ a ≤ greatestInteger}
  {hb : leastInteger ≤ b ∧ b ≤ greatestInteger}

theorem natAbs_lt (h : leastInteger ≤ a ∧ a ≤ greatestInteger) :
    a.natAbs < 18446744073709551616 := by
  unfold leastInteger greatestInteger at h
  omega

theorem signedUnits_integer (ha : leastInteger ≤ a ∧ a ≤ greatestInteger) :
    (integer a ha).toBinary64.signedUnits = Binary64.roundedInt a * Binary64.unitsPerOne := by
  obtain ⟨x, hx⟩ := Option.isSome_iff_exists.1 (Binary64.ofInt?_isSome (natAbs_lt ha))
  show ((Binary64.ofInt? a).getD .zero).signedUnits = _
  rw [hx]
  exact Binary64.signedUnits_of_ofInt? hx

/-- Integers are in the order of the rounded ones, -/
theorem integer_lt_iff : (integer a ha).toBinary64.lt (integer b hb).toBinary64 = true ↔
    Binary64.roundedInt a < Binary64.roundedInt b := by
  rw [Binary64.lt_iff, Binary64.key_lt_iff, signedUnits_integer, signedUnits_integer]
  exact Int.mul_lt_mul_right (Int.natCast_pos.2 Binary64.unitsPerOne_pos)

/-- and equal if the rounded ones are. -/
theorem integer_same_iff : (integer a ha).toBinary64.same (integer b hb).toBinary64 = true ↔
    Binary64.roundedInt a = Binary64.roundedInt b := by
  rw [Binary64.same_iff, Binary64.key_eq_iff, signedUnits_integer, signedUnits_integer]
  exact Int.mul_eq_mul_right_iff (Int.ne_of_gt (Int.natCast_pos.2 Binary64.unitsPerOne_pos))

end Json.Number

namespace Condition

open Binary64 Json

/-- **Integers are compared as they are rounded.** A condition on an integer and another one says
how they compare after both have been rounded to 53 binary digits. So an integer equals itself, and
of different integers none is taken for the greater one that is not. If both have 53 digits, or if
they differ by more than `2 ^ 11`, the condition says how the integers themselves compare. -/
theorem integers_compare {a b : Int} (ha : leastInteger ≤ a ∧ a ≤ greatestInteger)
    (hb : leastInteger ≤ b ∧ b ≤ greatestInteger) {subject : String} {store : Store}
    (hstore : Assoc.get? subject store = some (.number (.integer a ha)))
    {ask : Operator → Arguments}
    (hask : ∀ operator, Asks (ask operator) operator subject (some (.number (.integer b hb)))) :
    let answer := fun operator => holds (ask operator) store
    ((answer .equals = true ↔ roundedInt a = roundedInt b) ∧
      (answer .greaterThan = true ↔ roundedInt b < roundedInt a) ∧
      (answer .lessThan = true ↔ roundedInt a < roundedInt b)) ∧
    ((a = b → answer .equals = true) ∧ (answer .greaterThan = true → b < a) ∧
      (answer .lessThan = true → a < b)) ∧
    (a.natAbs ≤ 2 ^ 53 ∧ b.natAbs ≤ 2 ^ 53 ∨ 2 ^ 11 < (a - b).natAbs →
      (answer .equals = true ↔ a = b) ∧ (answer .greaterThan = true ↔ b < a) ∧
        (answer .lessThan = true ↔ a < b)) := by
  intro answer
  have hanswer (operator : Operator) : answer operator =
      compare operator (some (.number (.integer a ha))) (some (.number (.integer b hb))) := by
    rw [← hstore]
    exact (hask operator).holds store
  have hequals : answer .equals = true ↔ roundedInt a = roundedInt b := by
    rw [hanswer]
    exact Number.integer_same_iff
  have hgreater : answer .greaterThan = true ↔ roundedInt b < roundedInt a := by
    rw [hanswer]
    exact Number.integer_lt_iff
  have hless : answer .lessThan = true ↔ roundedInt a < roundedInt b := by
    rw [hanswer]
    exact Number.integer_lt_iff
  have hmono := @roundedInt_mono
  refine ⟨⟨hequals, hgreater, hless⟩, ?_, fun hapart => ?_⟩
  · rw [hequals, hgreater, hless]
    refine ⟨congrArg roundedInt, fun h => ?_, fun h => ?_⟩
    · exact Int.not_le.1 fun hle => Int.not_le.2 h (hmono hle)
    · exact Int.not_le.1 fun hle => Int.not_le.2 h (hmono hle)
  · have habound := Number.natAbs_lt ha
    have hbbound := Number.natAbs_lt hb
    rw [hequals, hgreater, hless]
    rcases Int.lt_trichotomy a b with hlt | rfl | hgt
    · have hrounded := roundedInt_lt hlt (by omega)
      omega
    · omega
    · have hrounded := roundedInt_lt hgt (by omega)
      omega

/-- The least and the greatest integer are told apart. -/
theorem integers_compare_extremes :
    holds (question "count" (some (.ofInt 18446744073709551615)) .lessThan)
      [("count", .ofInt (-9223372036854775808))] = true := by
  have hleast : leastInteger ≤ -9223372036854775808 ∧ -9223372036854775808 ≤ greatestInteger := by
    decide
  have hgreatest : leastInteger ≤ 18446744073709551615 ∧
      18446744073709551615 ≤ greatestInteger := by
    decide
  have hstore : Assoc.get? "count" [("count", Json.Value.ofInt (-9223372036854775808))] =
      some (.number (.integer (-9223372036854775808) hleast)) := rfl
  obtain ⟨-, -, hexact⟩ := integers_compare hleast hgreatest hstore
    (asks_question (by decide) (some (.ofInt 18446744073709551615)))
  exact (hexact (Or.inr (by decide))).2.2.2 (by decide)

/-- Two integers that differ are taken for equal, and the greater one not for greater. As items of
arrays they are told apart. -/
theorem integers_confused :
    (9007199254740993 : Int) ≠ 9007199254740992 ∧
      holds (question "count" (some (.ofInt 9007199254740992)) .equals)
        [("count", .ofInt 9007199254740993)] = true ∧
      holds (question "count" (some (.ofInt 9007199254740992)) .greaterThan)
        [("count", .ofInt 9007199254740993)] = false ∧
      holds (question "counts" (some (.array [.ofInt 9007199254740992])) .equals)
        [("counts", .array [.ofInt 9007199254740993])] = false := by
  decide +kernel

end Condition

end Flowgraph

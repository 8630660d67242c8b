import Flowgraph.Binary64.Rounding

/-!
# Decimal numbers

`Decimal` is a coefficient times a power of ten, as digits on paper mean it. `nearest?` is
the binary number nearest to such a value.
-/

set_option autoImplicit false

namespace Flowgraph

/-- The number `coefficient * 10 ^ exponent`. -/
structure Decimal where
  coefficient : Nat
  exponent : Int
  deriving DecidableEq, Repr

namespace Decimal

/-- How many decimal digits a natural number has; none for zero. -/
def digitCount (n : Nat) : Nat :=
  if h : n = 0 then 0 else digitCount (n / 10) + 1
termination_by n
decreasing_by exact Nat.div_lt_self (Nat.pos_of_ne_zero h) (by decide)

/-- The value of one digit character. -/
def digitValue (c : Char) : Nat := c.toNat - '0'.toNat

/-- The natural number that a list of digit characters stands for. -/
def ofDigits (digits : List Char) : Nat :=
  digits.foldl (fun n c => 10 * n + digitValue c) 0

/-- A leading sign and the rest; no sign means positive. -/
def splitSign : List Char → Bool × List Char
  | '-' :: rest => (true, rest)
  | '+' :: rest => (false, rest)
  | text => (false, text)

/-- Moves up to `count` zeros from the end of the coefficient into the exponent. -/
def strip : Nat → Decimal → Decimal
  | 0, d => d
  | count + 1, d =>
    if d.coefficient ≠ 0 ∧ d.coefficient % 10 = 0 then
      strip count ⟨d.coefficient / 10, d.exponent + 1⟩
    else d

/-- The binary number nearest to a decimal one with the given sign, or `none` if that is
infinite. Powers of ten far outside the range are not computed. -/
def nearest? (negative : Bool) (d : Decimal) : Option Binary64 :=
  let top := d.exponent + digitCount d.coefficient
  if d.coefficient = 0 ∨ top < -400 then Binary64.ofMagnitude? negative 0
  else if 400 < top then none
  else if 0 ≤ d.exponent then
    Binary64.ofRatio negative (d.coefficient * Nat.pow 10 d.exponent.toNat) 1
  else Binary64.ofRatio negative d.coefficient (Nat.pow 10 (-d.exponent).toNat)

end Decimal

end Flowgraph

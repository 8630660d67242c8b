import Flowgraph.Binary64.Basic

/-!
# Rounding to the nearest number

`ofRatio` is the one place where a value is rounded: it takes the number nearest to a
ratio of natural numbers, the even significand on a tie. The product and the quotient of
two numbers and the number for an integer are the nearest numbers to the exact results.
-/

set_option autoImplicit false

namespace Flowgraph.Binary64

/-- The natural number nearest to `num / den`, the even one on a tie. -/
def roundDiv (num den : Nat) : Nat :=
  let quotient := num / den
  let twice := 2 * (num % den)
  if twice < den then quotient
  else if twice = den then quotient + quotient % 2
  else quotient + 1

/-- The number nearest to `num / den`, or `none` if that is infinite.

The ratio is scaled to units; numbers whose unit count has more than 53 binary digits are
rounded to a multiple of `2 ^ shift`. A significand that rounds up to `2 ^ 53` carries into
the exponent by the addition. -/
def ofRatio (negative : Bool) (num den : Nat) : Option Binary64 :=
  let scaled := num * unitsPerOne
  let shift := Nat.log2 (scaled / den) - 52
  ofMagnitude? negative (shift * fractionSize + roundDiv scaled (den * Nat.pow 2 shift))

/-- The number nearest to an integer, or `none` if it lies beyond the finite numbers. -/
def ofInt? (n : Int) : Option Binary64 := ofRatio (n < 0) n.natAbs 1

/-- The product, rounded to nearest. -/
def mul (x y : Binary64) : Option Binary64 :=
  ofRatio (x.negative != y.negative) (x.units * y.units) (unitsPerOne * unitsPerOne)

/-- The quotient, rounded to nearest; the divisor is not zero. -/
def div (x y : Binary64) : Option Binary64 :=
  ofRatio (x.negative != y.negative) x.units y.units

theorem roundDiv_one (n : Nat) : roundDiv n 1 = n := by
  simp [roundDiv, Nat.mod_one]

end Flowgraph.Binary64

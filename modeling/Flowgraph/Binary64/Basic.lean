/-!
# Finite binary floating-point numbers of 64 bits

A number is kept as its sign and its *magnitude*: the exponent and fraction fields read as
one natural number. Larger magnitudes are larger numbers, so comparing two numbers is
comparing two integers (`key`), and no floating-point operation of the machine is involved.
The infinities and the not-a-numbers are left out by the bound in the type; an operation
whose result would be infinite returns `none`.

`units` gives the exact value: the number of least positive numbers (`2 ^ -1074`) that the
absolute value consists of.
-/

set_option autoImplicit false

namespace Flowgraph

/-- The number of magnitudes that share one exponent. -/
def fractionSize : Nat := Nat.pow 2 52

/-- The least magnitude that is no finite number. -/
def magnitudeLimit : Nat := 2047 * Nat.pow 2 52

/-- A finite number: sign and magnitude. Zero occurs with both signs. -/
structure Binary64 where
  negative : Bool
  magnitude : Nat
  finite : magnitude < magnitudeLimit
  deriving DecidableEq

namespace Binary64

/-- The positive zero. -/
def zero : Binary64 := ⟨false, 0, by decide⟩

instance : Inhabited Binary64 := ⟨zero⟩

/-- The number with this sign and magnitude, if the magnitude is that of a finite number. -/
def ofMagnitude? (negative : Bool) (magnitude : Nat) : Option Binary64 :=
  if h : magnitude < magnitudeLimit then some ⟨negative, magnitude, h⟩ else none

/-- The position of a number on the line of all numbers, both zeros at `0`. -/
def key (x : Binary64) : Int :=
  if x.negative then -(x.magnitude : Int) else x.magnitude

/-- The same number with the other sign. -/
def neg (x : Binary64) : Binary64 := { x with negative := !x.negative }

/-- Equality of values: the two zeros are equal. -/
def same (x y : Binary64) : Bool := x.key == y.key

/-- The order of values. -/
def lt (x y : Binary64) : Bool := decide (x.key < y.key)

/-- The exponent field, with the subnormal numbers counted to the least normal exponent. -/
def scale (x : Binary64) : Nat := x.magnitude / fractionSize - 1

/-- The integer significand: fraction with the leading bit that normal numbers leave out. -/
def significand (x : Binary64) : Nat :=
  if x.magnitude < fractionSize then x.magnitude
  else fractionSize + x.magnitude % fractionSize

/-- The absolute value as a multiple of `2 ^ -1074`. -/
def units (x : Binary64) : Nat := x.significand * Nat.pow 2 x.scale

/-- How many units make up the number one. -/
def unitsPerOne : Nat := Nat.pow 2 1074

theorem same_iff {x y : Binary64} : x.same y = true ↔ x.key = y.key := by
  simp [same]

theorem lt_iff {x y : Binary64} : x.lt y = true ↔ x.key < y.key := by
  simp [lt]

end Binary64

end Flowgraph

import Flowgraph.Decimal.Basic

/-!
# The fewest decimal digits that read back

Every number is the nearest one for a whole interval of reals around it. `shortest` picks
the point of that interval that needs the fewest decimal digits, and of several such points
the one nearest to the number, by exact arithmetic on natural numbers: for one digit, two
digits, and so on it tries the two multiples of a power of ten next to the number.

Seventeen digits always suffice, so the search is bounded.
-/

set_option autoImplicit false

namespace Flowgraph.Binary64

/-- The exponent `e` with `10 ^ e ≤ value < 10 ^ (e + 1)`, for a number that is not zero. -/
def decimalExponent (x : Binary64) : Int :=
  if unitsPerOne ≤ x.units then (Decimal.digitCount (x.units / unitsPerOne) : Int) - 1
  else -(Decimal.digitCount ((unitsPerOne + x.units - 1) / x.units - 1) : Int)

/-- The interval of reals that round to a number, in quarter units. -/
structure Neighbourhood where
  low : Nat
  high : Nat
  /-- Whether the ends belong to the interval. -/
  closed : Bool

/-- The reals that round to this number. Below a power of two the gap is half as wide, and
a tie goes to the even significand. -/
def neighbourhood (x : Binary64) : Neighbourhood :=
  let gap := Nat.pow 2 x.scale
  let below := if x.significand = fractionSize ∧ 0 < x.scale then gap else 2 * gap
  { low := 4 * x.units - below
    high := 4 * x.units + 2 * gap
    closed := x.significand % 2 = 0 }

/-- Whether `num / den` quarter units lie in the interval. -/
def Neighbourhood.holds (n : Neighbourhood) (num den : Nat) : Bool :=
  if n.closed then decide (n.low * den ≤ num) && decide (num ≤ n.high * den)
  else decide (n.low * den < num) && decide (num < n.high * den)

/-- The multiple of `10 ^ exponent` nearest to the number among the two next to it, if it
lies in the number's interval. -/
def onGrid (x : Binary64) (exponent : Int) : Option Nat :=
  -- one step of the grid is `step / den` quarter units
  let step := 4 * unitsPerOne * Nat.pow 10 exponent.toNat
  let den := Nat.pow 10 (-exponent).toNat
  let value := 4 * x.units * den
  let down := value / step
  let rest := value % step
  let around := x.neighbourhood
  let downHolds := around.holds (down * step) den
  let upHolds := around.holds ((down + 1) * step) den
  if downHolds && upHolds then
    if 2 * rest < step then some down
    else if 2 * rest = step then some (down + down % 2)
    else some (down + 1)
  else if downHolds then some down
  else if upHolds then some (down + 1)
  else none

/-- Tries the grids from `digits` digits on, finer by one digit at a time. -/
def search (x : Binary64) (top : Int) : Nat → Nat → Decimal
  | 0, digits => ⟨x.units * Nat.pow 10 digits / unitsPerOne, -digits⟩
  | fuel + 1, digits =>
    match x.onGrid (top - digits + 1) with
    | some coefficient => ⟨coefficient, top - digits + 1⟩
    | none => search x top fuel (digits + 1)

/-- The fewest digits that read back as this number; its sign is left out. -/
def shortest (x : Binary64) : Decimal :=
  if x.magnitude = 0 then ⟨0, 0⟩
  else (search x x.decimalExponent 20 1).strip 20

end Flowgraph.Binary64

import Flowgraph.Decimal.Layout

/-!
# JSON numbers

A number is an integer of at most 64 bits or a finite binary number. Which of the two a
literal is depends on how it is written: `5` is an integer, `5.0`, `5e0` and `-0` are not,
and neither is an integer out of range.

`ofLiteral?` reads a literal the quick way: up to nineteen digits of it are one integer, the
rest only move the decimal point, and the result is that integer rounded, then multiplied or
divided by a power of ten and rounded again. For literals of more than fifteen digits this
can miss the nearest number by one place.
-/

set_option autoImplicit false

namespace Flowgraph.Json

/-- The least integer that is kept as one. -/
def leastInteger : Int := -9223372036854775808

/-- The greatest integer that is kept as one. -/
def greatestInteger : Int := 18446744073709551615

/-- A JSON number. -/
inductive Number where
  | integer (value : Int) (bounds : leastInteger ≤ value ∧ value ≤ greatestInteger)
  | float (value : Binary64)
  deriving DecidableEq

namespace Number

/-- The integer number with this value, if it is in range. -/
def ofInt? (n : Int) : Option Number :=
  if h : leastInteger ≤ n ∧ n ≤ greatestInteger then some (.integer n h) else none

/-- The number with this value, an integer out of range taken to a bound. -/
def ofInt (n : Int) : Number :=
  .integer (max leastInteger (min n greatestInteger)) (by
    unfold leastInteger greatestInteger; omega)

instance : Inhabited Number := ⟨ofInt 0⟩

/-- The number as a binary one; integers of more than 53 digits are rounded. -/
def toBinary64 : Number → Binary64
  | .integer n _ => (Binary64.ofInt? n).getD .zero
  | .float x => x

/-- Equality: integers with integers, floats with floats by value. -/
def same : Number → Number → Bool
  | .integer a _, .integer b _ => a == b
  | .float x, .float y => x.same y
  | _, _ => false

/-- The layout of floats in JSON text. -/
def layout : Decimal.Layout := ⟨some (-5), some 16, true, true⟩

/-- The text of an integer. -/
def integerText (n : Int) : List Char :=
  (if n < 0 then ['-'] else []) ++ Nat.toDigits 10 n.natAbs

/-- The text of a number, floats by the given layout. -/
def text (l : Decimal.Layout) : Number → List Char
  | .integer n _ => integerText n
  | .float x => l.write x

/-! ### Reading literals -/

/-- The digits of a literal as far as they fit, and the power of ten they are short of. -/
structure Scaled where
  significand : Nat
  exponent : Int

/-- Takes one more digit if the integer stays below `2 ^ 64`. -/
def Scaled.push? (s : Scaled) (digit : Char) : Option Nat :=
  let next := 10 * s.significand + Decimal.digitValue digit
  if next < Nat.pow 2 64 then some next else none

/-- Takes the digits before the decimal point; once one does not fit, it and the ones after
it count as zeros. -/
def Scaled.whole (s : Scaled) : List Char → Scaled
  | [] => s
  | d :: rest =>
    (s.push? d).elim ⟨s.significand, s.exponent + (rest.length + 1)⟩ fun significand =>
      Scaled.whole ⟨significand, s.exponent⟩ rest

/-- Takes the digits after the decimal point; once one does not fit, it and the ones after
it are left out. -/
def Scaled.fraction (s : Scaled) : List Char → Scaled
  | [] => s
  | d :: rest =>
    (s.push? d).elim s fun significand => Scaled.fraction ⟨significand, s.exponent - 1⟩ rest

/-- The power of ten with a natural exponent up to 308, rounded. -/
def powerOfTen (n : Nat) : Binary64 := (Binary64.ofRatio false (Nat.pow 10 n) 1).getD .zero

/-- Moves the decimal point of a rounded number; large negative exponents go in steps of
308 places until the number is zero. -/
def shiftPoint (x : Binary64) (exponent : Int) : Nat → Option Binary64
  | 0 => some x
  | fuel + 1 =>
    if exponent.natAbs ≤ 308 then
      if 0 ≤ exponent then x.mul (powerOfTen exponent.natAbs)
      else x.div (powerOfTen exponent.natAbs)
    else if x.magnitude = 0 then some x
    else if 0 ≤ exponent then none
    else (x.div (powerOfTen 308)).bind fun x => shiftPoint x (exponent + 308) fuel

/-- The value of a scaled literal, or `none` if it is infinite. -/
def Scaled.value? (s : Scaled) (negative : Bool) : Option Binary64 :=
  let rounded := (Binary64.ofInt? s.significand).getD .zero
  (shiftPoint rounded s.exponent 4).map fun x => { x with negative := negative }

/-- A literal by its parts: sign, digits, digits after the point and exponent if written. -/
structure Literal where
  negative : Bool
  whole : List Char
  fraction : Option (List Char)
  exponent : Option Int

/-- The number that a literal stands for, or `none` if it is infinite. -/
def ofLiteral? (l : Literal) : Option Number :=
  let whole := Scaled.whole ⟨0, 0⟩ l.whole
  match l.fraction, l.exponent with
  | none, none =>
    let n : Int := if l.negative then -(whole.significand : Int) else whole.significand
    if whole.exponent = 0 ∧ ¬(l.negative ∧ whole.significand = 0) ∧
        leastInteger ≤ n then some (ofInt n)
    else (whole.value? l.negative).map .float
  | fraction, exponent =>
    let digits := whole.fraction (fraction.getD [])
    (Scaled.value? ⟨digits.significand, digits.exponent + exponent.getD 0⟩ l.negative).map .float

end Number

end Flowgraph.Json

import Flowgraph.Decimal.Basic

/-!
# Numbers typed as text

A number typed into a form is an optional sign, digits with at most one decimal point among
or around them, and an optional exponent; or, in any case, `inf`, `infinity` or `nan`. The
value is the binary number nearest to the digits.
-/

set_option autoImplicit false

namespace Flowgraph.Decimal

/-- What a text reads as. -/
inductive Reading where
  | finite (value : Binary64)
  | infinite (negative : Bool)
  | notANumber
  deriving DecidableEq

/-- Whether the value lies below a bound; that of no number does not. -/
def Reading.below (r : Reading) (bound : Binary64) : Bool :=
  match r with
  | .finite value => value.lt bound
  | .infinite negative => negative
  | .notANumber => false

/-- Whether the value lies above a bound. -/
def Reading.above (r : Reading) (bound : Binary64) : Bool :=
  match r with
  | .finite value => bound.lt value
  | .infinite negative => !negative
  | .notANumber => false

/-- The exponent written after the digits: nothing, or `e` or `E` with a signed number. -/
def readExponent? : List Char → Option Int
  | [] => some 0
  | c :: rest =>
    let (negative, digits) := splitSign rest
    if (c == 'e' || c == 'E') && !digits.isEmpty && digits.all Char.isDigit then
      some (if negative then -(ofDigits digits : Int) else ofDigits digits)
    else none

/-- Digits, a decimal point, an exponent; at least one digit. -/
def readDecimal? (text : List Char) : Option Decimal :=
  let whole := text.takeWhile Char.isDigit
  let rest := text.dropWhile Char.isDigit
  let (fraction, rest) := match rest with
    | '.' :: rest => (rest.takeWhile Char.isDigit, rest.dropWhile Char.isDigit)
    | rest => ([], rest)
  if whole.isEmpty && fraction.isEmpty then none
  else (readExponent? rest).map fun exponent =>
    ⟨ofDigits (whole ++ fraction), exponent - fraction.length⟩

/-- Reads a number typed as text. -/
def read? (text : List Char) : Option Reading :=
  let (negative, rest) := splitSign text
  let word := String.ofList (rest.map Char.toLower)
  if word = "inf" ∨ word = "infinity" then some (.infinite negative)
  else if word = "nan" then some .notANumber
  else (readDecimal? rest).map fun d =>
    match d.nearest? negative with
    | some value => .finite value
    | none => .infinite negative

end Flowgraph.Decimal

import Flowgraph.Binary64.Shortest

/-!
# How numbers are written

The digits of a number are those of `Binary64.shortest`. A `Layout` decides the rest: for
which numbers the digits stand around a decimal point, whether whole numbers show one, and
how an exponent is written.
-/

set_option autoImplicit false

namespace Flowgraph.Decimal

/-- The choices a format makes for the text of a number. -/
structure Layout where
  /-- Numbers `d.ddd * 10 ^ e` with `e` at least this are written without an exponent, -/
  least : Option Int
  /-- and below this; a missing bound does not restrict. -/
  limit : Option Int
  /-- Whether a whole number without an exponent ends in `.0`. -/
  point : Bool
  /-- Whether a positive exponent has a sign. -/
  plus : Bool

/-- Whether numbers `d.ddd * 10 ^ e` are written without an exponent. -/
def Layout.positional (l : Layout) (e : Int) : Bool :=
  l.least.all (· ≤ e) && l.limit.all (e < ·)

/-- The text of a decimal number without its sign. -/
def Layout.writeDecimal (l : Layout) (d : Decimal) : List Char :=
  let digits := Nat.toDigits 10 d.coefficient
  let length : Int := digits.length
  let lead := d.exponent + length - 1
  if l.positional lead then
    if 0 ≤ d.exponent then
      digits ++ List.replicate d.exponent.toNat '0' ++ (if l.point then ['.', '0'] else [])
    else if 0 ≤ lead then
      let whole := (length + d.exponent).toNat
      digits.take whole ++ '.' :: digits.drop whole
    else
      '0' :: '.' :: List.replicate (-lead - 1).toNat '0' ++ digits
  else
    let sign := if lead < 0 then ['-'] else if l.plus then ['+'] else []
    let mantissa := match digits with
      | [] => []
      | [d] => [d]
      | d :: rest => d :: '.' :: rest
    mantissa ++ 'e' :: sign ++ Nat.toDigits 10 lead.natAbs

/-- The text of a number. -/
def Layout.write (l : Layout) (x : Binary64) : List Char :=
  (if x.negative then ['-'] else []) ++ l.writeDecimal x.shortest

/-- Numbers in messages: never an exponent, and no point in a whole number. -/
def plain : Layout := ⟨none, none, false, false⟩

end Flowgraph.Decimal

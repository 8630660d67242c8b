/-!
# Characters and text

White space and trimming, digits of a base up to sixteen, the parts of a text between separators,
and sets of characters that are given as ranges.
-/

set_option autoImplicit false

namespace Flowgraph.Text

/-! ### Blanks -/

/-- The characters with the property White_Space. -/
def isBlank (c : Char) : Bool :=
  let n := c.toNat
  (9 ≤ n && n ≤ 13) || n == 0x20 || n == 0x85 || n == 0xA0 || n == 0x1680
    || (0x2000 ≤ n && n ≤ 0x200A) || n == 0x2028 || n == 0x2029 || n == 0x202F
    || n == 0x205F || n == 0x3000

/-- Drops blanks at the start. -/
def trimStart (s : List Char) : List Char := s.dropWhile isBlank

/-- Drops blanks at the end. -/
def trimEnd (s : List Char) : List Char := (s.reverse.dropWhile isBlank).reverse

/-- Drops blanks on both sides. -/
def trim (s : String) : String := String.ofList (trimEnd (trimStart s.toList))

/-- A text without any character other than blanks. -/
def blank (s : String) : Bool := s.toList.all isBlank

example : trim " \u00A0a b\u2003" = "a b" := by decide +kernel
example : blank "\u2028 \t" = true := by decide +kernel
example : isBlank '\u200B' = false := by decide

/-! ### Digits -/

/-- The value of a hexadecimal digit in either case. -/
def hexValue? (c : Char) : Option Nat :=
  if '0' ≤ c ∧ c ≤ '9' then some (c.toNat - '0'.toNat)
  else if 'a' ≤ c ∧ c ≤ 'f' then some (c.toNat - 'a'.toNat + 10)
  else if 'A' ≤ c ∧ c ≤ 'F' then some (c.toNat - 'A'.toNat + 10)
  else none

/-- The number that digits of a base stand for; no digits stand for zero. -/
def ofDigits? (base : Nat) (digits : List Char) : Option Nat :=
  digits.foldlM (fun n c => do
    let d ← hexValue? c
    if d < base then some (base * n + d) else none) 0

/-! ### Separators -/

/-- The parts of a text between separators; there is one more of them than separators. -/
def splitOn (separator : Char) : List Char → List (List Char)
  | [] => [[]]
  | c :: rest =>
    if c = separator then [] :: splitOn separator rest
    else match splitOn separator rest with
      | part :: parts => (c :: part) :: parts
      | [] => [[c]]

/-! ### Ranges -/

/-- Whether a code point is in a set that is given by the ascending list of the places where it
begins and ends by turns. -/
def inRanges (bounds : List Nat) (n : Nat) : Bool :=
  (bounds.takeWhile (· ≤ n)).length % 2 = 1

end Flowgraph.Text

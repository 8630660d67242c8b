import Flowgraph.Text.Case
import Flowgraph.Text.Quoted
import Flowgraph.Url.Address
import Flowgraph.Url.DomainTable

/-!
# Domains

A domain is a sequence of labels with full stops between them. Upper and lower case are the
same, some characters are passed over and others count as plain ones. A label that begins
with `xn--` stands for a label with characters beyond the first 128, in the code that spreads
those over the letters and digits (`decode?`).
-/

set_option autoImplicit false

namespace Flowgraph.Url

/-- The first 128 characters that may not stand in a domain. -/
def isForbidden (c : Char) : Bool :=
  c.toNat ≤ 0x20 || c.toNat = 0x7F || "#%/:<>?@[\\]^|".toList.contains c

/-- What a character of a domain counts as; none if it may not stand there. -/
def mapDomain? (c : Char) : Option (List Char) :=
  let n := c.toNat
  if n < 0x80 then if isForbidden c then none else some [c.toLower]
  else if Text.inRanges disallowedRanges n then none
  else if Text.inRanges ignoredRanges n then some []
  else match plainRuns.find? fun (first, last, _) => first ≤ n && n ≤ last with
    | some (first, _, plain) => some [(Char.ofNat (n - first + plain)).toLower]
    | none => some (Text.lowerChar c)

/-! ### Encoded labels -/

namespace Label

/-- The value of a digit of the code: the letters, then the ten digits. -/
def digitValue? (c : Char) : Option Nat :=
  if 'a' ≤ c ∧ c ≤ 'z' then some (c.toNat - 'a'.toNat)
  else if c.isDigit then some (26 + (c.toNat - '0'.toNat))
  else none

/-- Takes a large step down in proportion; the number of divisions goes into the result. -/
def scaleDown : Nat → Nat → Nat → Nat
  | 0, k, delta => k + 36 * delta / (delta + 38)
  | fuel + 1, k, delta =>
    if 455 < delta then scaleDown fuel (k + 36) (delta / 35)
    else k + 36 * delta / (delta + 38)

/-- The bias after a step. -/
def adapt (first : Bool) (delta count : Nat) : Nat :=
  let delta := if first then delta / 700 else delta / 2
  scaleDown 32 0 (delta + delta / count)

/-- Reads one number of the code: its value and the rest of the text. -/
def number? (bias : Nat) : List Char → Nat → Nat → Nat → Option (Nat × List Char)
  | [], _, _, _ => none
  | c :: rest, k, weight, value => do
    let digit ← digitValue? c
    let value := value + digit * weight
    if Nat.pow 2 32 ≤ value then none
    else
      let threshold := if k ≤ bias then 1 else if bias + 26 ≤ k then 26 else k - bias
      if digit < threshold then some (value, rest)
      else number? bias rest (k + 36) (weight * (36 - threshold)) value

/-- Inserts the characters that the numbers of the code stand for, the first of them at
`first`. -/
def insertAll : Nat → (first : Bool) → (code position bias : Nat) → List Char →
    List Char → Option (List Char)
  | _, _, _, _, _, [], label => some label
  | 0, _, _, _, _, _, _ => none
  | fuel + 1, first, code, position, bias, text, label => do
    let (step, rest) ← number? bias text 36 1 0
    let count := label.length + 1
    let total := position + step
    let code := code + total / count
    if 0x10FFFF < code ∨ (0xD800 ≤ code ∧ code ≤ 0xDFFF) then none
    else
      let position := total % count
      insertAll fuel false code (position + 1) (adapt first step count) rest
        (label.take position ++ Char.ofNat code :: label.drop position)

/-- The label that an encoded one stands for: the plain characters before the last hyphen,
and the others inserted among them. -/
def decode? (text : List Char) : Option (List Char) :=
  let plain := ((text.reverse.dropWhile (· ≠ '-')).drop 1).reverse
  let code := if text.contains '-' then text.drop (plain.length + 1) else text
  insertAll (code.length + 1) true 0x80 0 72 code plain

/-- Whether a label may stand in a domain after its characters have been mapped. -/
def valid (label : List Char) : Bool :=
  match label with
  | 'x' :: 'n' :: '-' :: '-' :: code =>
    match decode? code with
    | none => false
    | some decoded =>
      decoded.any (0x80 ≤ ·.toNat) && decoded.all (fun c => mapDomain? c = some [c])
        && !("xn--".toList.isPrefixOf decoded) && !decoded.head?.any Text.isUnprintable
  | label => !label.head?.any Text.isUnprintable

end Label

/-- A domain with its characters mapped, if it is well formed. -/
def mapDomain (domain : List Char) : Option (List Char) := do
  let mapped := (← domain.mapM mapDomain?).flatten
  if (Text.splitOn '.' mapped).all Label.valid then some mapped else none

end Flowgraph.Url

import Flowgraph.Decimal.Basic
import Flowgraph.Text.Basic

/-!
# Network addresses in hosts

Whether a host is a number of the fourth version of the protocol, and whether the numbers
that make up an address of either version are well formed.
-/

set_option autoImplicit false

namespace Flowgraph.Url

/-! ### Version four -/

/-- One number of an address: decimal, octal after `0` or hexadecimal after `0x`. -/
def addressNumber? : List Char → Option Nat
  | [] => none
  | '0' :: 'x' :: rest | '0' :: 'X' :: rest => Text.ofDigits? 16 rest
  | '0' :: c :: rest => Text.ofDigits? 8 (c :: rest)
  | text => Text.ofDigits? 10 text

/-- Whether the last part of a host, not counting an empty one, is a number. -/
def endsInNumber (host : List Char) : Bool :=
  let last := match (Text.splitOn '.' host).reverse with
    | [] :: last :: _ => last
    | last :: _ => last
    | [] => []
  (!last.isEmpty && last.all Char.isDigit) || (addressNumber? last).isSome

/-- Whether a host that ends in a number is an address: up to four numbers, all but the last
below 256 and the last within the rest of the 32 bits. -/
def isAddress4 (host : List Char) : Bool :=
  let parts := Text.splitOn '.' host
  let parts := if parts.getLast? = some [] then parts.dropLast else parts
  match (parts.mapM addressNumber?).map List.reverse with
  | some (last :: before) =>
    before.length < 4 && before.all (· ≤ 255) && last < Nat.pow 256 (4 - before.length)
  | _ => false

/-! ### Version six -/

/-- Whether a text is one of four decimal numbers below 256 without leading zeros. -/
def isOctet (text : List Char) : Bool :=
  !text.isEmpty && text.all Char.isDigit && (text.length = 1 || text.head? != some '0')
    && Decimal.ofDigits text ≤ 255

/-- How many pieces the text between colons makes up: one for up to four hexadecimal digits,
two for an address of version four, which has to be the last. -/
def pieces? (last : Bool) (text : List Char) : Option Nat :=
  if !text.isEmpty && text.length ≤ 4 && text.all (Text.hexValue? · |>.isSome) then some 1
  else
    let octets := Text.splitOn '.' text
    if last && octets.length = 4 && octets.all isOctet then some 2 else none

/-- How many pieces a list of texts between colons makes up. -/
def countPieces : List (List Char) → Option Nat
  | [] => some 0
  | [text] => pieces? true text
  | text :: rest => do return (← pieces? false text) + (← countPieces rest)

/-- Splits a text at its first double colon. -/
def splitGap : List Char → Option (List Char × List Char)
  | ':' :: ':' :: rest => some ([], rest)
  | c :: rest => (splitGap rest).map fun (before, after) => (c :: before, after)
  | [] => none

/-- The texts between colons; none for an empty text. -/
def colonParts (text : List Char) : List (List Char) :=
  if text.isEmpty then [] else Text.splitOn ':' text

/-- Whether a text is an address of eight pieces, a double colon standing for one or more
missing ones. -/
def isAddress6 (text : List Char) : Bool :=
  match splitGap text with
  | none => countPieces (colonParts text) = some 8
  | some (before, after) =>
    -- the gap stands for at least one piece, and an address of version four never precedes it
    match countPieces (colonParts before ++ [['0']]), countPieces (colonParts after) with
    | some a, some b => a + b ≤ 8
    | _, _ => false

end Flowgraph.Url

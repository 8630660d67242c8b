import Flowgraph.Decimal.Reading
import Flowgraph.Text.Basic
import Flowgraph.Tree

/-!
# What plain scalars denote

A plain scalar denotes nothing, a truth value or a number if it is written like one, and its
own text otherwise. The printer asks the same question, to put quotes around texts that would
be taken for something else.

Integers may have a base (`0x`, `0o`, `0b`); leading zeros make digits a text. Integers of
more than 64 and at most 128 bits are recognised as such, but have no value here.
-/

set_option autoImplicit false

namespace Flowgraph.Yaml

/-- What a plain scalar denotes. -/
inductive Meaning where
  | null
  | bool (value : Bool)
  | integer (value : Int)
  | float (value : Binary64)
  /-- An infinity, or not a number. -/
  | infinite
  | text
  deriving DecidableEq

namespace Scalar

/-- The words for nothing. -/
def isNull (text : String) : Bool := ["null", "Null", "NULL", "~"].contains text

/-- The words for truth values. -/
def bool? (text : String) : Option Bool :=
  if ["true", "True", "TRUE"].contains text then some true
  else if ["false", "False", "FALSE"].contains text then some false
  else none

/-- A positive sign off the front of a text. -/
def unsigned : List Char → List Char
  | '+' :: rest => rest
  | text => text

/-- Whether a text begins with a sign. -/
def isSigned (text : List Char) : Bool := text.head?.any fun c => c == '+' || c == '-'

/-- Whether a text would be an integer but for its leading zeros. -/
def isPadded (text : List Char) : Bool :=
  match if isSigned text then text.tail else text with
  | '0' :: d :: rest => (d :: rest).all Char.isDigit
  | _ => false

/-- The number that some digits of a base stand for. -/
def magnitude? (base : Nat) (digits : List Char) : Option Nat :=
  if digits.isEmpty then none else Text.ofDigits? base digits

/-- The number that digits with the mark of their base stand for. -/
def based? : List Char → Option Nat
  | '0' :: 'x' :: digits => magnitude? 16 digits
  | '0' :: 'o' :: digits => magnitude? 8 digits
  | '0' :: 'b' :: digits => magnitude? 2 digits
  | _ => none

/-- An integer of at most 128 bits. -/
def integer? (text : List Char) : Option Int :=
  match text with
  | '-' :: rest =>
    let decimal := if isPadded text then none else magnitude? 10 rest
    match (based? rest).or decimal with
    | some n => if n ≤ Nat.pow 2 127 then some (-(n : Int)) else none
    | none => none
  | text =>
    let decimal := if isPadded text then none else magnitude? 10 (unsigned text)
    match (based? (unsigned text)).or decimal with
    | some n => if n < Nat.pow 2 128 then some n else none
    | none => none

/-- The words for numbers that are not finite. -/
def isInfinite (text : List Char) : Bool :=
  [".inf", ".Inf", ".INF"].contains (String.ofList (unsigned text)) ||
    ["-.inf", "-.Inf", "-.INF", ".nan", ".NaN", ".NAN"].contains (String.ofList text)

/-- A number with a decimal point or an exponent, or any other number. -/
def float? (text : List Char) : Option Meaning :=
  if isInfinite text then some .infinite
  else if text.head? = some '+' ∧ isSigned (unsigned text) then none
  else match Decimal.read? (unsigned text) with
    | some (.finite x) => some (.float x)
    | _ => none

/-- What a plain scalar denotes. -/
def meaning (text : String) : Meaning :=
  if text.isEmpty || isNull text then .null
  else match bool? text with
    | some b => .bool b
    | none =>
      let cs := text.toList
      match integer? cs with
      | some n => .integer n
      | none => if isPadded cs then .text else (float? cs).getD .text

/-- The tree of a scalar with a meaning. -/
def Meaning.tree? (text : String) : Meaning → Option Tree
  | .null => some .null
  | .bool b => some (.bool b)
  | .integer n => (Json.Number.ofInt? n).map .number
  | .float x => some (.number (.float x))
  | .infinite => some .infinite
  | .text => some (.string text)

/-- The start of the tags that every document may use. -/
def standardTag (name : String) : String := "tag:yaml.org,2002:" ++ name

/-- The tree of a scalar. A standard tag says what it has to denote, with quotes or without;
tags of the document's own say nothing that could be read here. -/
def tree? (tag : Option String) (plain : Bool) (text : String) : Option Tree :=
  match tag with
  | none => if plain then Meaning.tree? text (meaning text) else some (.string text)
  | some tag =>
    if tag.startsWith "!" then none
    else if tag = standardTag "bool" then (bool? text).map .bool
    else if tag = standardTag "int" then
      (integer? text.toList).bind fun n => (Json.Number.ofInt? n).map .number
    else if tag = standardTag "float" then
      (float? text.toList).bind (Meaning.tree? text)
    else if tag = standardTag "null" then if isNull text then some .null else none
    else some (.string text)

end Scalar

end Flowgraph.Yaml

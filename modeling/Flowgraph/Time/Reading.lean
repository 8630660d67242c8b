import Flowgraph.Text.Basic
import Flowgraph.Time.Moment
import Flowgraph.Decimal.Basic

/-!
# Reading moments

The text of a moment is a date, a `T` or a blank, a time of day and an offset. The reader is
lenient: blanks may stand between the parts, fields may have fewer digits than usual, and
the offset may be written in several ways.
-/

set_option autoImplicit false

namespace Flowgraph.Moment

/-- What is wrong with the text of a moment. -/
inductive Fault where
  | outOfRange
  | impossible
  | invalid
  | tooShort
  | tooLong
  deriving DecidableEq

/-- The wording of a fault. -/
def Fault.message : Fault → String
  | .outOfRange => "input is out of range"
  | .impossible => "no possible date and time matching input"
  | .invalid => "input contains invalid characters"
  | .tooShort => "premature end of input"
  | .tooLong => "trailing input"

/-- A reader takes something from the start of a text. -/
abbrev Reader (α : Type) := List Char → Except Fault (α × List Char)

namespace Reader

/-- A natural number of at most `width` digits. -/
def number (width : Nat) : Reader Nat := fun text =>
  match text with
  | [] => .error .tooShort
  | c :: _ =>
    if !c.isDigit then .error .invalid
    else
      let digits := (text.take width).takeWhile Char.isDigit
      let n := Decimal.ofDigits digits
      if n < Nat.pow 2 63 then .ok (n, text.drop digits.length) else .error .outOfRange

/-- A number after blanks that lies between two bounds. -/
def field (low high : Nat) : Reader Nat := fun text => do
  let (n, rest) ← number 2 (Text.trimStart text)
  if low ≤ n ∧ n ≤ high then return (n, rest) else throw .outOfRange

/-- A year: up to four digits, or any number of them after a sign. -/
def year : Reader Int := fun text => do
  let (n, rest) ← match Text.trimStart text with
    | '-' :: digits => (number digits.length digits).map fun (n, rest) => (-(n : Int), rest)
    | '+' :: digits => (number digits.length digits).map fun (n, rest) => ((n : Int), rest)
    | digits => (number 4 digits).map fun (n, rest) => ((n : Int), rest)
  if -2147483648 ≤ n ∧ n < 2147483648 then return (n, rest) else throw .outOfRange

/-- A separator after blanks. -/
def separator (c : Char) : Reader Unit := fun text =>
  match Text.trimStart text with
  | [] => .error .tooShort
  | d :: rest => if c = d then .ok ((), rest) else .error .invalid

/-- A fraction of a second, in nanoseconds; digits after the ninth are left out. -/
def fraction : Reader Nat := fun text =>
  match text with
  | '.' :: text => do
    let (n, rest) ← number 9 text
    let count := text.length - rest.length
    return (n * Nat.pow 10 (9 - count), rest.dropWhile Char.isDigit)
  | text => .ok (0, text)

/-- Whether a text has at least two bytes. -/
def hasTwo : List Char → Bool
  | [] => false
  | [c] => 0x80 ≤ c.toNat
  | _ => true

/-- Two digits. -/
def twoDigits : Reader (Nat × Nat) := fun text =>
  if !hasTwo text then .error .tooShort
  else match text with
    | a :: b :: rest =>
      if a.isDigit && b.isDigit then
        .ok ((Decimal.digitValue a, Decimal.digitValue b), rest)
      else .error .invalid
    | _ => .error .invalid

/-- An offset from universal time in minutes. -/
def offset : Reader Int := fun text =>
  match text with
  | 'Z' :: rest | 'z' :: rest => .ok (0, rest)
  | a :: b :: c :: rest =>
    if [a, b, c].map Char.toUpper = ['U', 'T', 'C'] then .ok (0, rest)
    else signed a (b :: c :: rest)
  | a :: rest => signed a rest
  | [] => .error .tooShort
where
  signed (sign : Char) : Reader Int := fun text =>
    if sign = '+' ∨ sign = '-' ∨ sign = '\u2212' then do
      let ((h, h'), rest) ← twoDigits text
      let ((m, m'), rest) ← twoDigits (rest.dropWhile fun c => c == ':' || Text.isBlank c)
      if 6 ≤ m then throw .outOfRange
      let minutes : Int := (10 * h + h') * 60 + (10 * m + m')
      return (if sign = '+' then minutes else -minutes, rest)
    else .error .invalid

end Reader

open Reader in
/-- Reads the text of a moment. -/
def read (text : String) : Except Fault Moment := do
  let (year, rest) ← year text.toList
  let (_, rest) ← separator '-' rest
  let (month, rest) ← field 1 12 rest
  let (_, rest) ← separator '-' rest
  let (day, rest) ← field 1 31 rest
  let rest ← match rest with
    | 'T' :: rest | 't' :: rest | ' ' :: rest => Except.ok rest
    | [] => throw .tooShort
    | _ => throw .invalid
  let (hour, rest) ← field 0 23 rest
  let (_, rest) ← separator ':' rest
  let (minute, rest) ← field 0 59 rest
  let (_, rest) ← separator ':' rest
  let (second, rest) ← field 0 60 rest
  let (nanos, rest) ← fraction rest
  let (offset, rest) ← offset (Text.trimStart rest)
  if !(Text.trimStart rest).isEmpty then throw .tooLong
  let date : Date := ⟨year, month, day⟩
  if !date.valid then throw .outOfRange
  if 24 * 60 ≤ offset.natAbs then throw .outOfRange
  -- a leap second counts as the second before it with more than a second of nanoseconds
  let shown : Moment := ⟨date, hour, minute, min second 59,
    if second = 60 then nanos + 1000000000 else nanos⟩
  let moment := shown.ofLocal offset
  if moment.date.valid then return moment else throw .impossible

end Flowgraph.Moment

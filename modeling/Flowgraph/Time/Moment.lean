/-!
# Moments

A moment is a date of the Gregorian calendar and a time of day in universal time, to the
nanosecond. A leap second is the second 59 with a thousand million nanoseconds more.
-/

set_option autoImplicit false

namespace Flowgraph

/-- The first year that a moment can be in. -/
def firstYear : Int := -262143

/-- The last year that a moment can be in. -/
def lastYear : Int := 262142

/-- Whether a year has 366 days. -/
def isLeapYear (year : Int) : Bool :=
  year % 4 = 0 && (year % 100 ≠ 0 || year % 400 = 0)

/-- The number of days of a month. -/
def daysInMonth (year : Int) (month : Nat) : Nat :=
  if month = 2 then if isLeapYear year then 29 else 28
  else if month = 4 ∨ month = 6 ∨ month = 9 ∨ month = 11 then 30
  else 31

/-- A date of the calendar. -/
structure Date where
  year : Int
  month : Nat
  day : Nat
  deriving DecidableEq

namespace Date

/-- Whether a date is one of the calendar. -/
def valid (d : Date) : Bool :=
  firstYear ≤ d.year && d.year ≤ lastYear && 1 ≤ d.month && d.month ≤ 12
    && 1 ≤ d.day && d.day ≤ daysInMonth d.year d.month

/-- The day after. -/
def next (d : Date) : Date :=
  if d.day < daysInMonth d.year d.month then { d with day := d.day + 1 }
  else if d.month < 12 then ⟨d.year, d.month + 1, 1⟩
  else ⟨d.year + 1, 1, 1⟩

/-- The day before. -/
def previous (d : Date) : Date :=
  if 1 < d.day then { d with day := d.day - 1 }
  else if 1 < d.month then ⟨d.year, d.month - 1, daysInMonth d.year (d.month - 1)⟩
  else ⟨d.year - 1, 12, 31⟩

example : valid ⟨9999, 12, 31⟩ = true ∧ valid ⟨1900, 2, 29⟩ = false := by decide
example : next ⟨2024, 2, 28⟩ = ⟨2024, 2, 29⟩ ∧ previous ⟨2000, 3, 1⟩ = ⟨2000, 2, 29⟩ := by decide

end Date

/-- A moment in universal time. -/
structure Moment where
  date : Date
  hour : Nat
  minute : Nat
  second : Nat
  nanos : Nat
  deriving DecidableEq

namespace Moment

/-- The moment that a clock `offset` minutes ahead of universal time shows as the given
one; the offset is less than a day either way. -/
def ofLocal (m : Moment) (offset : Int) : Moment :=
  let minutes : Int := m.hour * 60 + m.minute - offset
  let date := if minutes < 0 then m.date.previous
    else if 24 * 60 ≤ minutes then m.date.next else m.date
  let inDay := (minutes % (24 * 60)).toNat
  { m with date := date, hour := inDay / 60, minute := inDay % 60 }

/-- The moment so many milliseconds after the beginning of 1970. -/
def ofMillis (millis : Nat) : Moment :=
  let seconds := millis / 1000
  let days := seconds / 86400 + 719468
  let era := days / 146097
  let dayOfEra := days % 146097
  let yearOfEra := (dayOfEra - dayOfEra / 1460 + dayOfEra / 36524 - dayOfEra / 146096) / 365
  let dayOfYear := dayOfEra - (365 * yearOfEra + yearOfEra / 4 - yearOfEra / 100)
  let shifted := (5 * dayOfYear + 2) / 153
  let month := if shifted < 10 then shifted + 3 else shifted - 9
  let year := yearOfEra + era * 400 + if month ≤ 2 then 1 else 0
  { date := ⟨year, month, dayOfYear - (153 * shifted + 2) / 5 + 1⟩
    hour := seconds / 3600 % 24
    minute := seconds / 60 % 60
    second := seconds % 60
    nanos := millis % 1000 * 1000000 }

/-- The digits of a number, with zeros in front up to a width. -/
def padded (width n : Nat) : List Char :=
  let digits := Nat.toDigits 10 n
  List.replicate (width - digits.length) '0' ++ digits

/-- The text of a year: four digits, or with a sign if it needs more or is negative. -/
def yearText (year : Int) : List Char :=
  if 0 ≤ year ∧ year ≤ 9999 then padded 4 year.toNat
  else (if year < 0 then '-' else '+') :: padded 4 year.natAbs

/-- The text of a fraction of a second: as few groups of three digits as it needs. -/
def fractionText (nanos : Nat) : List Char :=
  if nanos = 0 then []
  else if nanos % 1000000 = 0 then '.' :: padded 3 (nanos / 1000000)
  else if nanos % 1000 = 0 then '.' :: padded 6 (nanos / 1000)
  else '.' :: padded 9 nanos

/-- The written form of a moment. -/
def text (m : Moment) : String :=
  let leap := 1000000000 ≤ m.nanos
  let second := if leap then m.second + 1 else m.second
  let nanos := if leap then m.nanos - 1000000000 else m.nanos
  String.ofList (yearText m.date.year ++ '-' :: padded 2 m.date.month ++ '-' ::
    padded 2 m.date.day ++ 'T' :: padded 2 m.hour ++ ':' :: padded 2 m.minute ++ ':' ::
    padded 2 second ++ fractionText nanos ++ ['Z'])

end Moment

end Flowgraph

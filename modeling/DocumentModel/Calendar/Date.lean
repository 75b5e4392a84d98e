import DocumentModel.Calendar.Reading

/-! Dates of the Gregorian calendar, carried back before its introduction, with a year zero.

A `Date` exists by its type: the month has the day. Dates are written `year-month-day`; the
years 0 to 9999 have four digits and the others a sign. `dayNumber` counts the days from
the first of January 1970, and `ofDayNumber?` finds the date of a count. -/
namespace DocumentModel.Calendar
open Text (padded)

/-- Whether a year has a twenty-ninth of February. -/
def isLeapYear (year : Int) : Bool :=
  year % 4 = 0 && (year % 100 ≠ 0 || year % 400 = 0)

/-- The count of days of a month. -/
def daysInMonth (year : Int) (month : Nat) : Nat :=
  if month = 2 then if isLeapYear year then 29 else 28
  else if month = 4 ∨ month = 6 ∨ month = 9 ∨ month = 11 then 30
  else 31

/-- The first year that dates reach back to. -/
def firstYear : Int := -262143

/-- The last year that dates reach. -/
def lastYear : Int := 262142

/-- A day of the calendar. -/
structure Date where
  year : Int
  month : Nat
  day : Nat
  year_mem : firstYear ≤ year ∧ year ≤ lastYear := by decide
  month_mem : 1 ≤ month ∧ month ≤ 12 := by decide
  day_mem : 1 ≤ day ∧ day ≤ daysInMonth year month := by decide
  deriving DecidableEq

namespace Date

/-- The date with a year, month and day, if there is one. -/
def of? (year : Int) (month day : Nat) : Option Date :=
  if hy : firstYear ≤ year ∧ year ≤ lastYear then
    if hm : 1 ≤ month ∧ month ≤ 12 then
      if hd : 1 ≤ day ∧ day ≤ daysInMonth year month then some ⟨year, month, day, hy, hm, hd⟩
      else none
    else none
  else none

/-- The day before, unless dates do not reach back to it. -/
def previous? (d : Date) : Option Date :=
  if 1 < d.day then of? d.year d.month (d.day - 1)
  else if 1 < d.month then of? d.year (d.month - 1) (daysInMonth d.year (d.month - 1))
  else of? (d.year - 1) 12 31

/-- The day after, unless dates do not reach it. -/
def next? (d : Date) : Option Date :=
  if d.day < daysInMonth d.year d.month then of? d.year d.month (d.day + 1)
  else if d.month < 12 then of? d.year (d.month + 1) 1
  else of? (d.year + 1) 1 1

/-! ### Counting days

Years are taken to begin in March, so that the leap day is the last of its year, and in
groups of four hundred, which all have the same count of days. -/

/-- The days from the first of January 1970 to a date. -/
def dayNumber (d : Date) : Int :=
  let year := if d.month ≤ 2 then d.year - 1 else d.year
  let era := year / 400
  let yearOfEra := year % 400
  let month : Int := (d.month + 9) % 12
  let dayOfYear := (153 * month + 2) / 5 + d.day - 1
  let dayOfEra := yearOfEra * 365 + yearOfEra / 4 - yearOfEra / 100 + dayOfYear
  era * 146097 + dayOfEra - 719468

/-- The date that lies a count of days after the first of January 1970. -/
def ofDayNumber? (days : Int) : Option Date :=
  let shifted := days + 719468
  let era := shifted / 146097
  let dayOfEra := shifted % 146097
  let yearOfEra := (dayOfEra - dayOfEra / 1460 + dayOfEra / 36524 - dayOfEra / 146096) / 365
  let dayOfYear := dayOfEra - (365 * yearOfEra + yearOfEra / 4 - yearOfEra / 100)
  let month := (5 * dayOfYear + 2) / 153
  let day := dayOfYear - (153 * month + 2) / 5 + 1
  let year := era * 400 + yearOfEra + if month < 10 then 0 else 1
  of? year (if month < 10 then month + 3 else month - 9).toNat day.toNat

/-! ### Text -/

/-- The text of a year. -/
def yearText (year : Int) : List Char :=
  let digits := padded 4 year.natAbs
  if year < 0 then '-' :: digits else if 9999 < year then '+' :: digits else digits

/-- The text of a date, as characters. -/
def chars (d : Date) : List Char :=
  yearText d.year ++ '-' :: padded 2 d.month ++ '-' :: padded 2 d.day

/-- The text of a date. -/
def toText (d : Date) : String := String.ofList d.chars

/-- Reads a year: up to four digits, or a sign and any count of them. A year must fit into
thirty-two bits as soon as it is read. -/
def readYear (cs : List Char) : Except Fault (Int × List Char) := do
  match Text.skipBlanks cs with
  | '-' :: signed => do
    let (n, rest) ← readNumber signed.length signed
    if n ≤ 0x80000000 then return (-n, rest) else throw .outOfRange
  | '+' :: signed => do
    let (n, rest) ← readNumber signed.length signed
    if n < 0x80000000 then return (n, rest) else throw .outOfRange
  | unsigned => do
    let (n, rest) ← readNumber 4 unsigned
    return (n, rest)

/-- Reads `year-month-day`, and nothing after it. -/
def ofText (text : String) : Except Fault Date := do
  let (year, rest) ← readYear text.toList
  let rest ← readLiteral '-' rest
  let (month, rest) ← readField 1 12 rest
  let rest ← readLiteral '-' rest
  let (day, rest) ← readField 1 31 rest
  readEnd rest
  match of? year month day with
  | some date => return date
  | none => throw .outOfRange

end Date
end DocumentModel.Calendar

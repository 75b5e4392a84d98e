import DocumentModel.Calendar.Date
import DocumentModel.Calendar.Time

/-! Instants: a date and a time of day in universal time.

An instant is written `dateTtimeZ`. It may be read with any offset from universal time of
whole minutes and less than a day, which moves it by at most one date: `Instant.ofLocal?`. -/
namespace DocumentModel.Calendar
open Text (numeral)

/-- A date and a time of day in universal time. -/
structure Instant where
  date : Date
  time : Time
  deriving DecidableEq

namespace Instant

/-! ### Counting seconds -/

/-- The seconds from the start of 1970; a leap second counts as the one before it. -/
def unixSeconds (i : Instant) : Int := i.date.dayNumber * 86400 + i.time.secondOfDay

/-- The instant with a second count and a nanosecond, if there is one. -/
def ofUnix? (seconds : Int) (nanosecond : Nat) : Option Instant := do
  let date ← Date.ofDayNumber? (seconds / 86400)
  let second := (seconds % 86400).toNat
  let time ← Time.of? (second / 3600) (second / 60 % 60) (second % 60) nanosecond
  return ⟨date, time⟩

/-! ### Offsets -/

/-- The instant at a local date and time whose clock is a number of minutes ahead of
universal time. The second and what it counts stay as they are. -/
def ofLocal? (date : Date) (time : Time) (ahead : Int) : Option Instant := do
  let minutes : Int := time.hour * 60 + time.minute - ahead
  let date ←
    if minutes < 0 then date.previous?
    else if minutes < 1440 then some date
    else date.next?
  return ⟨date, time.atMinute (minutes % 1440).toNat (by omega)⟩

/-! ### Text -/

/-- The text of an instant. -/
def toText (i : Instant) : String :=
  String.ofList (i.date.chars ++ 'T' :: i.time.chars ++ ['Z'])

/-- Reads two characters that must be digits; at the end of the text it matters how many
bytes are missing, and a lone character outside ASCII has enough of them. -/
def readPair : List Char → Except Fault (Nat × List Char)
  | a :: b :: rest =>
    if a.isDigit && b.isDigit then .ok (numeral [a, b], rest) else .error .malformed
  | [a] => if a.utf8Size = 1 then .error .premature else .error .malformed
  | [] => .error .premature

/-- Reads an offset, in minutes ahead of universal time: the letter Z, or a sign, hours, a
colon and minutes. -/
def readOffset : List Char → Except Fault (Int × List Char)
  | [] => .error .premature
  | c :: rest =>
    if c = 'Z' ∨ c = 'z' then .ok (0, rest)
    else if c = '+' ∨ c = '-' ∨ c = '\u2212' then do
      let (hours, rest) ← readPair rest
      let rest ← readLiteral ':' rest
      let (minutes, rest) ← readPair rest
      let _ ← within 0 59 minutes
      let offset : Int := hours * 60 + minutes
      return (if c = '+' then offset else -offset, rest)
    else .error .malformed

/-- Reads the letter T or a space, which stands between date and time. -/
def readSeparator : List Char → Except Fault (List Char)
  | [] => .error .premature
  | c :: rest => if c = 'T' ∨ c = 't' ∨ c = ' ' then .ok rest else .error .malformed

/-- Reads a date and a time of fixed widths with an offset, and nothing after it. A text of
fewer bytes than date and time take is too short, whatever it holds. -/
def ofText (text : String) : Except Fault Instant := do
  if text.utf8ByteSize < 19 then throw .premature
  let (year, rest) ← readFixed 4 text.toList
  let rest ← readLiteral '-' rest
  let (month, rest) ← readFixed 2 rest
  let rest ← readLiteral '-' rest
  let (day, rest) ← readFixed 2 rest
  let some date := Date.of? (numeral year) (numeral month) (numeral day)
    | throw .outOfRange
  let rest ← readSeparator rest
  let (hour, rest) ← readFixed 2 rest
  let rest ← readLiteral ':' rest
  let (minute, rest) ← readFixed 2 rest
  let rest ← readLiteral ':' rest
  let (second, rest) ← readFixed 2 rest
  let (nanosecond, rest) ← readFraction rest
  let some time := Time.ofWritten? (numeral hour) (numeral minute) (numeral second) nanosecond
    | throw .outOfRange
  let (ahead, rest) ← readOffset rest
  readEnd rest
  if 24 * 60 ≤ ahead.natAbs then throw .outOfRange
  match ofLocal? date time ahead with
  | some instant => return instant
  | none => throw .outOfRange

end Instant
end DocumentModel.Calendar

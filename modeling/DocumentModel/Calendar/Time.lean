import DocumentModel.Calendar.Reading

/-! Times of day, to the nanosecond.

A leap second follows a second: it is that second with a nanosecond count that goes on past
one thousand million, and is written as the one after. Where a time is made from its parts it
follows the last second of a minute, and so it is written as second sixty, but a time whose
second or nanosecond is replaced later may have it elsewhere. Times are written
`hours:minutes:seconds` with as many digits of the second's fraction as it takes. -/
namespace DocumentModel.Calendar
open Text (padded)

/-- The nanoseconds of a second. -/
def nanosecondsPerSecond : Nat := 1000000000

/-- A time of day. -/
structure Time where
  hour : Nat
  minute : Nat
  second : Nat
  /-- From one thousand million on, it counts into the leap second after the second. -/
  nanosecond : Nat
  hour_lt : hour < 24 := by decide
  minute_lt : minute < 60 := by decide
  second_lt : second < 60 := by decide
  nanosecond_lt : nanosecond < 2 * nanosecondsPerSecond := by decide
  deriving DecidableEq

namespace Time

/-- The time with the given parts, if there is one. Only the last second of a minute is followed
by a leap second. -/
def of? (hour minute second nanosecond : Nat) : Option Time :=
  if h : (hour < 24 ∧ minute < 60) ∧ (second < 60 ∧ nanosecond < 2 * nanosecondsPerSecond) ∧
      (nanosecondsPerSecond ≤ nanosecond → second = 59) then
    some ⟨hour, minute, second, nanosecond, h.1.1, h.1.2, h.2.1.1, h.2.1.2⟩
  else none

/-- The time at a written second, where sixty is the leap second. -/
def ofWritten? (hour minute second nanosecond : Nat) : Option Time :=
  if second = 60 then of? hour minute 59 (nanosecondsPerSecond + nanosecond)
  else of? hour minute second nanosecond

/-- The whole seconds since midnight; a leap second counts as the one before it. -/
def secondOfDay (t : Time) : Nat := t.hour * 3600 + t.minute * 60 + t.second

/-- The same point of another minute of the day. -/
def atMinute (t : Time) (minute : Nat) (h : minute < 24 * 60) : Time where
  hour := minute / 60
  minute := minute % 60
  second := t.second
  nanosecond := t.nanosecond
  hour_lt := by omega
  minute_lt := by omega
  second_lt := t.second_lt
  nanosecond_lt := t.nanosecond_lt

/-! ### Text -/

/-- The second as it is written, which for a leap second is the one after. -/
def writtenSecond (t : Time) : Nat := t.second + t.nanosecond / nanosecondsPerSecond

/-- The nanoseconds that are written, which a leap second counts from its own start. -/
def writtenNanosecond (t : Time) : Nat := t.nanosecond % nanosecondsPerSecond

/-- The text of a time, as characters. -/
def chars (t : Time) : List Char :=
  padded 2 t.hour ++ ':' :: (padded 2 t.minute ++
    ':' :: (padded 2 t.writtenSecond ++ fractionText t.writtenNanosecond))

/-- The text of a time. -/
def toText (t : Time) : String := String.ofList t.chars

/-- Reads `hours:minutes:seconds` with an optional fraction, and nothing after it. -/
def ofText (text : String) : Except Fault Time := do
  let (hour, rest) ← readField 0 23 text.toList
  let rest ← readLiteral ':' rest
  let (minute, rest) ← readField 0 59 rest
  let rest ← readLiteral ':' rest
  let (second, rest) ← readField 0 60 rest
  let (nanosecond, rest) ← readFraction rest
  readEnd rest
  match ofWritten? hour minute second nanosecond with
  | some time => return time
  | none => throw .outOfRange

end Time
end DocumentModel.Calendar

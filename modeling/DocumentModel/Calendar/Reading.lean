import DocumentModel.Text.Blank
import DocumentModel.Text.Numeral

/-! The pieces that written dates and times are read from.

Each piece takes the text that is left and returns what it read with the text after it, or
the `Fault` that stopped it. Texts are read from left to right and the first fault counts,
so a format is the chain of its pieces. -/
namespace DocumentModel.Calendar
open Text (numeral padded)

/-- Why a text is not a date or a time. -/
inductive Fault
  /-- The text ends too early. -/
  | premature
  /-- Something follows the last piece. -/
  | trailing
  /-- A character does not belong where it stands. -/
  | malformed
  /-- The pieces are well formed and name no date, time or offset. -/
  | outOfRange
  deriving DecidableEq

/-- The wording of a fault. -/
def Fault.message : Fault → String
  | .premature => "premature end of input"
  | .trailing => "trailing input"
  | .malformed => "input contains invalid characters"
  | .outOfRange => "input is out of range"

/-- Refuses a number beyond its bounds. -/
def within (least most : Nat) (n : Nat) : Except Fault Nat :=
  if least ≤ n ∧ n ≤ most then .ok n else .error .outOfRange

/-- Reads a given character. -/
def readLiteral (c : Char) : List Char → Except Fault (List Char)
  | [] => .error .premature
  | d :: rest => if d = c then .ok rest else .error .malformed

/-- Reads one digit or more, up to the first character that is none. -/
def readDigits (cs : List Char) : Except Fault (List Char × List Char) :=
  match cs.takeWhile Char.isDigit, cs with
  | digits@(_ :: _), _ => .ok (digits, cs.dropWhile Char.isDigit)
  | [], [] => .error .premature
  | [], _ :: _ => .error .malformed

/-- Reads at least one digit and at most `most`. -/
def readNumber (most : Nat) (cs : List Char) : Except Fault (Nat × List Char) := do
  let (digits, rest) ← readDigits cs
  return (numeral (digits.take most), digits.drop most ++ rest)

/-- Reads a number of one or two digits that must lie within bounds; blanks may stand
before it. -/
def readField (least most : Nat) (cs : List Char) : Except Fault (Nat × List Char) := do
  let (n, rest) ← readNumber 2 (Text.skipBlanks cs)
  return (← within least most n, rest)

/-- Reads a fraction of a second, if a point announces one, in nanoseconds. Digits after
the ninth are read and do not count. -/
def readFraction : List Char → Except Fault (Nat × List Char)
  | '.' :: cs => do
    let (digits, rest) ← readDigits cs
    let counted := digits.take 9
    return (numeral counted * Nat.pow 10 (9 - counted.length), rest)
  | cs => .ok (0, cs)

/-- Reads a run of digits of a fixed length. -/
def readFixed : Nat → List Char → Except Fault (List Char × List Char)
  | 0, cs => .ok ([], cs)
  | _ + 1, [] => .error .premature
  | count + 1, d :: cs =>
    if d.isDigit then do
      let (digits, rest) ← readFixed count cs
      return (d :: digits, rest)
    else .error .malformed

/-- Accepts the end of the text. -/
def readEnd : List Char → Except Fault Unit
  | [] => .ok ()
  | _ :: _ => .error .trailing

/-! ### Writing -/

/-- Nanoseconds after a point, in the fewest of three, six or nine digits that are exact,
and nothing for none. -/
def fractionText (nanosecond : Nat) : List Char :=
  if nanosecond = 0 then []
  else if nanosecond % 1000000 = 0 then '.' :: padded 3 (nanosecond / 1000000)
  else if nanosecond % 1000 = 0 then '.' :: padded 6 (nanosecond / 1000)
  else '.' :: padded 9 nanosecond

end DocumentModel.Calendar

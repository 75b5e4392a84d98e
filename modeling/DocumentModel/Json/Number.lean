import DocumentModel.Binary64.Rounding
import DocumentModel.Binary64.Text
import DocumentModel.Text.Numeral

/-! Numbers of JSON.

A number is an integer of sixty-four bits, with or without a sign, or a finite
floating-point number; the two kinds are kept apart, so that `3` and `3.0` differ. A literal
without fraction and exponent stands for an integer if one holds it, and the negative zero
is a floating-point number.

Other literals are read quickly rather than exactly. Of the digits only those count that a word
holds (`Significand`); they are rounded to a floating-point number, and that is multiplied with or
divided by a power of ten, which rounds again (`scaled?`). So a literal of many digits may stand for
a neighbour of the number that is nearest to it. -/
namespace DocumentModel.Json

/-- A number as JSON can hold it. -/
inductive Number
  | integer (n : Int) (mem : -0x8000000000000000 ≤ n ∧ n < 0x10000000000000000)
  | double (x : Binary64) (finite : x.isFinite = true)
  deriving DecidableEq

namespace Number

/-- The number with an integer, if it fits. -/
def ofInt? (n : Int) : Option Number :=
  if h : -0x8000000000000000 ≤ n ∧ n < 0x10000000000000000 then some (.integer n h) else none

/-- The number with a signed word, which always fits. -/
def ofInt64 (n : Int64) : Number :=
  .integer n.toInt (by have := n.le_toInt; have := n.toInt_lt; omega)

/-- The number with a word, which always fits. -/
def ofUInt64 (n : UInt64) : Number :=
  .integer n.toNat (by have := n.toNat_lt; omega)

/-- The number with a floating-point number, if that is finite. -/
def ofBinary64? (x : Binary64) : Option Number :=
  if h : x.isFinite = true then some (.double x h) else none

/-- The signed word that an integer fits into. -/
def toInt64? : Number → Option Int64
  | .integer n _ => if n < 0x8000000000000000 then some (.ofInt n) else none
  | .double _ _ => none

/-- The nearest floating-point number. -/
def toBinary64 : Number → Binary64
  | .integer n _ => Binary64.ofInt n
  | .double x _ => x

/-! ### Equality -/

/-- Equality of numbers: an integer equals itself alone, and floating-point numbers are compared as
numbers. -/
def equals : Number → Number → Bool
  | .integer m _, .integer n _ => m == n
  | .double x _, .double y _ => x.numEq y
  | _, _ => false

/-! ### Text -/

/-- Numbers between a hundred-thousandth and ten million thousand million are written
without an exponent, and all floating-point numbers so that they read back as such. -/
def layout : Binary64.Layout := ⟨fun e => -5 ≤ e && e ≤ 15, true, .toEven⟩

/-- The text of a number. -/
def toText : Number → String
  | .integer n _ => n.repr
  | .double x _ => x.layOut layout

end Number

/-! ### Literals -/

/-- A number as it is written. -/
structure NumberLiteral where
  negative : Bool
  whole : List Char
  fraction : Option (List Char)
  exponent : Option Int

/-- The digits of a literal that count, as a whole number that a word holds, and the power of ten
that it is to be multiplied with. -/
structure Significand where
  digits : Nat
  power : Int

namespace Significand

/-- Takes digits up to the first with which a word would no longer hold them, and returns those that
are left from there. -/
def take (digits : Nat) : List Char → Nat × List Char
  | [] => (digits, [])
  | c :: rest =>
    let more := 10 * digits + (c.toNat - '0'.toNat)
    if more < UInt64.size then take more rest else (digits, c :: rest)

/-- Takes the digits before the point. Those that are left still count as places. -/
def ofWhole (whole : List Char) : Significand :=
  let (digits, rest) := take 0 whole
  ⟨digits, rest.length⟩

/-- Takes the digits after the point. Those that are left do not count. -/
def addFraction (s : Significand) (fraction : List Char) : Significand :=
  let (digits, rest) := take s.digits fraction
  ⟨digits, s.power - (fraction.length - rest.length : Nat)⟩

end Significand

/-- A power of ten, rounded; those up to the largest of all are finite. -/
def tenTo (power : Nat) : Binary64 := Binary64.nearest false (Nat.pow 10 power) 1

/-- The exponent of the largest power of ten that is a finite number. -/
def largestPower : Nat := 308

/-- Divides by the largest power of ten a number of times, as long as anything is left. -/
def lowered (x : Binary64) : Nat → Binary64
  | 0 => x
  | steps + 1 => if x.magnitude = 0 then x else lowered (x.div (tenTo largestPower)) steps

/-- A number without a sign, scaled by a power of ten, unless it gets beyond all finite ones. Only
division takes several steps for what one power of ten cannot do. -/
def scaled? (x : Binary64) (power : Int) : Option Binary64 :=
  if power < 0 then
    let steps := (power.natAbs - 1) / largestPower
    some ((lowered x steps).div (tenTo (power.natAbs - steps * largestPower)))
  else if power ≤ largestPower then
    let product := x.mul (tenTo power.natAbs)
    if product.isFinite then some product else none
  else if x.magnitude = 0 then some x
  else none

namespace NumberLiteral

/-- The digits that count, before any exponent. -/
def significand (l : NumberLiteral) : Significand :=
  match l.fraction with
  | none => .ofWhole l.whole
  | some fraction => (Significand.ofWhole l.whole).addFraction fraction

/-- The floating-point number without its sign that a literal stands for, if a finite one is. An
exponent that a word of thirty-two bits with a sign does not hold settles the matter alone. -/
def magnitude? (l : NumberLiteral) : Option Binary64 :=
  let s := l.significand
  let exponent := l.exponent.getD 0
  if exponent.natAbs ≤ 0x7fffffff then scaled? (Binary64.ofInt s.digits) (s.power + exponent)
  else if exponent < 0 ∨ s.digits = 0 then some (.zero false)
  else none

/-- The integer that a literal without fraction and exponent stands for. A zero with a sign is not
one. -/
def integer? (l : NumberLiteral) : Option Number :=
  match l.fraction, l.exponent with
  | none, none =>
    let n := Text.numeral l.whole
    if !l.negative then Number.ofInt? n
    else if n = 0 then none
    else Number.ofInt? (-n)
  | _, _ => none

/-- The number that a literal stands for, unless it is beyond all finite ones. -/
def number? (l : NumberLiteral) : Option Number :=
  match l.integer? with
  | some n => some n
  | none =>
    match l.magnitude? with
    | some x => Number.ofBinary64? (if l.negative then x.neg else x)
    | none => none

/-- The word that a literal without sign, fraction and exponent stands for. -/
def word? (l : NumberLiteral) : Option UInt64 :=
  let n := Text.numeral l.whole
  if !l.negative && l.fraction.isNone && l.exponent.isNone && n < UInt64.size then some (.ofNat n)
  else none

end NumberLiteral
end DocumentModel.Json

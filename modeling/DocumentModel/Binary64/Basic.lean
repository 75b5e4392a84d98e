/-! Binary floating-point numbers of 64 bits, held as their bit pattern.

A pattern splits into a sign, eleven exponent bits and fifty-two fraction bits. A finite
pattern stands for `± mantissa * 2 ^ exponent`, and every other reading of a number here
(order, equality, the integer it equals) is defined from these parts, in exact arithmetic.

`Binary64.integer?` is the exact integer a number stands for, if it stands for one. -/
namespace DocumentModel

/-- A 64-bit binary floating-point number. -/
structure Binary64 where
  /-- Sign, exponent and fraction, the sign uppermost. -/
  bits : UInt64
  deriving DecidableEq

namespace Binary64

/-! ### The parts of a pattern -/

/-- The weight of the sign bit, `2 ^ 63`. -/
def signBit : Nat := 0x8000000000000000

/-- The weight of the lowest exponent bit, `2 ^ 52`, which is also that of the leading bit of
a mantissa. -/
def impliedBit : Nat := 0x10000000000000

/-- Whether the sign bit is set; it is for the negative zero and may be for a number that
is none. -/
def isNegative (x : Binary64) : Bool := signBit ≤ x.bits.toNat

/-- The pattern without its sign. -/
def magnitude (x : Binary64) : Nat := x.bits.toNat % signBit

/-- The eleven exponent bits. -/
def exponentField (x : Binary64) : Nat := x.magnitude / impliedBit

/-- The fifty-two fraction bits. -/
def fraction (x : Binary64) : Nat := x.magnitude % impliedBit

/-- Finite patterns are those whose exponent bits are not all set. -/
def isFinite (x : Binary64) : Bool := x.exponentField < 2047

/-- Whether the pattern stands for no number at all. -/
def isNaN (x : Binary64) : Bool := x.exponentField = 2047 ∧ x.fraction ≠ 0

/-- The whole number that a finite pattern scales; the leading bit is implied unless the
exponent bits are all clear. -/
def mantissa (x : Binary64) : Nat :=
  if x.exponentField = 0 then x.fraction else impliedBit + x.fraction

/-- The power of two that scales the mantissa. -/
def exponent (x : Binary64) : Int := (max x.exponentField 1 : Nat) - 1075

/-- The pattern with a sign and a magnitude below the sign bit. -/
def ofParts (negative : Bool) (magnitude : Nat) : Binary64 :=
  ⟨.ofNat (if negative then signBit + magnitude else magnitude)⟩

/-- The zero with a sign. -/
def zero (negative : Bool) : Binary64 := ofParts negative 0

/-- The number one. -/
def one : Binary64 := ofParts false (1023 * impliedBit)

/-- The infinity with a sign. -/
def infinity (negative : Bool) : Binary64 := ofParts negative (2047 * impliedBit)

/-! ### Order and equality

Patterns without their sign stand in the order of the numbers they are for, so a signed
magnitude orders all numbers, and gives the two zeros one place. -/

/-- A number's place among all numbers. -/
def place (x : Binary64) : Int := if x.isNegative then -x.magnitude else x.magnitude

/-- Equality as numbers: the zeros are equal, and what is no number equals nothing. -/
def numEq (x y : Binary64) : Bool := !x.isNaN && !y.isNaN && x.place == y.place

theorem numEq_iff {x y : Binary64} :
    x.numEq y = true ↔ x.isNaN = false ∧ y.isNaN = false ∧ x.place = y.place := by
  simp [numEq, and_assoc]

/-- Greater than zero. -/
def isPositive (x : Binary64) : Bool := !x.isNaN && 0 < x.place

/-! ### Whole numbers -/

/-- The exact integer that a number is, if it is one. -/
def integer? (x : Binary64) : Option Int :=
  let signed (n : Nat) : Int := if x.isNegative then -n else n
  if !x.isFinite then none
  else if 0 ≤ x.exponent then some (signed (x.mantissa <<< x.exponent.toNat))
  else if x.mantissa % (1 <<< (-x.exponent).toNat) = 0 then
    some (signed (x.mantissa >>> (-x.exponent).toNat))
  else none

end Binary64

/-! ### The narrower format -/

/-- A 32-bit binary floating-point number: a sign, eight exponent bits and twenty-three
fraction bits. -/
structure Binary32 where
  bits : UInt32
  deriving DecidableEq

/-- The same number in the wider format. Each has one there, so nothing is rounded; a small
number, whose leading bit is not implied, gets it implied. -/
def Binary32.widen (x : Binary32) : Binary64 :=
  let negative := decide (0x80000000 ≤ x.bits.toNat)
  let exponent := x.bits.toNat / 0x800000 % 0x100
  let fraction := x.bits.toNat % 0x800000
  if exponent = 255 then
    .ofParts negative (2047 * Binary64.impliedBit + fraction <<< 29)
  else if exponent = 0 then
    if fraction = 0 then .zero negative
    else
      let top := fraction.log2
      .ofParts negative ((top + 873) * Binary64.impliedBit + fraction <<< (52 - top))
  else
    .ofParts negative ((exponent + 896) * Binary64.impliedBit + fraction <<< 29)

end DocumentModel

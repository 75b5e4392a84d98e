import DocumentModel.Binary64.Basic

/-! Rounding an exact quotient to the nearest 64-bit floating-point number, and the operations that
round.

`nearest negative num den` is the number closest to `± num / den`, the even mantissa on a
tie, and an infinity past the largest number. The quotient is scaled so that its whole part
has fifty-three bits (fewer below the smallest exponent) and rounded once, and a mantissa
that rounds up to the next power of two carries into the exponent by itself: the magnitude
of a pattern counts the numbers from zero upward. -/
namespace DocumentModel.Binary64

/-- The whole number nearest to a quotient, the even one on a tie. -/
def roundHalfEven (num den : Nat) : Nat :=
  let whole := num / den
  let rest := 2 * (num % den)
  if den < rest ∨ (rest = den ∧ whole % 2 = 1) then whole + 1 else whole

/-- The exponent of the leading bit of a positive quotient. -/
def leadingExponent (num den : Nat) : Int :=
  let guess : Int := (num.log2 : Int) - den.log2
  if num <<< (-guess).toNat < den <<< guess.toNat then guess - 1 else guess

/-- The number nearest to `± num / den`. -/
def nearest (negative : Bool) (num den : Nat) : Binary64 :=
  if num = 0 then zero negative
  else
    let scale : Int := max (leadingExponent num den - 52) (-1074)
    let mantissa := roundHalfEven (num <<< (-scale).toNat) (den <<< scale.toNat)
    let magnitude := (scale + 1074).toNat * impliedBit + mantissa
    if magnitude < 2047 * impliedBit then ofParts negative magnitude else infinity negative

/-- The number nearest to an integer. -/
def ofInt (n : Int) : Binary64 := nearest (n < 0) n.natAbs 1

/-- The product of two finite numbers. -/
def mul (x y : Binary64) : Binary64 :=
  let scale := x.exponent + y.exponent
  nearest (x.isNegative != y.isNegative) ((x.mantissa * y.mantissa) <<< scale.toNat)
    (1 <<< (-scale).toNat)

/-- The quotient of two finite numbers, of which the second is not zero. -/
def div (x y : Binary64) : Binary64 :=
  let scale := x.exponent - y.exponent
  nearest (x.isNegative != y.isNegative) (x.mantissa <<< scale.toNat)
    (y.mantissa <<< (-scale).toNat)

/-- The number of the other sign. -/
def neg (x : Binary64) : Binary64 := ofParts (!x.isNegative) x.magnitude

end DocumentModel.Binary64

import DocumentModel.Binary64.Basic

/-! The shortest decimal digits that read back as a given floating-point number.

A finite number is the nearest one to every real in an interval around it, whose ends
belong to it when the mantissa is even. Of the decimal grids `10 ^ k`, from coarse to fine,
the first one with a point in that interval fixes the count of digits, and if both
neighbours of the number on that grid lie in it, the nearer is taken. -/
namespace DocumentModel.Binary64

/-- A decimal number `digits * 10 ^ power`. -/
structure Decimal where
  digits : Nat
  power : Int

/-- Which of two equally near decimals is taken. -/
inductive Tie
  /-- The one with the even last digit. -/
  | toEven
  /-- The one further from zero. -/
  | away

/-- A positive number and the ends of the interval that rounds to it, as multiples of
`2 ^ scale`. -/
structure Interval where
  low : Nat
  middle : Nat
  high : Nat
  /-- Whether the ends round to the number too. -/
  closed : Bool
  scale : Int

/-- The interval of a finite number; below a power of two the numbers lie twice as close. -/
def interval (x : Binary64) : Interval where
  low := 4 * x.mantissa - if x.fraction = 0 ∧ 1 < x.exponentField then 1 else 2
  middle := 4 * x.mantissa
  high := 4 * x.mantissa + 2
  closed := x.mantissa % 2 = 0
  scale := x.exponent - 2

namespace Interval

/-- The point of the grid `10 ^ power` in an interval that is nearest to its middle. -/
def point? (i : Interval) (tie : Tie) (power : Int) : Option Nat :=
  let unit := Nat.pow 10 (-power).toNat <<< i.scale.toNat
  let grid := Nat.pow 10 power.toNat <<< (-i.scale).toNat
  let low := i.low * unit
  let middle := i.middle * unit
  let high := i.high * unit
  let inside (d : Nat) : Bool :=
    if i.closed then low ≤ d * grid ∧ d * grid ≤ high else low < d * grid ∧ d * grid < high
  let below := middle / grid
  let above := below + 1
  let rest := 2 * (middle % grid)
  let downward := rest < grid || (rest == grid &&
    match tie with
    | .toEven => below % 2 == 0
    | .away => false)
  match inside below, inside above with
  | true, true => some (if downward then below else above)
  | true, false => some below
  | false, true => some above
  | false, false => none

end Interval

/-- Drops the zeros at the end of a decimal; the fuel bounds their count. -/
def Decimal.trim (d : Decimal) : Nat → Decimal
  | 0 => d
  | fuel + 1 => if d.digits % 10 = 0 then Decimal.trim ⟨d.digits / 10, d.power + 1⟩ fuel else d

/-- An exponent of ten that is not below the leading one of the number, and close to it. -/
def coarsest (x : Binary64) : Int := (x.exponent + x.mantissa.log2 + 1) * 30103 / 100000 + 1

/-- The shortest decimal that reads back as a finite number without its sign. Seventeen
digits always do, so the grids that are tried reach twenty places down. -/
def shortest (x : Binary64) (tie : Tie) : Decimal :=
  if x.mantissa = 0 then ⟨0, 0⟩
  else
    let powers := (List.range 21).map fun (i : Nat) => x.coarsest - i
    let found := powers.findSome? fun power =>
      (x.interval.point? tie power).map fun digits => (⟨digits, power⟩ : Decimal)
    match found with
    | some d => d.trim d.digits.log2
    | none => ⟨0, 0⟩

end DocumentModel.Binary64

import DocumentModel.Binary64.Shortest

/-! Written forms of floating-point numbers.

The digits of a number are always its shortest ones; a `Layout` decides where the point
stands and when an exponent is written instead. `toText` is the form used in messages. -/
namespace DocumentModel.Binary64

/-- The choices of one written form. -/
structure Layout where
  /-- Whether a number whose first digit counts `10 ^ e` is written without an exponent. -/
  positional : Int → Bool
  /-- Whether a whole number written without an exponent still gets a point and a zero. -/
  keepPoint : Bool
  /-- Which of two equally near shortest forms is taken. -/
  tie : Tie

/-- Digits with the point placed for `10 ^ power` on the last of them. -/
def pointed (keepPoint : Bool) (digits : List Char) (power : Int) : List Char :=
  let whole := (digits.length : Int) + power
  if 0 ≤ power then
    digits ++ List.replicate power.toNat '0' ++ if keepPoint then ['.', '0'] else []
  else if whole ≤ 0 then
    ['0', '.'] ++ List.replicate (-whole).toNat '0' ++ digits
  else
    digits.take whole.toNat ++ '.' :: digits.drop whole.toNat

/-- Digits with a point after the first, and a signed exponent. -/
def scientific (digits : List Char) (first : Int) : List Char :=
  let mantissa := match digits with
    | d :: rest@(_ :: _) => d :: '.' :: rest
    | _ => digits
  mantissa ++ ['e', if first < 0 then '-' else '+'] ++ Nat.toDigits 10 first.natAbs

/-- The text of a finite number. -/
def layOut (layout : Layout) (x : Binary64) : String :=
  let d := x.shortest layout.tie
  let digits := Nat.toDigits 10 d.digits
  let first := d.power + digits.length - 1
  let body :=
    if layout.positional first then pointed layout.keepPoint digits d.power
    else scientific digits first
  String.ofList (if x.isNegative then '-' :: body else body)

/-- Numbers in messages have no exponent, and whole ones no point. -/
def plain : Layout := ⟨fun _ => true, false, .away⟩

/-- The text of a number in a message. -/
def toText (x : Binary64) : String :=
  if x.isNaN then "NaN"
  else if !x.isFinite then if x.isNegative then "-inf" else "inf"
  else x.layOut plain

end DocumentModel.Binary64

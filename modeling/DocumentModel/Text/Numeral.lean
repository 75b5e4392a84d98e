/-! Decimal numerals: the number that a run of digits stands for, and the digits of a number
with zeros before them. Reading the digits of a number gives the number back
(`numeral_toDigits`). -/
namespace DocumentModel.Text

/-- The number that a run of decimal digits stands for. -/
def numeral (digits : List Char) : Nat :=
  digits.foldl (fun n d => 10 * n + (d.toNat - '0'.toNat)) 0

/-- The digits of a number, with zeros before them up to a width. -/
def padded (width n : Nat) : List Char :=
  let digits := Nat.toDigits 10 n
  List.replicate (width - digits.length) '0' ++ digits

/-- A further digit counts ones, and those before it tens. -/
theorem numeral_append (digits : List Char) (d : Char) :
    numeral (digits ++ [d]) = 10 * numeral digits + (d.toNat - '0'.toNat) := by
  simp [numeral]

theorem numeral_toDigits (n : Nat) : numeral (Nat.toDigits 10 n) = n := by
  induction n using Nat.strongRecOn with
  | _ n ih =>
    by_cases h : n < 10
    · rw [Nat.toDigits_of_lt_base h]
      simp [numeral, Nat.toNat_digitChar_sub_48_of_lt_ten, h]
    · have hlast : n % 10 < 10 := Nat.mod_lt _ (by decide)
      have hdigits := Nat.toDigits_append_toDigits (b := 10) (by decide)
        (show 0 < n / 10 by omega) hlast
      rw [show 10 * (n / 10) + n % 10 = n by omega, Nat.toDigits_of_lt_base hlast] at hdigits
      rw [← hdigits, numeral_append, ih _ (by omega), Nat.toNat_digitChar_of_lt_ten hlast]
      show 10 * (n / 10) + (48 + n % 10 - 48) = n
      omega

end DocumentModel.Text

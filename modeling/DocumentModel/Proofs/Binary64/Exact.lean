import DocumentModel.Binary64.Basic
import Mathlib.Algebra.Order.Field.Power
import Mathlib.Algebra.Order.Field.Rat

/-! The exact number that a finite pattern stands for.

A finite pattern is `± mantissa * 2 ^ exponent`, which is a rational number (`toRat`). It is a
given integer exactly if an equation of whole numbers holds in which the power of two stands on
the side where it is no fraction (`toRat_eq_intCast_iff`), and the shifts of `integer?` decide
this equation: `integer?_eq_some_iff`. -/
namespace DocumentModel.Binary64

variable {x : Binary64} {i : Int}

/-- A whole number with a sign. -/
def signed (negative : Bool) (n : Nat) : Int := if negative then -n else n

/-- The number that a finite pattern stands for. -/
def toRat (x : Binary64) : ℚ := signed x.isNegative x.mantissa * 2 ^ x.exponent

theorem natAbs_signed (negative : Bool) (n : Nat) : (signed negative n).natAbs = n := by
  cases negative <;> simp [signed]

theorem signed_mul (negative : Bool) (n k : Nat) :
    signed negative (n * k) = signed negative n * k := by
  cases negative <;> simp [signed]

/-- A whole number is a multiple exactly if the division leaves nothing, and then it gives the
factor. -/
theorem signed_eq_mul_iff {negative : Bool} {n d : Nat} (hd : d ≠ 0) :
    signed negative n = i * d ↔ n % d = 0 ∧ signed negative (n / d) = i := by
  have hd' : (d : Int) ≠ 0 := Int.natCast_ne_zero.2 hd
  constructor
  · intro h
    have hdvd : (d : Int) ∣ signed negative n := ⟨i, by rw [h, mul_comm]⟩
    rw [Int.natCast_dvd, natAbs_signed] at hdvd
    obtain ⟨k, rfl⟩ := hdvd
    rw [Nat.mul_comm, signed_mul] at h
    rw [Nat.mul_div_cancel_left _ (Nat.pos_of_ne_zero hd)]
    exact ⟨Nat.mul_mod_right .., Int.eq_of_mul_eq_mul_right hd' h⟩
  · rintro ⟨hmod, rfl⟩
    rw [← signed_mul, Nat.div_mul_cancel (Nat.dvd_of_mod_eq_zero hmod)]

theorem toRat_eq_intCast_iff :
    x.toRat = i ↔ signed x.isNegative (x.mantissa * 2 ^ x.exponent.toNat) =
      i * (2 ^ (-x.exponent).toNat : Nat) := by
  have hpow : (2 : ℚ) ^ x.exponent * 2 ^ (-x.exponent).toNat = 2 ^ x.exponent.toNat := by
    rw [← zpow_natCast, ← zpow_natCast, ← zpow_add₀ two_ne_zero]
    congr 1
    omega
  have hne : (2 : ℚ) ^ (-x.exponent).toNat ≠ 0 := pow_ne_zero _ two_ne_zero
  calc x.toRat = i
    _ ↔ x.toRat * 2 ^ (-x.exponent).toNat = i * 2 ^ (-x.exponent).toNat :=
        (mul_left_inj' hne).symm
    _ ↔ (signed x.isNegative x.mantissa : ℚ) * 2 ^ x.exponent.toNat =
          i * 2 ^ (-x.exponent).toNat := by
        rw [toRat, mul_assoc, hpow]
    _ ↔ _ := by
        rw [signed_mul]
        norm_cast

/-- An integer is found exactly if the number is that integer. -/
theorem integer?_eq_some_iff : x.integer? = some i ↔ x.isFinite = true ∧ x.toRat = i := by
  have hinteger : x.integer? =
      if !x.isFinite then none
      else if 0 ≤ x.exponent then
        some (signed x.isNegative (x.mantissa <<< x.exponent.toNat))
      else if x.mantissa % (1 <<< (-x.exponent).toNat) = 0 then
        some (signed x.isNegative (x.mantissa >>> (-x.exponent).toNat))
      else none := rfl
  rw [toRat_eq_intCast_iff, hinteger, Nat.shiftLeft_eq, Nat.one_shiftLeft,
    Nat.shiftRight_eq_div_pow]
  cases x.isFinite with
  | false => simp
  | true =>
    by_cases hexponent : 0 ≤ x.exponent
    · -- The mantissa is scaled up, and the other side of the equation is the integer itself.
      have hzero : (-x.exponent).toNat = 0 := by omega
      simp [hexponent, hzero]
    · have hzero : x.exponent.toNat = 0 := by omega
      have hne : 2 ^ (-x.exponent).toNat ≠ 0 := pow_ne_zero _ two_ne_zero
      rw [hzero, pow_zero, mul_one, signed_eq_mul_iff hne]
      simp [hexponent]

end DocumentModel.Binary64

import DocumentModel.Binary64.Rounding
import DocumentModel.Proofs.Binary64.Exact

/-! Integers as floating-point numbers.

An integer is scaled so that fifty-three bits of it are left (`scaled_eq`), and these may be
rounded up once, so that the number nearest to an integer of sixty-four bits is told by its leading
bit and a mantissa between two powers of two (`nearest_one`). So it stays far below the largest
number and is finite (`isFinite_ofInt`), and rounding does not lead below a power of two:
`two_pow_le_toRat_ofInt`. -/
namespace DocumentModel.Binary64

/-! ### Parts -/

theorem toNat_bits_ofParts {negative : Bool} {m : Nat} (h : m < signBit) :
    (ofParts negative m).bits.toNat = if negative then signBit + m else m := by
  unfold ofParts signBit at *
  cases negative
  all_goals
    simp only [Bool.false_eq_true, if_true, if_false, UInt64.toNat_ofNat']
    omega

theorem magnitude_ofParts {negative : Bool} {m : Nat} (h : m < signBit) :
    (ofParts negative m).magnitude = m := by
  rw [magnitude, toNat_bits_ofParts h]
  cases negative
  · exact Nat.mod_eq_of_lt h
  · exact (Nat.add_mod_left ..).trans (Nat.mod_eq_of_lt h)

theorem isNegative_ofParts {negative : Bool} {m : Nat} (h : m < signBit) :
    (ofParts negative m).isNegative = negative := by
  rw [isNegative, toNat_bits_ofParts h]
  cases negative
  · exact decide_eq_false (Nat.not_le.2 h)
  · exact decide_eq_true (Nat.le_add_right ..)

/-- A magnitude below that of the infinities is that of a finite number. -/
theorem isFinite_ofParts {m : Nat} (negative : Bool) (h : m < 2047 * impliedBit) :
    (ofParts negative m).isFinite = true := by
  have hsign : m < signBit := Nat.lt_trans h (by decide)
  rw [isFinite, exponentField, magnitude_ofParts hsign]
  rw [Nat.mul_comm] at h
  exact decide_eq_true (Nat.div_lt_of_lt_mul h)

/-- The exponent bits of a number tell a power of two that it is not below. -/
theorem two_pow_le_toRat_ofParts {m k : Nat} (h : (k + 1023) * impliedBit ≤ m) (hm : m < signBit) :
    (2 : ℚ) ^ k ≤ (ofParts false m).toRat := by
  have hfield : k + 1023 ≤ (ofParts false m).exponentField := by
    rw [exponentField, magnitude_ofParts hm]
    exact (Nat.le_div_iff_mul_le (by decide)).2 h
  have hmantissa : (2 ^ 52 : ℚ) ≤ (ofParts false m).mantissa := by
    have himplied : 2 ^ 52 ≤ (ofParts false m).mantissa := by
      rw [mantissa, if_neg (by omega)]
      exact Nat.le_add_right ..
    exact_mod_cast himplied
  have hpower : (2 : ℚ) ^ ((k : Int) - 52) ≤ 2 ^ (ofParts false m).exponent := by
    refine zpow_le_zpow_right₀ one_le_two ?_
    rw [exponent]
    omega
  rw [toRat, isNegative_ofParts hm, signed, if_neg Bool.false_ne_true, Int.cast_natCast]
  calc (2 : ℚ) ^ k
    _ = 2 ^ 52 * 2 ^ ((k : Int) - 52) := by
        rw [← zpow_natCast, ← zpow_natCast, ← zpow_add₀ two_ne_zero]
        congr 1
        omega
    _ ≤ (ofParts false m).mantissa * 2 ^ (ofParts false m).exponent := by
        exact mul_le_mul hmantissa hpower (zpow_nonneg zero_le_two _) (Nat.cast_nonneg _)

/-! ### Rounding -/

theorem roundHalfEven_mem (num den : Nat) :
    num / den ≤ roundHalfEven num den ∧ roundHalfEven num den ≤ num / den + 1 := by
  unfold roundHalfEven
  dsimp only
  split <;> omega

/-- The leading bit of an integer is that of its binary logarithm. -/
theorem leadingExponent_one {num : Nat} (h : num ≠ 0) : leadingExponent num 1 = num.log2 := by
  have hlog : 2 ^ num.log2 ≤ num := Nat.log2_self_le h
  have hone : (1 : Nat).log2 = 0 := by decide
  have hneg : (-((num.log2 : Int) - (0 : Nat))).toNat = 0 := by omega
  have hpos : ((num.log2 : Int) - (0 : Nat)).toNat = num.log2 := by omega
  unfold leadingExponent
  dsimp only
  rw [hone, hneg, hpos, Nat.shiftLeft_eq, Nat.shiftLeft_eq, if_neg (by omega)]
  omega

/-- Scaling an integer moves its leading bit to the place of the implied one. -/
theorem scaled_eq (num : Nat) :
    (num <<< (-((num.log2 : Int) - 52)).toNat) / (1 <<< ((num.log2 : Int) - 52).toNat) =
      num * impliedBit / 2 ^ num.log2 := by
  have hbits : impliedBit = 2 ^ 52 := by decide
  simp only [Nat.shiftLeft_eq, Nat.one_mul, hbits]
  by_cases hlog : num.log2 ≤ 52
  · have hzero : ((num.log2 : Int) - 52).toNat = 0 := by omega
    have hscale : (-((num.log2 : Int) - 52)).toNat = 52 - num.log2 := by omega
    rw [hzero, hscale, Nat.pow_zero, Nat.div_one, ← Nat.pow_div hlog (by decide),
      Nat.mul_div_assoc _ (Nat.pow_dvd_pow 2 hlog)]
  · have hzero : (-((num.log2 : Int) - 52)).toNat = 0 := by omega
    have hscale : ((num.log2 : Int) - 52).toNat = num.log2 - 52 := by omega
    have hsplit : 2 ^ num.log2 = 2 ^ (num.log2 - 52) * 2 ^ 52 := by
      rw [← Nat.pow_add, Nat.sub_add_cancel (Nat.le_of_not_le hlog)]
    rw [hzero, hscale, Nat.pow_zero, Nat.mul_one, hsplit,
      Nat.mul_div_mul_right _ _ (Nat.two_pow_pos 52)]

/-- Fifty-three bits of an integer are left when it is scaled. -/
theorem scaled_mem {num : Nat} (h : num ≠ 0) :
    impliedBit ≤ num * impliedBit / 2 ^ num.log2 ∧
      num * impliedBit / 2 ^ num.log2 < 2 * impliedBit := by
  have hle : 2 ^ num.log2 ≤ num := Nat.log2_self_le h
  have hlt : num < 2 * 2 ^ num.log2 := by
    rw [← Nat.pow_succ']
    exact Nat.lt_log2_self
  rw [Nat.le_div_iff_mul_le (Nat.two_pow_pos _), Nat.div_lt_iff_lt_mul (Nat.two_pow_pos _)]
  constructor
  · rw [Nat.mul_comm]
    exact Nat.mul_le_mul_right _ hle
  · rw [Nat.mul_right_comm]
    exact Nat.mul_lt_mul_of_pos_right hlt (by decide)

/-- The number nearest to an integer of sixty-four bits has a leading bit that is not below that of
the integer. It may be one above it, since a mantissa that is rounded up carries into the
exponent. -/
theorem nearest_one {num : Nat} (negative : Bool) (hzero : num ≠ 0)
    (h : num < 0x10000000000000000) :
    ∃ m, (num.log2 + 1023) * impliedBit ≤ m ∧ m < 2047 * impliedBit ∧
      nearest negative num 1 = ofParts negative m := by
  have hlog : num.log2 < 64 := (Nat.log2_lt hzero).2 h
  have hscale : max ((num.log2 : Int) - 52) (-1074) = (num.log2 : Int) - 52 := by omega
  have hexponent : ((num.log2 : Int) - 52 + 1074).toNat = num.log2 + 1022 := by omega
  have hround := roundHalfEven_mem (num <<< (-((num.log2 : Int) - 52)).toNat)
    (1 <<< ((num.log2 : Int) - 52).toNat)
  have hscaled := scaled_mem hzero
  have hfields := Nat.mul_le_mul_right impliedBit (show num.log2 + 1022 ≤ 1085 by omega)
  rw [scaled_eq] at hround
  unfold nearest
  rw [if_neg hzero, leadingExponent_one hzero]
  dsimp only
  rw [hscale, hexponent]
  refine ⟨_, ?_, ?_, if_pos ?_⟩
  · rw [show num.log2 + 1023 = num.log2 + 1022 + 1 from rfl, Nat.succ_mul]
    omega
  all_goals
    unfold impliedBit at *
    omega

theorem isFinite_nearest_one (negative : Bool) {num : Nat} (h : num < 0x10000000000000000) :
    (nearest negative num 1).isFinite = true := by
  by_cases hzero : num = 0
  · rw [nearest, if_pos hzero]
    exact isFinite_ofParts negative (by decide)
  · obtain ⟨m, -, hm, hnearest⟩ := nearest_one negative hzero h
    rw [hnearest]
    exact isFinite_ofParts negative hm

/-- The number nearest to an integer of sixty-four bits is finite. -/
theorem isFinite_ofInt {n : Int} (h : -0x8000000000000000 ≤ n ∧ n < 0x10000000000000000) :
    (ofInt n).isFinite = true :=
  isFinite_nearest_one _ (by omega)

/-- Rounding does not lead below a power of two. -/
theorem two_pow_le_toRat_ofInt {n : Int} {k : Nat} (hle : 2 ^ k ≤ n) (h : n < 0x10000000000000000) :
    (2 : ℚ) ^ k ≤ (ofInt n).toRat := by
  have hpos : 0 < (2 : Int) ^ k := pow_pos two_pos k
  obtain ⟨num, rfl⟩ : ∃ num : Nat, n = num := ⟨n.toNat, by omega⟩
  have hzero : num ≠ 0 := by omega
  have hlog : k ≤ num.log2 := (Nat.le_log2 hzero).2 (by exact_mod_cast hle)
  have hnegative : decide ((num : Int) < 0) = false := decide_eq_false (by omega)
  obtain ⟨m, hm, hbelow, hnearest⟩ := nearest_one false hzero (by omega)
  rw [ofInt, hnegative, Int.natAbs_natCast, hnearest]
  calc (2 : ℚ) ^ k
    _ ≤ 2 ^ num.log2 := pow_le_pow_right₀ one_le_two hlog
    _ ≤ (ofParts false m).toRat :=
        two_pow_le_toRat_ofParts hm (Nat.lt_trans hbelow (by decide))

end DocumentModel.Binary64

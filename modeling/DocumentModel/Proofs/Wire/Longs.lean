import DocumentModel.Proofs.Binary64.Integers
import DocumentModel.Proofs.Wire.RoundTrip

/-! Integers under their tag.

A payload that is a signed word is taken as it is, and any other number goes through the nearest
floating-point number and is tested against bounds that are powers of two. The test is exact: a
floating-point number is already the nearest to itself, and a word that is no signed one is at least
`2 ^ 63`, below which rounding does not lead. So an integer is read exactly if the payload is that
integer, and nothing is rounded or cut off: `decodePayload_numberLong`. -/
namespace DocumentModel

/-- The exact number that a number of JSON is. -/
def Json.Number.toRat : Json.Number → ℚ
  | .integer n _ => n
  | .double x _ => x.toRat

namespace Wire

variable {n : Json.Number} {w : Int64} {i : Int}

/-- The word of an integer in the range of words has this integer. -/
theorem ofInt_eq_iff (h : -0x8000000000000000 ≤ i ∧ i < 0x8000000000000000) :
    Int64.ofInt i = w ↔ w.toInt = i := by
  constructor
  · rintro rfl
    exact Int64.toInt_ofInt_of_le h.1 h.2
  · rintro rfl
    exact Int64.ofInt_toInt w

/-- A number without a word of its own is taken for the integer that the nearest floating-point
number is. -/
theorem long?_of_toInt64?_eq_none (h : n.toInt64? = none) :
    long? n = some w ↔ n.toBinary64.integer? = some w.toInt := by
  have hmem : -0x8000000000000000 ≤ w.toInt ∧ w.toInt < 0x8000000000000000 :=
    ⟨w.le_toInt, w.toInt_lt⟩
  rw [long?, h]
  dsimp only
  cases n.toBinary64.integer? with
  | none => simp
  | some i =>
    simp only [Option.some.injEq]
    split
    · next hi => rw [Option.some.injEq, ofInt_eq_iff hi, eq_comm]
    · next hi =>
      refine iff_of_false (Option.some_ne_none w).symm ?_
      rintro rfl
      exact hi hmem

/-- A word is read exactly if the number is the integer of this word. -/
theorem long?_eq_some_iff : long? n = some w ↔ n.toRat = w.toInt := by
  cases n with
  | double x finite =>
    have hword : (Json.Number.double x finite).toInt64? = none := rfl
    rw [long?_of_toInt64?_eq_none hword, Json.Number.toBinary64, Binary64.integer?_eq_some_iff,
      and_iff_right finite]
    rfl
  | integer m mem =>
    rw [Json.Number.toRat, Rat.intCast_inj]
    by_cases hlt : m < 0x8000000000000000
    · have hword : (Json.Number.integer m mem).toInt64? = some (.ofInt m) := if_pos hlt
      rw [long?, hword, Option.some.injEq, ofInt_eq_iff ⟨mem.1, hlt⟩, eq_comm]
    · -- The number is rounded, but to one that is no less than the power of two it is not below.
      have hword : (Json.Number.integer m mem).toInt64? = none := if_neg hlt
      have hw : w.toInt < 0x8000000000000000 := w.toInt_lt
      have hround : (2 : ℚ) ^ 63 ≤ (Binary64.ofInt m).toRat :=
        Binary64.two_pow_le_toRat_ofInt (Int.not_lt.1 hlt) mem.2
      rw [long?_of_toInt64?_eq_none hword, Binary64.integer?_eq_some_iff]
      refine iff_of_false ?_ (by omega)
      rintro ⟨-, heq⟩
      rw [Json.Number.toBinary64] at heq
      rw [heq] at hround
      have hword : (2 : Int) ^ 63 ≤ w.toInt := by exact_mod_cast hround
      omega

/-- **Under the tag of integers a number is read exactly, or refused.** It is read as an integer if
and only if it is this integer and a signed word has it, whether it is written as an integer or as
a floating-point number, so that nothing is rounded and nothing is cut off. Any other number is
refused with the error that tells it. -/
theorem decodePayload_numberLong (n : Json.Number) :
    (∀ i : Int,
      (∃ w : Int64, decodePayload .numberLong (.number n) = .ok (.int w) ∧ w.toInt = i) ↔
        n.toRat = i ∧ -2 ^ 63 ≤ i ∧ i ≤ 2 ^ 63 - 1) ∧
    ∀ e : Error, decodePayload .numberLong (.number n) = .error e ↔
      (¬ ∃ i : Int, n.toRat = i ∧ -2 ^ 63 ≤ i ∧ i ≤ 2 ^ 63 - 1) ∧
        e = .because .typeTranslation s!"$numberLong expects an integer, got {n.toText}" := by
  have hread : decodePayload .numberLong (.number n) =
      (long? n).elim (mistyped s!"$numberLong expects an integer, got {n.toText}")
        fun w => .ok (.int w) := by
    simp only [decodePayload, expectNumber, bind, Except.bind]
    cases long? n <;> rfl
  have hlong : ∀ i : Int, (∃ w : Int64, long? n = some w ∧ w.toInt = i) ↔
      n.toRat = i ∧ -2 ^ 63 ≤ i ∧ i ≤ 2 ^ 63 - 1 := by
    intro i
    constructor
    · rintro ⟨w, hw, rfl⟩
      exact ⟨long?_eq_some_iff.1 hw, w.le_toInt, Int.le_sub_one_of_lt w.toInt_lt⟩
    · rintro ⟨hi, hle, hlt⟩
      have hw : (Int64.ofInt i).toInt = i := Int64.toInt_ofInt_of_le hle (Int.lt_of_le_sub_one hlt)
      exact ⟨.ofInt i, long?_eq_some_iff.2 (by rw [hi, hw]), hw⟩
  simp only [← hlong]
  rw [hread]
  cases long? n with
  | none => simp [mistyped, eq_comm]
  | some w => simp

/-- The least word is a floating-point number too, but the power of two behind the greatest word is
none, nor is a number without sign that is rounded to one. -/
example :
    long? (.double ⟨0xC3E0000000000000⟩ (by decide)) = some Int64.minValue ∧
      long? (.double ⟨0x43E0000000000000⟩ (by decide)) = none ∧
      long? (.integer 0x8000000000000000 (by decide)) = none := by
  decide

end Wire
end DocumentModel

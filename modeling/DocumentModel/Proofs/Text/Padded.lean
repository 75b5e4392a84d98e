import DocumentModel.Text.Blank
import DocumentModel.Text.Numeral
import Mathlib.Algebra.Group.Nat.Defs
import Mathlib.Data.List.Induction

/-! Padded numerals, read back.

A number written with zeros before it consists of digits, has the width it was given if it
fits, and stands for the number: `numeral_padded`. Since a digit is no blank, a padded
numeral is also a whole run of digits in front of anything that does not go on with one
(`takeWhile_isDigit_append`). -/
namespace DocumentModel.Text

/-! ### Digits -/

theorem isDigit_of_mem_padded {width n : Nat} {c : Char} (h : c ∈ padded width n) :
    c.isDigit = true := by
  rcases List.mem_append.1 h with h | h
  · rw [List.eq_of_mem_replicate h]
    rfl
  · exact Nat.isDigit_of_mem_toDigits (by decide) (by decide) h

theorem padded_ne_nil (width n : Nat) : padded width n ≠ [] :=
  List.append_ne_nil_of_right_ne_nil _ Nat.toDigits_ne_nil

theorem length_padded {width n : Nat} (hw : 0 < width) (h : n < 10 ^ width) :
    (padded width n).length = width := by
  have hle : (Nat.toDigits 10 n).length ≤ width :=
    (Nat.length_toDigits_le_iff (by decide) hw).2 h
  simp only [padded, List.length_append, List.length_replicate]
  omega

/-! ### The number of padded digits -/

/-- Zeros in front add nothing to a numeral. -/
theorem numeral_replicate_append (count : Nat) (digits : List Char) :
    numeral (List.replicate count '0' ++ digits) = numeral digits := by
  induction count with
  | zero => rfl
  | succ count ih => exact ih

theorem numeral_padded (width n : Nat) : numeral (padded width n) = n := by
  rw [padded, numeral_replicate_append, numeral_toDigits]

/-- A digit lies in one short range of code points. -/
theorem toNat_of_isDigit {c : Char} (h : c.isDigit = true) : 48 ≤ c.toNat ∧ c.toNat ≤ 57 := by
  simp only [Char.isDigit, Bool.and_eq_true, decide_eq_true_eq] at h
  exact h

/-- A numeral stays below the power of ten that has as many zeros as it has digits. -/
theorem numeral_lt {digits : List Char} (h : ∀ c ∈ digits, c.isDigit = true) :
    numeral digits < 10 ^ digits.length := by
  induction digits using List.reverseRecOn with
  | nil => decide
  | append_singleton digits d ih =>
    have hd := toNat_of_isDigit (h d (by simp))
    have hlt := ih fun c hc => h c (by simp [hc])
    have hzero : '0'.toNat = 48 := rfl
    rw [numeral_append, List.length_append, List.length_singleton, Nat.pow_succ]
    omega

/-! ### Runs of digits -/

theorem isBlank_of_isDigit {c : Char} (h : c.isDigit = true) : isBlank c = false := by
  have := toNat_of_isDigit h
  simp only [isBlank, Bool.or_eq_false_iff, Bool.and_eq_false_imp, decide_eq_true_eq,
    decide_eq_false_iff_not, beq_eq_false_iff_ne]
  omega

/-- Digits before something that does not go on with one are the whole run. -/
theorem takeWhile_isDigit_append {digits rest : List Char} (hd : ∀ c ∈ digits, c.isDigit = true)
    (hr : rest.head?.any Char.isDigit = false) :
    (digits ++ rest).takeWhile Char.isDigit = digits := by
  rw [List.takeWhile_append_of_pos hd]
  cases rest with
  | nil => simp
  | cons c rest => simp_all

theorem dropWhile_isDigit_append {digits rest : List Char} (hd : ∀ c ∈ digits, c.isDigit = true)
    (hr : rest.head?.any Char.isDigit = false) :
    (digits ++ rest).dropWhile Char.isDigit = rest := by
  rw [List.dropWhile_append_of_pos hd]
  cases rest with
  | nil => rfl
  | cons c rest => simp_all

/-- No blank is skipped before a padded numeral. -/
theorem skipBlanks_padded_append (width n : Nat) (rest : List Char) :
    skipBlanks (padded width n ++ rest) = padded width n ++ rest := by
  obtain ⟨c, cs, h⟩ := List.exists_cons_of_ne_nil (padded_ne_nil width n)
  have hc : c ∈ padded width n := by simp [h]
  rw [h, List.cons_append, skipBlanks, List.dropWhile_cons_of_neg]
  simp [isBlank_of_isDigit (isDigit_of_mem_padded hc)]

end DocumentModel.Text

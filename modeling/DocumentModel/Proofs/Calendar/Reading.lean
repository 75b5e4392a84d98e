import DocumentModel.Calendar.Reading
import DocumentModel.Proofs.Outcome
import DocumentModel.Proofs.Text.Padded

/-! The pieces of dates and times, read back from what is written.

Each reader takes exactly the piece that was written for it and leaves the rest, whatever
the rest is, as long as that does not prolong the piece: a number must not be followed by a
further digit, nor an absent fraction by a point. -/
namespace DocumentModel.Calendar
open Text

theorem readLiteral_cons (c : Char) (rest : List Char) : readLiteral c (c :: rest) = .ok rest :=
  if_pos rfl

/-! ### Numbers -/

theorem readDigits_append {digits rest : List Char} (hne : digits ≠ [])
    (hd : ∀ c ∈ digits, c.isDigit = true) (hr : rest.head?.any Char.isDigit = false) :
    readDigits (digits ++ rest) = .ok (digits, rest) := by
  obtain ⟨c, cs, rfl⟩ := List.exists_cons_of_ne_nil hne
  simp only [readDigits, takeWhile_isDigit_append hd hr, dropWhile_isDigit_append hd hr]

/-- A number is read whole, unless it has more digits than may be read. -/
theorem readNumber_padded {most width n : Nat} {rest : List Char}
    (h : (padded width n).length ≤ most) (hr : rest.head?.any Char.isDigit = false) :
    readNumber most (padded width n ++ rest) = .ok (n, rest) := by
  have hd := readDigits_append (padded_ne_nil width n) (fun _ => isDigit_of_mem_padded) hr
  simp only [readNumber, hd, bind, Except.bind, pure, Except.pure]
  rw [List.take_of_length_le h, List.drop_of_length_le h, numeral_padded, List.nil_append]

/-- A field of two digits within its bounds is read as its number. -/
theorem readField_padded {least most n : Nat} {rest : List Char} (h : least ≤ n ∧ n ≤ most)
    (hn : n < 100) (hr : rest.head?.any Char.isDigit = false) :
    readField least most (padded 2 n ++ rest) = .ok (n, rest) := by
  have hlen : (padded 2 n).length ≤ 2 := Nat.le_of_eq (length_padded (by decide) hn)
  simp only [readField, skipBlanks_padded_append, readNumber_padded hlen hr, bind, Except.bind,
    pure, Except.pure, within, if_pos h]

/-- A run of digits of the right length is read as it is, also before further digits. -/
theorem readFixed_append {digits : List Char} (hd : ∀ c ∈ digits, c.isDigit = true)
    (rest : List Char) : readFixed digits.length (digits ++ rest) = .ok (digits, rest) := by
  induction digits with
  | nil => rfl
  | cons c cs ih =>
    have hc : c.isDigit = true := hd c (List.mem_cons_self ..)
    have ih := ih fun d hm => hd d (List.mem_cons_of_mem c hm)
    simp only [List.length_cons, List.cons_append, readFixed, if_pos hc, ih, bind, Except.bind,
      pure, Except.pure]

theorem readFixed_padded {width n : Nat} (hw : 0 < width) (h : n < 10 ^ width)
    (rest : List Char) : readFixed width (padded width n ++ rest) = .ok (padded width n, rest) := by
  have hd : ∀ c ∈ padded width n, c.isDigit = true := fun _ => isDigit_of_mem_padded
  have hread := readFixed_append hd rest
  rwa [length_padded hw h] at hread

/-- What was read as a run of digits is one, of the right length. -/
theorem digits_of_readFixed {count : Nat} {cs digits rest : List Char}
    (h : readFixed count cs = .ok (digits, rest)) :
    digits.length = count ∧ ∀ c ∈ digits, c.isDigit = true := by
  induction count generalizing cs digits with
  | zero =>
    cases h
    exact ⟨rfl, nofun⟩
  | succ count ih =>
    cases cs with
    | nil => cases h
    | cons c cs =>
      rw [readFixed] at h
      split at h
      · next hc =>
        obtain ⟨⟨digits', rest'⟩, hread, h⟩ := bind_eq_ok_iff.1 h
        cases h
        obtain ⟨hlength, hdigits⟩ := ih hread
        exact ⟨congrArg (· + 1) hlength, List.forall_mem_cons.2 ⟨hc, hdigits⟩⟩
      · cases h

/-! ### Fractions -/

/-- A fraction of a few digits counts as many nanoseconds as its digits weigh. -/
theorem readFraction_padded (width n : Nat) {rest : List Char} (hw : 0 < width) (hm : width ≤ 9)
    (h : n < 10 ^ width) (hr : rest.head?.any Char.isDigit = false) :
    readFraction ('.' :: padded width n ++ rest) = .ok (n * 10 ^ (9 - width), rest) := by
  have hd := readDigits_append (padded_ne_nil width n) (fun _ => isDigit_of_mem_padded) hr
  have hlen := length_padded hw h
  simp only [List.cons_append, readFraction, hd, bind, Except.bind, pure, Except.pure]
  rw [List.take_of_length_le (by omega), numeral_padded, hlen]
  rfl

/-- Nanoseconds are read back from the shortest exact fraction, and zero from none. -/
theorem readFraction_fractionText {nanosecond : Nat} {rest : List Char}
    (h : nanosecond < 1000000000) (hr : rest.head?.any Char.isDigit = false)
    (hp : rest.head? ≠ some '.') :
    readFraction (fractionText nanosecond ++ rest) = .ok (nanosecond, rest) := by
  unfold fractionText
  by_cases h0 : nanosecond = 0
  · rw [if_pos h0, h0]
    cases rest with
    | nil => rfl
    | cons c rest =>
      have hc : c ≠ '.' := by simpa using hp
      simp [readFraction, hc]
  rw [if_neg h0]
  by_cases h3 : nanosecond % 1000000 = 0
  · rw [if_pos h3, readFraction_padded 3 _ (by decide) (by decide) (by omega) hr]
    congr 2
    omega
  rw [if_neg h3]
  by_cases h6 : nanosecond % 1000 = 0
  · rw [if_pos h6, readFraction_padded 6 _ (by decide) (by decide) (by omega) hr]
    congr 2
    omega
  rw [if_neg h6, readFraction_padded 9 _ (by decide) (by decide) h hr]
  congr 2
  omega

/-- A fraction does not go on with the digits before it. -/
theorem head?_fractionText_append (nanosecond : Nat) {rest : List Char}
    (hr : rest.head?.any Char.isDigit = false) :
    (fractionText nanosecond ++ rest).head?.any Char.isDigit = false := by
  unfold fractionText
  split
  · exact hr
  · repeat' split
    all_goals rfl

end DocumentModel.Calendar

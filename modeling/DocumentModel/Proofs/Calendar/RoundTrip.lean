import DocumentModel.Calendar.Instant
import DocumentModel.Proofs.Calendar.Reading
import Mathlib.Data.String.Basic

/-! Dates, times and instants, read back from their texts.

Every date is read back from its text as it was, years with a sign included. So is a time of
day with its leap second, unless that is a stray one: after any second but the last of a minute,
it is written as if it were the second after, and is read as that (`Time.ofText_toText_iff`). An
instant is read back exactly if, besides, its year is written without a sign:
`Instant.ofText_toText_iff`. -/
namespace DocumentModel.Calendar
open Text

/-! ### Dates -/

namespace Date

/-- The parts of a date determine it. -/
theorem of?_parts (d : Date) : of? d.year d.month d.day = some d := by
  rw [of?, dif_pos d.year_mem, dif_pos d.month_mem, dif_pos d.day_mem]

theorem day_le (d : Date) : d.day ≤ 31 := by
  refine Nat.le_trans d.day_mem.2 ?_
  unfold daysInMonth
  repeat' split
  all_goals decide

/-- Four digits are a year without a sign. -/
theorem readYear_unsigned {n : Nat} {rest : List Char} (h : n ≤ 9999)
    (hr : rest.head?.any Char.isDigit = false) :
    readYear (padded 4 n ++ rest) = .ok ((n : Int), rest) := by
  have hlen : (padded 4 n).length = 4 := length_padded (by decide) (by omega)
  have hread := readNumber_padded (Nat.le_of_eq hlen) hr
  obtain ⟨c, cs, hcs⟩ := List.exists_cons_of_ne_nil (padded_ne_nil 4 n)
  have hmem : c ∈ padded 4 n := by simp [hcs]
  have hc : c.isDigit = true := isDigit_of_mem_padded hmem
  have hminus : c ≠ '-' := by
    intro heq
    subst heq
    exact absurd hc (by decide)
  have hplus : c ≠ '+' := by
    intro heq
    subst heq
    exact absurd hc (by decide)
  rw [readYear, skipBlanks_padded_append]
  rw [hcs, List.cons_append] at hread ⊢
  split
  · next h => exact absurd (List.cons.inj h).1 hminus
  · next h => exact absurd (List.cons.inj h).1 hplus
  · rw [hread]
    rfl

/-- Digits after a sign are read whole, however many there are. -/
theorem readNumber_signed {n : Nat} {rest : List Char}
    (hr : rest.head?.any Char.isDigit = false) :
    readNumber (padded 4 n ++ rest).length (padded 4 n ++ rest) = .ok (n, rest) := by
  refine readNumber_padded ?_ hr
  rw [List.length_append]
  exact Nat.le_add_right _ _

theorem readYear_negative {n : Nat} {rest : List Char} (h : n ≤ 0x80000000)
    (hr : rest.head?.any Char.isDigit = false) :
    readYear ('-' :: padded 4 n ++ rest) = .ok (-(n : Int), rest) := by
  have hread := readNumber_signed (n := n) hr
  simp only [readYear, skipBlanks, List.cons_append]
  rw [List.dropWhile_cons_of_neg (by decide)]
  simp only [hread, bind, Except.bind, if_pos h]
  rfl

theorem readYear_positive {n : Nat} {rest : List Char} (h : n < 0x80000000)
    (hr : rest.head?.any Char.isDigit = false) :
    readYear ('+' :: padded 4 n ++ rest) = .ok ((n : Int), rest) := by
  have hread := readNumber_signed (n := n) hr
  simp only [readYear, skipBlanks, List.cons_append]
  rw [List.dropWhile_cons_of_neg (by decide)]
  simp only [hread, bind, Except.bind, if_pos h]
  rfl

/-- A year is read back from its text, with its sign if it has one. -/
theorem readYear_yearText {year : Int} {rest : List Char}
    (h : firstYear ≤ year ∧ year ≤ lastYear) (hr : rest.head?.any Char.isDigit = false) :
    readYear (yearText year ++ rest) = .ok (year, rest) := by
  obtain ⟨hfirst, hlast⟩ := h
  unfold firstYear at hfirst
  unfold lastYear at hlast
  unfold yearText
  by_cases hneg : year < 0
  · have hyear : -(year.natAbs : Int) = year := by omega
    rw [if_pos hneg, readYear_negative (by omega) hr, hyear]
  have hyear : (year.natAbs : Int) = year := by omega
  rw [if_neg hneg]
  by_cases hbig : 9999 < year
  · rw [if_pos hbig, readYear_positive (by omega) hr, hyear]
  · rw [if_neg hbig, readYear_unsigned (by omega) hr, hyear]

/-- Every date is read back from its text. -/
theorem ofText_toText (d : Date) : ofText d.toText = .ok d := by
  have hmonth := d.month_mem
  have hday := d.day_le
  have hreadYear : readYear d.chars =
      .ok (d.year, '-' :: (padded 2 d.month ++ '-' :: padded 2 d.day)) := by
    rw [chars, List.append_assoc]
    exact readYear_yearText d.year_mem rfl
  have hreadMonth : readField 1 12 (padded 2 d.month ++ '-' :: padded 2 d.day) =
      .ok (d.month, '-' :: padded 2 d.day) :=
    readField_padded hmonth (by omega) rfl
  have hreadDay : readField 1 31 (padded 2 d.day) = .ok (d.day, []) := by
    rw [← List.append_nil (padded 2 d.day)]
    exact readField_padded ⟨d.day_mem.1, hday⟩ (by omega) rfl
  simp only [ofText, toText, String.toList_ofList, hreadYear, readLiteral_cons, hreadMonth,
    hreadDay, readEnd, of?_parts, bind, Except.bind]
  rfl

end Date

/-! ### Times of day -/

namespace Time

/-- A leap second after another second than the last of a minute. -/
def StrayLeap (t : Time) : Prop := nanosecondsPerSecond ≤ t.nanosecond ∧ t.second ≠ 59

instance (t : Time) : Decidable t.StrayLeap := inferInstanceAs (Decidable (_ ∧ _))

/-- The parts of a time determine it, and they can be given exactly if its leap second is in
place. -/
theorem of?_eq_some_iff {hour minute second nanosecond : Nat} {t : Time} :
    of? hour minute second nanosecond = some t ↔
      (t.hour = hour ∧ t.minute = minute) ∧ (t.second = second ∧ t.nanosecond = nanosecond) ∧
        ¬ t.StrayLeap := by
  unfold of?
  constructor
  · intro h
    split at h
    · next hparts =>
      cases h
      exact ⟨⟨rfl, rfl⟩, ⟨rfl, rfl⟩, fun hstray => hstray.2 (hparts.2.2 hstray.1)⟩
    · cases h
  · intro hgiven
    obtain ⟨⟨rfl, rfl⟩, ⟨rfl, rfl⟩, hleap⟩ := hgiven
    exact dif_pos ⟨⟨t.hour_lt, t.minute_lt⟩, ⟨t.second_lt, t.nanosecond_lt⟩,
      fun hle => Decidable.not_not.1 fun hne => hleap ⟨hle, hne⟩⟩

/-- A time that is made from what is written has its leap second in place. -/
theorem not_strayLeap_of_ofWritten? {hour minute second nanosecond : Nat} {t : Time}
    (h : ofWritten? hour minute second nanosecond = some t) : ¬ t.StrayLeap := by
  unfold ofWritten? at h
  split at h <;> exact (of?_eq_some_iff.1 h).2.2

theorem writtenSecond_le (t : Time) : t.writtenSecond ≤ 60 := by
  have hsecond := t.second_lt
  have hnanosecond := t.nanosecond_lt
  unfold writtenSecond nanosecondsPerSecond at *
  omega

theorem writtenNanosecond_lt (t : Time) : t.writtenNanosecond < 1000000000 :=
  Nat.mod_lt _ (by decide)

/-- What is written tells the time exactly if its leap second is in place: a leap second is written
as sixty, and read as a leap second, only behind the second fifty-nine. -/
theorem ofWritten?_written_iff (t : Time) :
    ofWritten? t.hour t.minute t.writtenSecond t.writtenNanosecond = some t ↔ ¬ t.StrayLeap := by
  refine ⟨not_strayLeap_of_ofWritten?, fun hleap => ?_⟩
  have hsecond := t.second_lt
  have hnanosecond := t.nanosecond_lt
  unfold StrayLeap nanosecondsPerSecond at *
  unfold ofWritten? writtenSecond writtenNanosecond nanosecondsPerSecond
  split
  · next hsixty =>
    have hparts : t.second = 59 ∧ t.nanosecond = 1000000000 + t.nanosecond % 1000000000 := by
      omega
    exact of?_eq_some_iff.2 ⟨⟨rfl, rfl⟩, hparts, hleap⟩
  · next hother =>
    have hparts : t.second = t.second + t.nanosecond / 1000000000 ∧
        t.nanosecond = t.nanosecond % 1000000000 := by omega
    exact of?_eq_some_iff.2 ⟨⟨rfl, rfl⟩, hparts, hleap⟩

/-- Reading a text of a time comes down to reading the second that is written. -/
theorem ofText_toText (t : Time) :
    ofText t.toText =
      match ofWritten? t.hour t.minute t.writtenSecond t.writtenNanosecond with
      | some time => .ok time
      | none => .error .outOfRange := by
  have hsecond := t.writtenSecond_le
  have hminute := t.minute_lt
  have hhour := t.hour_lt
  have hreadHour : readField 0 23 t.chars = .ok (t.hour, ':' :: (padded 2 t.minute ++
      ':' :: (padded 2 t.writtenSecond ++ fractionText t.writtenNanosecond))) :=
    readField_padded (by omega) (by omega) rfl
  have hreadMinute : readField 0 59 (padded 2 t.minute ++
      ':' :: (padded 2 t.writtenSecond ++ fractionText t.writtenNanosecond)) =
      .ok (t.minute, ':' :: (padded 2 t.writtenSecond ++ fractionText t.writtenNanosecond)) :=
    readField_padded (by omega) (by omega) rfl
  have hhead : (fractionText t.writtenNanosecond).head?.any Char.isDigit = false := by
    rw [← List.append_nil (fractionText t.writtenNanosecond)]
    exact head?_fractionText_append t.writtenNanosecond rfl
  have hreadSecond : readField 0 60 (padded 2 t.writtenSecond ++ fractionText t.writtenNanosecond) =
      .ok (t.writtenSecond, fractionText t.writtenNanosecond) :=
    readField_padded (by omega) (by omega) hhead
  have hreadFraction : readFraction (fractionText t.writtenNanosecond) =
      .ok (t.writtenNanosecond, []) := by
    rw [← List.append_nil (fractionText t.writtenNanosecond)]
    exact readFraction_fractionText t.writtenNanosecond_lt rfl (by simp)
  simp only [ofText, toText, String.toList_ofList, hreadHour, readLiteral_cons, hreadMinute,
    hreadSecond, hreadFraction, readEnd, bind, Except.bind]
  rfl

/-- **A time of day is read back from its text exactly if it is no stray leap second.** -/
theorem ofText_toText_iff (t : Time) : ofText t.toText = .ok t ↔ ¬ t.StrayLeap := by
  rw [ofText_toText, ← ofWritten?_written_iff]
  cases ofWritten? t.hour t.minute t.writtenSecond t.writtenNanosecond with
  | none => exact iff_of_false nofun nofun
  | some time => rw [Except.ok.injEq, Option.some.injEq]

end Time

/-! ### Instants -/

/-- A text has at least a byte for each of its characters. -/
theorem length_le_utf8ByteSize (cs : List Char) : cs.length ≤ (String.ofList cs).utf8ByteSize := by
  rw [String.utf8ByteSize_ofList]
  induction cs with
  | nil => exact Nat.le_refl _
  | cons c cs ih =>
    have := c.utf8Size_pos
    rw [List.length_cons, String.utf8Len_cons]
    omega

namespace Instant

/-- Without an offset the local date and time are the instant's own. -/
theorem ofLocal?_zero (date : Date) (time : Time) : ofLocal? date time 0 = some ⟨date, time⟩ := by
  have hhour := time.hour_lt
  have hminute := time.minute_lt
  have hnonneg : ¬ (time.hour : Int) * 60 + time.minute - 0 < 0 := by omega
  have hlt : (time.hour : Int) * 60 + time.minute - 0 < 1440 := by omega
  have hmod : (((time.hour : Int) * 60 + time.minute - 0) % 1440).toNat =
      time.hour * 60 + time.minute := by omega
  have hdiv : (time.hour * 60 + time.minute) / 60 = time.hour := by omega
  have hrem : (time.hour * 60 + time.minute) % 60 = time.minute := by omega
  simp only [ofLocal?, if_neg hnonneg, if_pos hlt, hmod, Time.atMinute, hdiv, hrem, bind,
    Option.bind]
  rfl

/-- A year without a sign is read in its four digits. -/
theorem yearText_unsigned {year : Int} (h : 0 ≤ year ∧ year ≤ 9999) :
    Date.yearText year = padded 4 year.natAbs := by
  have hneg : ¬ year < 0 := by omega
  have hbig : ¬ 9999 < year := by omega
  rw [Date.yearText, if_neg hneg, if_neg hbig]

/-- A year with a sign does not start with a digit. -/
theorem yearText_signed {year : Int} (h : year < 0 ∨ 9999 < year) :
    ∃ c cs, Date.yearText year = c :: cs ∧ c.isDigit = false := by
  unfold Date.yearText
  by_cases hneg : year < 0
  · exact ⟨'-', _, if_pos hneg, rfl⟩
  · have hbig : 9999 < year := h.resolve_left hneg
    rw [if_neg hneg]
    exact ⟨'+', _, if_pos hbig, rfl⟩

/-- An instant whose year has no sign is written in at least nineteen characters. -/
theorem le_utf8ByteSize_toText {i : Instant} (h : 0 ≤ i.date.year ∧ i.date.year ≤ 9999) :
    19 ≤ i.toText.utf8ByteSize := by
  have hbytes := length_le_utf8ByteSize (i.date.chars ++ 'T' :: i.time.chars ++ ['Z'])
  have hyear : (Date.yearText i.date.year).length = 4 := by
    rw [yearText_unsigned h]
    exact length_padded (by decide) (by omega)
  have hmonth : (padded 2 i.date.month).length = 2 :=
    length_padded (by decide) (by have := i.date.month_mem; omega)
  have hday : (padded 2 i.date.day).length = 2 :=
    length_padded (by decide) (by have := i.date.day_le; omega)
  have hhour : (padded 2 i.time.hour).length = 2 :=
    length_padded (by decide) (by have := i.time.hour_lt; omega)
  have hminute : (padded 2 i.time.minute).length = 2 :=
    length_padded (by decide) (by have := i.time.minute_lt; omega)
  have hsecond : (padded 2 i.time.writtenSecond).length = 2 :=
    length_padded (by decide) (by have := i.time.writtenSecond_le; omega)
  simp only [Date.chars, Time.chars, List.length_append, List.length_cons, hyear, hmonth, hday,
    hhour, hminute, hsecond, List.length_nil] at hbytes
  have htext : i.toText = String.ofList (i.date.chars ++ 'T' :: i.time.chars ++ ['Z']) := rfl
  rw [htext, Date.chars, Time.chars]
  omega

/-- If its year is written without a sign, reading a text of an instant comes down to reading the
second that is written. -/
theorem ofText_toText {i : Instant} (h : 0 ≤ i.date.year ∧ i.date.year ≤ 9999) :
    ofText i.toText =
      match Time.ofWritten? i.time.hour i.time.minute i.time.writtenSecond
        i.time.writtenNanosecond with
      | some time => .ok ⟨i.date, time⟩
      | none => .error .outOfRange := by
  have hmonth := i.date.month_mem
  have hday := i.date.day_le
  have hhour := i.time.hour_lt
  have hminute := i.time.minute_lt
  have hsecond := i.time.writtenSecond_le
  have hyear : (i.date.year.natAbs : Int) = i.date.year := by omega
  have hchars : i.toText.toList = padded 4 i.date.year.natAbs ++ '-' :: (padded 2 i.date.month ++
      '-' :: (padded 2 i.date.day ++ 'T' :: (padded 2 i.time.hour ++
        ':' :: (padded 2 i.time.minute ++ ':' :: (padded 2 i.time.writtenSecond ++
          (fractionText i.time.writtenNanosecond ++ ['Z'])))))) := by
    simp only [toText, String.toList_ofList, Date.chars, yearText_unsigned h, Time.chars,
      List.append_assoc, List.cons_append]
  have hfraction : readFraction (fractionText i.time.writtenNanosecond ++ ['Z']) =
      .ok (i.time.writtenNanosecond, ['Z']) :=
    readFraction_fractionText i.time.writtenNanosecond_lt rfl (by decide)
  simp only [ofText, if_neg (Nat.not_lt.2 (le_utf8ByteSize_toText h)), hchars, bind, Except.bind,
    pure, Except.pure,
    readFixed_padded (by decide : 0 < 4) (by omega : i.date.year.natAbs < 10 ^ 4), readLiteral_cons,
    readFixed_padded (by decide : 0 < 2) (by omega : i.date.month < 10 ^ 2),
    readFixed_padded (by decide : 0 < 2) (by omega : i.date.day < 10 ^ 2),
    numeral_padded, hyear, Date.of?_parts, readSeparator, true_or, if_true,
    readFixed_padded (by decide : 0 < 2) (by omega : i.time.hour < 10 ^ 2),
    readFixed_padded (by decide : 0 < 2) (by omega : i.time.minute < 10 ^ 2),
    readFixed_padded (by decide : 0 < 2) (by omega : i.time.writtenSecond < 10 ^ 2),
    hfraction, readOffset, readEnd, ofLocal?_zero]
  cases Time.ofWritten? i.time.hour i.time.minute i.time.writtenSecond
    i.time.writtenNanosecond with
  | none => rfl
  | some time => rfl

/-- An instant whose year is written with a sign is not read at all. -/
theorem ofText_toText_signed {i : Instant} (h : i.date.year < 0 ∨ 9999 < i.date.year) :
    ∃ fault, ofText i.toText = .error fault := by
  obtain ⟨c, cs, hyear, hc⟩ := yearText_signed h
  have hchars : ∃ rest, i.toText.toList = c :: rest :=
    ⟨_, by simp only [toText, String.toList_ofList, Date.chars, hyear, List.cons_append]; rfl⟩
  obtain ⟨rest, hchars⟩ := hchars
  have hfixed : readFixed 4 (c :: rest) = .error .malformed := by
    rw [readFixed, if_neg (by simp [hc])]
  by_cases hshort : i.toText.utf8ByteSize < 19
  · exact ⟨.premature, by simp only [ofText, if_pos hshort]; rfl⟩
  · exact ⟨.malformed, by simp only [ofText, if_neg hshort, hchars, hfixed]; rfl⟩

/-- **An instant is read back from its text exactly if its year has four digits and its time is no
stray leap second.** -/
theorem ofText_toText_iff (i : Instant) :
    ofText i.toText = .ok i ↔
      (0 ≤ i.date.year ∧ i.date.year ≤ 9999) ∧ ¬ i.time.StrayLeap := by
  by_cases hyear : 0 ≤ i.date.year ∧ i.date.year ≤ 9999
  · rw [and_iff_right hyear, ofText_toText hyear, ← Time.ofWritten?_written_iff]
    cases Time.ofWritten? i.time.hour i.time.minute i.time.writtenSecond
      i.time.writtenNanosecond with
    | none => exact iff_of_false nofun nofun
    | some time =>
      rw [Except.ok.injEq, Option.some.injEq]
      exact ⟨congrArg Instant.time, congrArg (Instant.mk i.date)⟩
  · obtain ⟨fault, hfault⟩ := ofText_toText_signed (i := i) (by omega)
    rw [hfault]
    exact iff_of_false nofun fun h => hyear h.1

end Instant

end DocumentModel.Calendar

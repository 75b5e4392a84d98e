import DocumentModel.Proofs.Calendar.RoundTrip

/-! Times and instants that were read.

A leap second that is read follows the last second of its minute. A text of an instant gives it in
local time: a date whose year has four digits, a time of day, and an offset from universal time.
The offset is less than a day, so it moves the date by one at most, and the year of the instant
leaves the four digits by one at most: `Instant.year_ofText`. It is of whole minutes, so a leap
second stays in its place: `Instant.not_strayLeap_of_ofText`. -/
namespace DocumentModel.Calendar

/-! ### Neighbouring dates -/

namespace Date

theorem year_of? {year : Int} {month day : Nat} {d : Date} (h : of? year month day = some d) :
    d.year = year := by
  unfold of? at h
  split at h
  · split at h
    · split at h <;> cases h
      rfl
    · cases h
  · cases h

/-- The day before is of the same year or the one before. -/
theorem year_previous? {d d' : Date} (h : d.previous? = some d') :
    d.year - 1 ≤ d'.year ∧ d'.year ≤ d.year := by
  unfold previous? at h
  split at h
  · rw [year_of? h]
    omega
  · split at h <;> rw [year_of? h] <;> omega

/-- The day after is of the same year or the one after. -/
theorem year_next? {d d' : Date} (h : d.next? = some d') :
    d.year ≤ d'.year ∧ d'.year ≤ d.year + 1 := by
  unfold next? at h
  split at h
  · rw [year_of? h]
    omega
  · split at h <;> rw [year_of? h] <;> omega

end Date

/-! ### Times of day -/

/-- A time that was read is no stray leap second. -/
theorem Time.not_strayLeap_of_ofText {text : String} {t : Time} (h : ofText text = .ok t) :
    ¬ t.StrayLeap := by
  unfold ofText at h
  obtain ⟨⟨hour, rest⟩, -, h⟩ := bind_eq_ok_iff.1 h
  obtain ⟨_, -, h⟩ := bind_eq_ok_iff.1 h
  obtain ⟨⟨minute, rest⟩, -, h⟩ := bind_eq_ok_iff.1 h
  obtain ⟨_, -, h⟩ := bind_eq_ok_iff.1 h
  obtain ⟨⟨second, rest⟩, -, h⟩ := bind_eq_ok_iff.1 h
  obtain ⟨⟨nanosecond, rest⟩, -, h⟩ := bind_eq_ok_iff.1 h
  obtain ⟨_, -, h⟩ := bind_eq_ok_iff.1 h
  split at h
  case h_2 => cases h
  next time htime =>
  cases h
  exact not_strayLeap_of_ofWritten? htime

/-! ### Offsets -/

namespace Instant

/-- The instant has the local date, the day before or the day after, and its second is the local
one. -/
theorem eq_of_ofLocal? {date : Date} {time : Time} {ahead : Int} {i : Instant}
    (h : ofLocal? date time ahead = some i) :
    (date.previous? = some i.date ∨ date = i.date ∨ date.next? = some i.date) ∧
      i.time.second = time.second ∧ i.time.nanosecond = time.nanosecond := by
  unfold ofLocal? at h
  dsimp only at h
  split at h
  · obtain ⟨moved, hmoved, h⟩ := Option.bind_eq_some_iff.1 h
    cases h
    exact ⟨.inl hmoved, rfl, rfl⟩
  · split at h
    · obtain ⟨moved, hmoved, h⟩ := Option.bind_eq_some_iff.1 h
      cases h
      cases hmoved
      exact ⟨.inr (.inl rfl), rfl, rfl⟩
    · obtain ⟨moved, hmoved, h⟩ := Option.bind_eq_some_iff.1 h
      cases h
      exact ⟨.inr (.inr hmoved), rfl, rfl⟩

/-- An instant that was read is that of some offset at a local date with a year of four
digits and a local time without a stray leap second. -/
theorem ofLocal?_of_ofText {text : String} {i : Instant} (h : ofText text = .ok i) :
    ∃ date time ahead, (0 ≤ date.year ∧ date.year ≤ 9999) ∧ ¬ time.StrayLeap ∧
      ofLocal? date time ahead = some i := by
  unfold ofText at h
  split at h
  · cases h
  obtain ⟨⟨year, rest⟩, hyear, h⟩ := bind_eq_ok_iff.1 h
  obtain ⟨_, -, h⟩ := bind_eq_ok_iff.1 h
  obtain ⟨⟨month, rest⟩, -, h⟩ := bind_eq_ok_iff.1 h
  obtain ⟨_, -, h⟩ := bind_eq_ok_iff.1 h
  obtain ⟨⟨day, rest⟩, -, h⟩ := bind_eq_ok_iff.1 h
  dsimp only at h
  split at h
  case h_2 => cases h
  next date hdate =>
  obtain ⟨_, -, h⟩ := bind_eq_ok_iff.1 h
  obtain ⟨⟨hour, rest⟩, -, h⟩ := bind_eq_ok_iff.1 h
  obtain ⟨_, -, h⟩ := bind_eq_ok_iff.1 h
  obtain ⟨⟨minute, rest⟩, -, h⟩ := bind_eq_ok_iff.1 h
  obtain ⟨_, -, h⟩ := bind_eq_ok_iff.1 h
  obtain ⟨⟨second, rest⟩, -, h⟩ := bind_eq_ok_iff.1 h
  obtain ⟨⟨nanosecond, rest⟩, -, h⟩ := bind_eq_ok_iff.1 h
  dsimp only at h
  split at h
  case h_2 => cases h
  next time htime =>
  obtain ⟨⟨ahead, rest⟩, -, h⟩ := bind_eq_ok_iff.1 h
  obtain ⟨_, -, h⟩ := bind_eq_ok_iff.1 h
  dsimp only at h
  split at h
  · cases h
  split at h
  case h_2 => cases h
  next instant hlocal =>
  cases h
  obtain ⟨hlength, hdigits⟩ := digits_of_readFixed hyear
  have hlt := Text.numeral_lt hdigits
  rw [hlength] at hlt
  refine ⟨date, time, ahead, ?_, Time.not_strayLeap_of_ofWritten? htime, hlocal⟩
  rw [Date.year_of? hdate]
  omega

/-- The year of an instant that was read is one of four digits, the one before or the one
after. -/
theorem year_ofText {text : String} {i : Instant} (h : ofText text = .ok i) :
    -1 ≤ i.date.year ∧ i.date.year ≤ 10000 := by
  obtain ⟨date, time, ahead, hyear, -, hlocal⟩ := ofLocal?_of_ofText h
  rcases (eq_of_ofLocal? hlocal).1 with hdate | hdate | hdate
  · have := Date.year_previous? hdate
    omega
  · rw [← hdate]
    omega
  · have := Date.year_next? hdate
    omega

/-- An offset takes no leap second away from the end of its minute. -/
theorem not_strayLeap_of_ofText {text : String} {i : Instant} (h : ofText text = .ok i) :
    ¬ i.time.StrayLeap := by
  obtain ⟨date, time, ahead, -, hleap, hlocal⟩ := ofLocal?_of_ofText h
  obtain ⟨-, hsecond, hnanosecond⟩ := eq_of_ofLocal? hlocal
  rwa [Time.StrayLeap, hsecond, hnanosecond]

end Instant
end DocumentModel.Calendar

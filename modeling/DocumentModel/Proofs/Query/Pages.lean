import DocumentModel.Proofs.Query.Clauses
import Mathlib.Algebra.Group.Nat.Defs

/-! What asking for a page makes of a query.

A page that fits sets the offset and the limit and no other clause (`content_page`), to the exact
counts of results before the page and on it, so that a page begins where the one before it ends
(`start_next`). Any other page is refused as out of range, the query being what it was:
`page_exact_or_refused`. -/
namespace DocumentModel

namespace Page

variable {p next : Page}

/-- A page fits exactly if it is one and its counts are signed words. -/
theorem fits_iff :
    p.Fits ↔ 1 ≤ p.number.toNat ∧ p.perPage.toNat ≤ 2 ^ 63 - 1 ∧
      (p.number.toNat - 1) * p.perPage.toNat ≤ 2 ^ 63 - 1 := by
  have hnumber : p.number ≠ 0 ↔ 1 ≤ p.number.toNat := by
    rw [ne_eq, ← UInt64.toNat_inj, Nat.one_le_iff_ne_zero]
    rfl
  rw [Fits, hnumber, start]
  omega

/-- A page begins where the one before it ends. -/
theorem start_next (hfirst : p.number ≠ 0) (hnumber : next.number.toNat = p.number.toNat + 1)
    (hperPage : next.perPage = p.perPage) : next.start = p.start + p.perPage.toNat := by
  have hpos : p.number.toNat ≠ 0 := fun hzero => hfirst (UInt64.toNat_inj.1 hzero)
  rw [start, start, hnumber, hperPage, Nat.add_sub_cancel, ← Nat.succ_mul]
  congr 1
  omega

end Page

namespace Query
open Merge (combine_single combineValue)

variable {q q' : Query} {p : Page}

/-- The count that a clause tells, if it tells one. -/
def count? (q : Query) (clause : ClauseName) : Option Int :=
  ((q.content.get? clause.key).bind Value.int?).map Int64.toInt

/-- A count replaces what a clause told. -/
theorem content_contribute_int (q : Query) (clause : ClauseName) (n : Int64) :
    (q.contribute clause (.int n)).content = q.content.insert clause.key (.int n) := by
  simp only [contribute, combine_single, combineValue]

/-- A page that is granted gives its offset and its limit to the query. -/
theorem content_page (h : q.page p = .ok q') :
    p.Fits ∧ q'.content =
      (q.content.insert ClauseName.offset.key (.int (.ofNat p.start))).insert
        ClauseName.limit.key (.int (.ofNat p.perPage.toNat)) := by
  by_cases hfits : p.Fits
  · rw [page_of_fits hfits] at h
    cases h
    exact ⟨hfits, by rw [content_contribute_int, content_contribute_int]⟩
  · obtain ⟨e, hfail, -⟩ := page_of_not_fits (q := q) hfits
    rw [hfail] at h
    cases h

theorem exists_page_iff : (∃ q', q.page p = .ok q') ↔ p.Fits := by
  constructor
  · rintro ⟨q', h⟩
    exact (content_page h).1
  · intro hfits
    exact ⟨_, page_of_fits hfits⟩

theorem count?_of_get? {clause : ClauseName} {n : Nat} (h : n < 0x8000000000000000)
    (hget : q.content.get? clause.key = some (.int (.ofNat n))) :
    q.count? clause = some (n : Int) := by
  rw [count?, hget]
  show some (Int64.ofNat n).toInt = _
  rw [Int64.toInt_ofNat_of_lt h]

/-- The offset of a page that is granted is exact. -/
theorem count?_offset_page (h : q.page p = .ok q') : q'.count? .offset = some (p.start : Int) := by
  obtain ⟨⟨-, hstart, -⟩, hcontent⟩ := content_page h
  refine count?_of_get? hstart ?_
  rw [hcontent, Entries.get?_insert, if_neg (by decide), Entries.get?_insert, if_pos rfl]

/-- So is its limit. -/
theorem count?_limit_page (h : q.page p = .ok q') :
    q'.count? .limit = some (p.perPage.toNat : Int) := by
  obtain ⟨⟨-, -, hperPage⟩, hcontent⟩ := content_page h
  refine count?_of_get? hperPage ?_
  rw [hcontent, Entries.get?_insert, if_pos rfl]

/-- Other clauses stay. -/
theorem get?_page_of_ne (h : q.page p = .ok q') {clause : ClauseName} (hoffset : clause ≠ .offset)
    (hlimit : clause ≠ .limit) : q'.content.get? clause.key = q.content.get? clause.key := by
  obtain ⟨-, hcontent⟩ := content_page h
  rw [hcontent, Entries.get?_insert, if_neg fun hkey => hlimit (key_inj hkey).symm,
    Entries.get?_insert, if_neg fun hkey => hoffset (key_inj hkey).symm]

/-- A page that is not granted is out of range. -/
theorem kind_of_page_error {e : Error} (h : q.page p = .error e) : e.kind = .invalidRange := by
  by_cases hfits : p.Fits
  · rw [page_of_fits hfits] at h
    cases h
  · obtain ⟨e', hfail, hkind⟩ := page_of_not_fits (q := q) hfits
    rw [hfail] at h
    cases h
    exact hkind

/-- **A page is asked for with exact counts, or it is refused.** It is granted exactly if pages are
counted from one, the page has no more results than a signed word counts, and neither are there more
before it. Then the offset is the count of results before it and the limit that of results on it, no
other clause is touched, and the next page of the same size begins where it ends. A page that is
refused is out of range and leaves the query as it was. -/
theorem page_exact_or_refused (q : Query) (p : Page) :
    ((∃ q', q.page p = .ok q') ↔
      1 ≤ p.number.toNat ∧ p.perPage.toNat ≤ 2 ^ 63 - 1 ∧
        (p.number.toNat - 1) * p.perPage.toNat ≤ 2 ^ 63 - 1) ∧
    (∀ q', q.page p = .ok q' →
      q'.count? .offset = some (((p.number.toNat - 1) * p.perPage.toNat : Nat) : Int) ∧
      q'.count? .limit = some (p.perPage.toNat : Int) ∧
      (∀ clause : ClauseName, clause ≠ .offset → clause ≠ .limit →
        q'.content.get? clause.key = q.content.get? clause.key) ∧
      ∀ (r r' : Query) (next : Page), next.number.toNat = p.number.toNat + 1 →
        next.perPage = p.perPage → r.page next = .ok r' →
          ∃ before count : Int, q'.count? .offset = some before ∧ q'.count? .limit = some count ∧
            r'.count? .offset = some (before + count)) ∧
    ∀ e, q.page p = .error e → e.kind = .invalidRange ∧ after q (.page p) = q := by
  refine ⟨exists_page_iff.trans Page.fits_iff, fun q' h => ?_, fun e h => ?_⟩
  · refine ⟨count?_offset_page h, count?_limit_page h, fun clause => get?_page_of_ne h,
      fun r r' next hnumber hperPage hnext => ?_⟩
    refine ⟨_, _, count?_offset_page h, count?_limit_page h, ?_⟩
    rw [count?_offset_page hnext, Page.start_next (content_page h).1.1 hnumber hperPage,
      Int.natCast_add]
  · refine ⟨kind_of_page_error h, ?_⟩
    rw [after, Call.apply, h]

/-- The last page that fits is full, and a page whose offset is cut off does not fit. -/
example :
    Page.Fits ⟨2, 0x7FFFFFFFFFFFFFFF⟩ ∧ ¬ Page.Fits ⟨3, 0x4000000000000000⟩ ∧
      ¬ Page.Fits ⟨0x4000000000000001, 0x10⟩ := by
  decide

end Query
end DocumentModel

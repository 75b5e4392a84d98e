import DocumentModel.Proofs.Outcome
import DocumentModel.Query.Basic

/-! Pages as offsets and limits.

A page is asked for as an offset and a limit, which are signed words. The offset is computed with a
product that stays at the greatest word when it is too large, but the greatest word is no signed
one. So a page whose offset was cut off is refused, and one that is granted has its exact offset:
`page_of_fits`, `page_of_not_fits`. -/
namespace DocumentModel

namespace Page

/-- The count of results before a page, however large it is. -/
def start (p : Page) : Nat := (p.number.toNat - 1) * p.perPage.toNat

/-- Whether a page can be asked for: pages are counted from one, and the count of results before it
and on it must not be beyond the greatest signed word. -/
def Fits (p : Page) : Prop :=
  p.number ≠ 0 ∧ p.start < 0x8000000000000000 ∧ p.perPage.toNat < 0x8000000000000000

instance (p : Page) : Decidable p.Fits := inferInstanceAs (Decidable (_ ∧ _ ∧ _))

theorem toNat_offset (p : Page) : p.offset.toNat = min p.start (UInt64.size - 1) := by
  have hlt : min p.start (UInt64.size - 1) < UInt64.size :=
    Nat.lt_of_le_of_lt (Nat.min_le_right ..) (by decide)
  rw [offset, saturate, ← start]
  exact UInt64.toNat_ofNat_of_lt' hlt

/-- The offset of a page is cut off only where it is no signed word. -/
theorem offset_lt_iff (p : Page) :
    p.offset.toNat < 0x8000000000000000 ↔ p.start < 0x8000000000000000 := by
  rw [toNat_offset, show UInt64.size = 0x10000000000000000 from rfl]
  omega

theorem toNat_offset_of_lt {p : Page} (h : p.start < 0x8000000000000000) :
    p.offset.toNat = p.start := by
  rw [toNat_offset, show UInt64.size = 0x10000000000000000 from rfl]
  omega

end Page

namespace Query

variable {q : Query} {clause : ClauseName} {n : Int64} {p : Page}

/-! ### Counts -/

theorem nonneg_ofNat {n : Nat} (h : n < 0x8000000000000000) : 0 ≤ Int64.ofNat n := by
  rw [Int64.le_iff_toInt_le, Int64.toInt_ofNat_of_lt h]
  exact Int.natCast_nonneg n

theorem count_of_nonneg (h : 0 ≤ n) : q.count clause n = .ok (q.contribute clause (.int n)) :=
  if_neg (Int64.not_lt.2 h)

theorem count_of_neg (h : ¬ 0 ≤ n) :
    ∃ e, q.count clause n = .error e ∧ e.kind = .invalidRange :=
  ⟨_, if_pos (Int64.not_le.1 h), rfl⟩

theorem signed_of_lt {n : UInt64} (h : n.toNat < 0x8000000000000000) (clause : ClauseName) :
    signed clause n = .ok (.ofNat n.toNat) := if_pos h

theorem signed_of_not_lt {n : UInt64} (h : ¬ n.toNat < 0x8000000000000000) (clause : ClauseName) :
    ∃ e, signed clause n = .error e ∧ e.kind = .invalidRange := ⟨_, if_neg h, rfl⟩

/-! ### Pages -/

theorem page_of_fits (h : p.Fits) :
    q.page p = .ok ((q.contribute .offset (.int (.ofNat p.start))).contribute .limit
      (.int (.ofNat p.perPage.toNat))) := by
  obtain ⟨hnumber, hstart, hperPage⟩ := h
  have hcheck : p.check = .ok () := if_neg hnumber
  have hoffset : signed .offset p.offset = .ok (.ofNat p.start) := by
    rw [signed_of_lt (p.offset_lt_iff.2 hstart), Page.toNat_offset_of_lt hstart]
  rw [page, hcheck]
  show (signed .offset p.offset >>= _) = _
  rw [hoffset]
  show (signed .limit p.perPage >>= _) = _
  rw [signed_of_lt hperPage]
  show (q.count .offset _ >>= _) = _
  rw [count_of_nonneg (nonneg_ofNat hstart)]
  exact count_of_nonneg (nonneg_ofNat hperPage)

theorem page_of_not_fits (h : ¬ p.Fits) : ∃ e, q.page p = .error e ∧ e.kind = .invalidRange := by
  by_cases hnumber : p.number = 0
  · have hcheck : p.check = .error _ := if_pos hnumber
    exact ⟨_, bind_eq_error_iff.2 (.inl hcheck), rfl⟩
  have hcheck : p.check = .ok () := if_neg hnumber
  rw [page, hcheck]
  show ∃ e, (signed .offset p.offset >>= _) = .error e ∧ _
  by_cases hoffset : p.offset.toNat < 0x8000000000000000
  · rw [signed_of_lt hoffset]
    show ∃ e, (signed .limit p.perPage >>= _) = .error e ∧ _
    have hperPage : ¬ p.perPage.toNat < 0x8000000000000000 := fun hperPage =>
      h ⟨hnumber, p.offset_lt_iff.1 hoffset, hperPage⟩
    obtain ⟨e, hfail, hkind⟩ := signed_of_not_lt hperPage .limit
    exact ⟨e, bind_eq_error_iff.2 (.inl hfail), hkind⟩
  · obtain ⟨e, hfail, hkind⟩ := signed_of_not_lt hoffset .offset
    exact ⟨e, bind_eq_error_iff.2 (.inl hfail), hkind⟩

end Query
end DocumentModel

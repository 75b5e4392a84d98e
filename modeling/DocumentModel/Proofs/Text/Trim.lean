import DocumentModel.Text.Blank
import Mathlib.Data.List.DropRight

/-! Texts without the blanks around them.

Trimming keeps the first character that is no blank (`trim_cons`), and trimming twice is
trimming once (`trim_trim`). -/
namespace DocumentModel.Text

theorem trim_eq_rdropWhile (cs : List Char) : trim cs = (skipBlanks cs).rdropWhile isBlank := rfl

theorem skipBlanks_cons {c : Char} (h : isBlank c = false) (cs : List Char) :
    skipBlanks (c :: cs) = c :: cs :=
  List.dropWhile_cons_of_neg (by simp [h])

/-- From a text that starts with no blank, trimming takes only its end. -/
theorem trim_cons {c : Char} (h : isBlank c = false) (cs : List Char) :
    ∃ run, trim (c :: cs) = c :: run ∧ run <+: cs := by
  have hfront : trim (c :: cs) <+: c :: cs := by
    rw [trim_eq_rdropWhile, skipBlanks_cons h]
    exact List.rdropWhile_prefix isBlank _
  cases htrim : trim (c :: cs) with
  | nil =>
    rw [trim_eq_rdropWhile, skipBlanks_cons h, List.rdropWhile_eq_nil_iff] at htrim
    have hc := htrim c (List.mem_cons_self ..)
    rw [h] at hc
    cases hc
  | cons d run =>
    rw [htrim, List.cons_prefix_cons] at hfront
    exact ⟨run, by rw [hfront.1], hfront.2⟩

/-- The first character of a trimmed text is no blank. -/
theorem isBlank_of_trim_cons {c : Char} {cs rest : List Char} (h : trim cs = c :: rest) :
    isBlank c = false := by
  have hfront : trim cs <+: skipBlanks cs := List.rdropWhile_prefix isBlank _
  rw [h] at hfront
  cases hskip : skipBlanks cs with
  | nil =>
    rw [hskip] at hfront
    cases List.prefix_nil.1 hfront
  | cons d tail =>
    rw [hskip, List.cons_prefix_cons] at hfront
    have hhead := List.head?_dropWhile_not isBlank cs
    rw [show cs.dropWhile isBlank = d :: tail from hskip] at hhead
    rw [hfront.1]
    simpa using hhead

theorem trim_trim (cs : List Char) : trim (trim cs) = trim cs := by
  cases htrim : trim cs with
  | nil => rfl
  | cons c rest =>
    rw [trim_eq_rdropWhile, skipBlanks_cons (isBlank_of_trim_cons htrim), ← htrim]
    exact List.rdropWhile_idempotent isBlank _

theorem trim_of_no_blank {cs : List Char} (h : ∀ c ∈ cs, isBlank c = false) : trim cs = cs := by
  cases cs with
  | nil => rfl
  | cons c rest =>
    rw [trim_eq_rdropWhile, skipBlanks_cons (h c (List.mem_cons_self ..)),
      List.rdropWhile_eq_self_iff]
    intro hne
    simp [h _ (List.getLast_mem hne)]

end DocumentModel.Text

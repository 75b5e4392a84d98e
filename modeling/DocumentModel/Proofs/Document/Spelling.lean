import DocumentModel.Proofs.Document.Obstacles
import DocumentModel.Proofs.Document.Reached
import DocumentModel.Proofs.FieldPath.Grammar
import DocumentModel.Proofs.Outcome

/-! Positions in lists, spelled in two ways.

A list takes an index and a name of digits alike, so where the steps in front lead to a list, a step
can be exchanged for another that gives the same position. Reads and deletes look at the position
alone (`descend_respelled`, `eraseFrom_respelled`), and so does a set once it is at the list
(`changed_respelled_iff`). Two things about a set depend on more than the position, and neither shows.
A container that is made for a step is a list or a map by the kind of the step; but the container for
this step is there already. And an index that is too large is refused before the way is taken, while
a name of digits is refused at the list; but either is, and a set that is refused leaves nothing
behind. So the paths cannot be told apart by any use: `interchangeable_of_digits`. -/
namespace DocumentModel.Document

variable {f : Value → Value} {target result value : Value} {items : List Value} {s t : Segment}
  {before after : List Segment} {position : UInt64}

/-! ### Steps that give one position -/

/-- A list has one slot for either step. -/
theorem slot?_list_congr (h : s.position? = t.position?) :
    slot? (.list items) s = slot? (.list items) t := by
  rw [slot?, slot?, h]

theorem descend_respelled (h : s.position? = t.position?)
    (hlist : descend (some target) before = .ok (some (.list items))) (after : List Segment) :
    descend (some target) (before ++ s :: after) = descend (some target) (before ++ t :: after) := by
  have hchild : child (.list items) s = child (.list items) t := by simp only [child, h]
  rw [descend_append, descend_append, hlist]
  show descend (some (.list items)) (s :: after) = descend (some (.list items)) (t :: after)
  rw [descend, descend, hchild]

theorem eraseFrom_respelled (h : s.position? = t.position?)
    (hlist : descend (some target) before = .ok (some (.list items))) :
    eraseFrom (before ++ s :: after) target = eraseFrom (before ++ t :: after) target := by
  induction before generalizing target with
  | nil =>
    cases hlist
    simp only [List.nil_append, eraseFrom, h]
  | cons first before ih =>
    obtain ⟨slot, inner, hslot, hcontent, hinner⟩ := descend_cons_eq_some_iff.1 hlist
    rw [List.cons_append, List.cons_append, eraseFrom_slot hslot hcontent (by simp),
      eraseFrom_slot hslot hcontent (by simp), ih hinner]

theorem changed_respelled_iff (h : s.position? = t.position?)
    (hlist : descend (some target) before = .ok (some (.list items))) :
    Changed f (before ++ s :: after) target result ↔
      Changed f (before ++ t :: after) target result := by
  induction before generalizing target result with
  | nil =>
    cases hlist
    constructor
    · intro hchanged
      cases hchanged with
      | step hslot hreach hready hrest =>
        exact .step ((slot?_list_congr h.symm).trans hslot) hreach hready hrest
    · intro hchanged
      cases hchanged with
      | step hslot hreach hready hrest =>
        exact .step ((slot?_list_congr h).trans hslot) hreach hready hrest
  | cons first before ih =>
    obtain ⟨slot, inner, hslot, hcontent, hinner⟩ := descend_cons_eq_some_iff.1 hlist
    have hcontainer := isContainer_of_descend hinner rfl
    rw [List.cons_append, List.cons_append, changed_slot_iff hslot hcontent hcontainer,
      changed_slot_iff hslot hcontent hcontainer]
    simp only [ih hinner]

/-- A list, which is not the root, stands in front of the step. -/
theorem below_root_of_list {fields : Entries Value}
    (hlist : descend (some (.map fields)) before = .ok (some (.list items))) (s : Segment)
    (after : List Segment) :
    FieldPath.isEmpty ⟨before ++ s :: after⟩ = false ∧
      FieldPath.isIdentity ⟨before ++ s :: after⟩ = false := by
  cases before with
  | nil => cases hlist
  | cons first before => simp [FieldPath.isEmpty, FieldPath.isIdentity]

/-! ### Sets -/

variable {d d' : Document} {path other : String}

/-- A set along the way succeeds only if the list may be as long as the position asks. -/
theorem position_le_of_set (hlist : descend (some (.map d.root)) before = .ok (some (.list items)))
    (hposition : s.position? = some position)
    (hparse : FieldPath.parse path = .ok ⟨before ++ s :: after⟩)
    (hset : (d.set path value).error = none) : position.toNat ≤ maxPosition := by
  obtain ⟨hempty, hidentity⟩ := below_root_of_list hlist s after
  obtain ⟨-, hfree⟩ := (set_succeeds_iff hparse hempty hidentity).1 hset
  by_contra hmax
  exact hfree ⟨before, s, after, .list items, _, rfl, hlist,
    .positionTooLarge items after hposition (Nat.lt_of_not_le hmax)⟩

theorem withinBounds_respelled (hposition : t.position? = some position)
    (hmax : position.toNat ≤ maxPosition) (h : WithinBounds (before ++ s :: after)) :
    WithinBounds (before ++ t :: after) := by
  intro large hmem
  rcases List.mem_append.1 hmem with hbefore | hrest
  · exact h large (List.mem_append_left _ hbefore)
  rcases List.mem_cons.1 hrest with rfl | hafter
  · cases hposition
    exact hmax
  · exact h large (List.mem_append_right _ (List.mem_cons_of_mem s hafter))

/-- A set that succeeds along one path does so along the other, and leaves the same. -/
theorem set_respelled (hlist : descend (some (.map d.root)) before = .ok (some (.list items)))
    (hs : s.position? = some position) (ht : t.position? = some position)
    (hpath : FieldPath.parse path = .ok ⟨before ++ s :: after⟩)
    (hother : FieldPath.parse other = .ok ⟨before ++ t :: after⟩)
    (hset : d.set path value = ⟨d', none⟩) : d.set other value = ⟨d', none⟩ := by
  have hmax := position_le_of_set hlist hs hpath (by rw [hset])
  obtain ⟨hempty, hidentity⟩ := below_root_of_list hlist s after
  obtain ⟨hempty', hidentity'⟩ := below_root_of_list hlist t after
  obtain ⟨hadmits, hchanged⟩ := (set_eq_iff hpath).1 hset
  rw [Admits, hidentity, hempty] at hadmits
  rw [settle, hidentity] at hchanged
  refine (set_eq_iff hother).2 ⟨?_, ?_⟩
  · rw [Admits, hidentity', hempty']
    exact oversized?_eq_none_iff.2
      (withinBounds_respelled ht hmax (oversized?_eq_none_iff.1 hadmits))
  · rw [settle, hidentity']
    exact (changed_respelled_iff (hs.trans ht.symm) hlist).1 hchanged

/-- Edits that succeed with the same documents, and leave the document as it was where they do not,
succeed together and leave one document. -/
theorem edits_agree {edit edit' : Edit} (h : ∀ d', edit = ⟨d', none⟩ ↔ edit' = ⟨d', none⟩)
    (hedit : edit.document = d ∨ edit = ⟨edit.document, none⟩)
    (hedit' : edit'.document = d ∨ edit' = ⟨edit'.document, none⟩) :
    (edit.error = none ↔ edit'.error = none) ∧ edit.document = edit'.document := by
  by_cases hdone : ∃ d', edit = ⟨d', none⟩
  · obtain ⟨d', hd'⟩ := hdone
    rw [hd', (h d').1 hd']
    exact ⟨Iff.rfl, rfl⟩
  · have hfails : ∀ d', edit ≠ ⟨d', none⟩ := fun d' hd' => hdone ⟨d', hd'⟩
    have hfails' : ∀ d', edit' ≠ ⟨d', none⟩ := fun d' hd' => hfails d' ((h d').2 hd')
    refine ⟨⟨fun hnone => ?_, fun hnone => ?_⟩, ?_⟩
    · exact absurd (congrArg (Edit.mk edit.document) hnone) (hfails _)
    · exact absurd (congrArg (Edit.mk edit'.document) hnone) (hfails' _)
    · rw [hedit.resolve_right (hfails _), hedit'.resolve_right (hfails' _)]

/-! ### Paths that cannot be told apart -/

/-- Two paths that are one for a document: what is read and found at them is the same, and what is
set and deleted there leaves the same document, and succeeds at one if it does at the other. -/
structure Interchangeable (d : Document) (path other : String) : Prop where
  get : ∀ x, d.get path = .ok x ↔ d.get other = .ok x
  contains : ∀ b, d.contains path = .ok b ↔ d.contains other = .ok b
  set : ∀ value, ((d.set path value).error = none ↔ (d.set other value).error = none) ∧
    (d.set path value).document = (d.set other value).document
  delete : d.delete path = d.delete other

/-- Paths to which the same steps lead are read alike. -/
theorem lookup_eq_ok_iff_of_descend {p q : FieldPath} (hempty : p.isEmpty = q.isEmpty)
    (h : descend (some (.map d.root)) p.segments = descend (some (.map d.root)) q.segments)
    (found : Option Value) : d.lookup p = .ok found ↔ d.lookup q = .ok found := by
  rw [lookup, lookup, hempty, h]
  cases q.isEmpty <;> cases descend (some (.map d.root)) q.segments <;> simp

/-- Steps that give one position of a list are interchangeable. -/
theorem interchangeable_of_position?
    (hlist : descend (some (.map d.root)) before = .ok (some (.list items)))
    (hs : s.position? = some position) (ht : t.position? = some position)
    (hpath : FieldPath.parse path = .ok ⟨before ++ s :: after⟩)
    (hother : FieldPath.parse other = .ok ⟨before ++ t :: after⟩) :
    d.Interchangeable path other := by
  have hst := hs.trans ht.symm
  obtain ⟨hempty, -⟩ := below_root_of_list hlist s after
  obtain ⟨hempty', -⟩ := below_root_of_list hlist t after
  have hlookup := lookup_eq_ok_iff_of_descend (hempty.trans hempty'.symm)
    (descend_respelled hst hlist after)
  constructor
  · intro x
    rw [get_of_parse hpath, get_of_parse hother, hempty, hempty']
    simp only [Bool.false_eq_true, if_false, map_eq_ok_iff, hlookup]
  · intro b
    rw [contains_of_parse hpath, contains_of_parse hother, hempty, hempty']
    simp only [Bool.false_eq_true, if_false, map_eq_ok_iff, hlookup]
  · intro value
    exact edits_agree (fun d' => ⟨set_respelled hlist hs ht hpath hother,
      set_respelled hlist ht hs hother hpath⟩) (set_cases d path value) (set_cases d other value)
  · have hdocument : d.deleteAt ⟨before ++ s :: after⟩ = d.deleteAt ⟨before ++ t :: after⟩ := by
      rw [deleteAt_eq_iff, map_root_deleteAt]
      exact eraseFrom_respelled hst hlist
    rw [delete_of_parse hpath, delete_of_parse hother, hdocument]

/-- **On a list, a name of digits and the index that they count are interchangeable.** Where the steps
in front of the name lead to a list, some text has the index in its place, and no such text can be
told from the path by what is read, set or deleted there. The digits may begin with zeros, and the
index may lie in the list or behind it, or be too large for a set. -/
theorem interchangeable_of_digits {key : String}
    (hdigits : key.toList ≠ [] ∧ ∀ c ∈ key.toList, c.isDigit = true)
    (hvalue : Text.numeral key.toList = position.toNat)
    (hlist : d.lookup ⟨before⟩ = .ok (some (.list items)))
    (hpath : FieldPath.parse path = .ok ⟨before ++ .name key :: after⟩) :
    (∃ other, FieldPath.parse other = .ok ⟨before ++ .index position :: after⟩) ∧
      ∀ other, FieldPath.parse other = .ok ⟨before ++ .index position :: after⟩ →
        d.Interchangeable path other := by
  have hposition : (Segment.name key).position? = some position := by
    refine FieldPath.position?_eq_some_iff.2 ⟨hdigits.1, hdigits.2, ?_, ?_⟩
    · rw [hvalue]
      exact position.toNat_lt_size
    · rw [hvalue, UInt64.ofNat_toNat]
  obtain ⟨-, hfound⟩ := lookup_eq_some_iff.1 hlist
  refine ⟨⟨_, FieldPath.parse_toText ?_⟩, fun other hother =>
    interchangeable_of_position? hfound hposition rfl hpath hother⟩
  intro segment hmem
  rcases List.mem_append.1 hmem with hbefore | hrest
  · exact FieldPath.legible_of_parse hpath segment (List.mem_append_left _ hbefore)
  rcases List.mem_cons.1 hrest with rfl | hafter
  · trivial
  · exact FieldPath.legible_of_parse hpath segment
      (List.mem_append_right _ (List.mem_cons_of_mem _ hafter))

/-- An item behind the end of a list, which a set makes room for, and the way goes on below it. -/
theorem interchangeable_of_digits_row :
    lookup (row [.int 7]) ⟨[.name "l"]⟩ = .ok (some (.list [.int 7])) ∧
    FieldPath.parse "l.02.x" = .ok ⟨[.name "l"] ++ .name "02" :: [.name "x"]⟩ ∧
    FieldPath.parse "l[2].x" = .ok ⟨[.name "l"] ++ .index 2 :: [.name "x"]⟩ ∧
    Interchangeable (row [.int 7]) "l.02.x" "l[2].x" := by
  have hname : FieldPath.parse "l.02.x" = .ok ⟨[.name "l"] ++ .name "02" :: [.name "x"]⟩ := by cbv
  have hindex : FieldPath.parse "l[2].x" = .ok ⟨[.name "l"] ++ .index 2 :: [.name "x"]⟩ := by
    decide +kernel
  have hlist : lookup (row [.int 7]) ⟨[.name "l"]⟩ = .ok (some (.list [.int 7])) := rfl
  have hdigits : "02".toList ≠ [] ∧ ∀ c ∈ "02".toList, c.isDigit = true := by simp
  exact ⟨hlist, hname, hindex,
    (interchangeable_of_digits hdigits rfl hlist hname).2 "l[2].x" hindex⟩

end DocumentModel.Document

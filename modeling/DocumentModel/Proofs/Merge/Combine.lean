import DocumentModel.Merge
import DocumentModel.Proofs.Entries.Laws
import Mathlib.Data.List.Perm.Subperm

/-! Combining maps and lists.

A value that comes in for no value stays as it is, so fields whose keys are new go to the end
of a map unchanged: `combine_of_disjoint`. An item that comes in for a list goes to its end,
unless an item that is there takes it (`takes`). So a list comes in item by item as it is if no
item takes another (`combineLists_of_sideBySide`), and else the list that comes of it is too
short for all of them (`length_combineLists_lt`). -/
namespace DocumentModel.Merge

theorem combineValue_none (value : Value) : combineValue none value = value := by
  cases value <;> simp [combineValue]

theorem combine_single (base : Entries Value) (key : String) (value : Value) :
    combine base [(key, value)] = base.insert key (combineValue (base.get? key) value) := by
  simp [combine]

/-- Fields whose keys are new go to the end as they are. -/
theorem combine_of_disjoint {base fields : Entries Value} (hnodup : fields.keys.Nodup)
    (hnew : ∀ key ∈ fields.keys, key ∉ base.keys) : combine base fields = base ++ fields := by
  induction fields generalizing base with
  | nil => simp [combine]
  | cons field rest ih =>
    obtain ⟨key, value⟩ := field
    obtain ⟨hkey, hrest⟩ := List.nodup_cons.1 hnodup
    have hfresh : key ∉ base.keys := hnew key (List.mem_cons_self ..)
    rw [combine, Entries.get?_of_notMem hfresh, combineValue_none,
      Entries.insert_of_notMem hfresh, ih hrest]
    · rw [List.append_assoc, List.singleton_append]
    · intro other hother hmem
      have hcases : other ∈ base.keys ∨ other = key := by simpa [Entries.keys] using hmem
      rcases hcases with hbase | rfl
      · exact hnew other (List.mem_cons_of_mem key hother) hbase
      · exact hkey hother

theorem combine_eq_foldl (base fields : Entries Value) :
    combine base fields = fields.foldl (fun entries field =>
      entries.insert field.1 (combineValue (entries.get? field.1) field.2)) base := by
  induction fields generalizing base with
  | nil => rw [combine, List.foldl_nil]
  | cons field rest ih => rw [combine, List.foldl_cons, ih]

/-- A key holds what comes of the incoming value and what it held. -/
theorem get?_combine (base : Entries Value) {fields : Entries Value}
    (hnodup : fields.keys.Nodup) (key : String) :
    (combine base fields).get? key =
      match fields.get? key with
      | some value => some (combineValue (base.get? key) value)
      | none => base.get? key := by
  rw [combine_eq_foldl, Entries.get?_foldl_insert combineValue base hnodup]
  cases fields.get? key <;> rfl

/-! ### Items -/

/-- Whether an item that is there takes one that comes in: a map takes a map that has a key in
common with it, and anything else takes what is equal to it. -/
def takes (held : Value) : Value → Bool
  | .map fields => sharesKey (Entries.keys fields) held
  | item => item == held

variable {base items : List Value} {item : Value}

theorem contains_eq_any_takes (h : item.isMap = false) (base : List Value) :
    base.contains item = base.any (takes · item) := by
  rw [List.contains_eq_any_beq]
  cases item with
  | map => cases h
  | _ => rfl

theorem combineItem_of_not_isMap (h : item.isMap = false) (base : List Value) :
    combineItem base item = if base.any (takes · item) then base else base ++ [item] := by
  rw [← contains_eq_any_takes h]
  cases item with
  | map => cases h
  | _ =>
    rw [combineItem]
    exact nofun

/-- An item that none takes goes to the end. -/
theorem combineItem_of_not_takes (h : ∀ held ∈ base, takes held item = false) :
    combineItem base item = base ++ [item] := by
  cases hmap : item.isMap with
  | false => rw [combineItem_of_not_isMap hmap, if_neg (by simpa using h)]
  | true =>
    cases item with
    | map fields =>
      have hfind : base.findIdx? (sharesKey (Entries.keys fields)) = none :=
        List.findIdx?_eq_none_iff.2 h
      rw [combineItem, hfind]
    | _ => cases hmap

/-- A map goes to the end, or into a map that is there. -/
theorem combineItem_map_cases (base : List Value) (fields : Entries Value) :
    (∀ held ∈ base, takes held (.map fields) = false) ∧
        combineItem base (.map fields) = base ++ [.map fields] ∨
      ∃ i existing, base[i]? = some (.map existing) ∧
        combineItem base (.map fields) = base.set i (.map (combine existing fields)) := by
  cases hfind : base.findIdx? (sharesKey (Entries.keys fields)) with
  | none =>
    have hfree : ∀ held ∈ base, takes held (.map fields) = false :=
      List.findIdx?_eq_none_iff.1 hfind
    exact .inl ⟨hfree, combineItem_of_not_takes hfree⟩
  | some i =>
    -- What shares a key is a map, and the fields go there.
    obtain ⟨hlt, hshares, -⟩ := List.findIdx?_eq_some_iff_getElem.1 hfind
    cases hfirst : base[i] with
    | map existing =>
      have hget : base[i]? = some (.map existing) := by
        rw [List.getElem?_eq_getElem hlt, hfirst]
      exact .inr ⟨i, existing, hget, by simp only [combineItem, hfind, hget]⟩
    | _ =>
      rw [hfirst] at hshares
      cases hshares

/-- An item that is taken makes the list no longer. -/
theorem length_combineItem_of_takes {held : Value} (hmem : held ∈ base)
    (h : takes held item = true) : (combineItem base item).length = base.length := by
  cases hmap : item.isMap with
  | false => rw [combineItem_of_not_isMap hmap, if_pos (List.any_eq_true.2 ⟨held, hmem, h⟩)]
  | true =>
    cases item with
    | map fields =>
      rcases combineItem_map_cases base fields with ⟨hfree, -⟩ | ⟨i, existing, -, hitem⟩
      · rw [hfree held hmem] at h
        cases h
      · rw [hitem, List.length_set]
    | _ => cases hmap

/-- An item goes to the end, or some item takes it and the list gets no longer. -/
theorem combineItem_cases (base : List Value) (item : Value) :
    (∀ held ∈ base, takes held item = false) ∧ combineItem base item = base ++ [item] ∨
      (∃ held ∈ base, takes held item = true) ∧
        (combineItem base item).length = base.length := by
  by_cases h : ∃ held ∈ base, takes held item = true
  · obtain ⟨held, hmem, htakes⟩ := h
    exact .inr ⟨⟨held, hmem, htakes⟩, length_combineItem_of_takes hmem htakes⟩
  · have hfree : ∀ held ∈ base, takes held item = false := by simpa using h
    exact .inl ⟨hfree, combineItem_of_not_takes hfree⟩

/-! ### Lists -/

/-- Neither an item of the first list nor an earlier one of the second takes one of the
second. -/
def SideBySide (base items : List Value) : Prop :=
  (∀ held ∈ base, ∀ item ∈ items, takes held item = false) ∧
    items.Pairwise fun earlier later => takes earlier later = false

theorem sideBySide_nil (base : List Value) : SideBySide base [] := ⟨nofun, .nil⟩

theorem sideBySide_cons_iff {rest : List Value} :
    SideBySide base (item :: rest) ↔
      (∀ held ∈ base, takes held item = false) ∧ SideBySide (base ++ [item]) rest := by
  constructor
  · intro hgiven
    obtain ⟨hbase, hitems⟩ := hgiven
    obtain ⟨hitem, hrest⟩ := List.pairwise_cons.1 hitems
    refine ⟨fun held hmem => hbase held hmem item (List.mem_cons_self ..), ?_, hrest⟩
    refine List.forall_mem_append.2 ⟨fun held hmem later hlater => ?_, ?_⟩
    · exact hbase held hmem later (List.mem_cons_of_mem item hlater)
    · exact List.forall_mem_singleton.2 hitem
  · intro hgiven
    obtain ⟨hitem, hbase, hrest⟩ := hgiven
    obtain ⟨hbase, hlater⟩ := List.forall_mem_append.1 hbase
    refine ⟨fun held hmem => ?_, ?_⟩
    · exact List.forall_mem_cons.2 ⟨hitem held hmem, hbase held hmem⟩
    · exact List.pairwise_cons.2 ⟨hlater item (List.mem_singleton_self item), hrest⟩

/-- Items that stand side by side come in as they are. -/
theorem combineLists_of_sideBySide (h : SideBySide base items) :
    combineLists base items = base ++ items := by
  induction items generalizing base with
  | nil => rw [combineLists, List.append_nil]
  | cons item rest ih =>
    obtain ⟨hitem, hrest⟩ := sideBySide_cons_iff.1 h
    rw [combineLists, combineItem_of_not_takes hitem, ih hrest, List.append_assoc,
      List.singleton_append]

theorem length_combineLists_le (base items : List Value) :
    (combineLists base items).length ≤ base.length + items.length := by
  induction items generalizing base with
  | nil => simp [combineLists]
  | cons item rest ih =>
    have hrest := ih (combineItem base item)
    rw [combineLists, List.length_cons]
    rcases combineItem_cases base item with ⟨-, hitem⟩ | ⟨-, hitem⟩
    · rw [hitem, List.length_append, List.length_singleton] at hrest
      rw [hitem]
      omega
    · omega

/-- Where an item is taken, the list is shorter than the two together. -/
theorem length_combineLists_lt (h : ¬ SideBySide base items) :
    (combineLists base items).length < base.length + items.length := by
  induction items generalizing base with
  | nil => exact absurd (sideBySide_nil base) h
  | cons item rest ih =>
    rw [combineLists, List.length_cons]
    rcases combineItem_cases base item with ⟨hfree, hitem⟩ | ⟨-, hitem⟩
    · have hrest := ih fun hrest => h (sideBySide_cons_iff.2 ⟨hfree, hrest⟩)
      rw [List.length_append, List.length_singleton] at hrest
      rw [hitem]
      omega
    · have hrest := length_combineLists_le (combineItem base item) rest
      omega

/-- A list is the two together exactly if they stand side by side. -/
theorem combineLists_eq_append_iff :
    combineLists base items = base ++ items ↔ SideBySide base items := by
  refine ⟨fun heq => ?_, combineLists_of_sideBySide⟩
  by_contra h
  have hlt := length_combineLists_lt h
  rw [heq, List.length_append] at hlt
  omega

/-- Where no item stands twice, all are there exactly if they stand side by side. -/
theorem forall_mem_combineLists_iff (hnodup : (base ++ items).Nodup) :
    (∀ item ∈ base ++ items, item ∈ combineLists base items) ↔ SideBySide base items := by
  constructor
  · intro hall
    by_contra h
    have hlt := length_combineLists_lt h
    have hle := (List.subperm_of_subset hnodup hall).length_le
    rw [List.length_append] at hle
    omega
  · intro h item hmem
    rwa [combineLists_of_sideBySide h]

end DocumentModel.Merge

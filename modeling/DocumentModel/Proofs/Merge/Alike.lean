import DocumentModel.Proofs.Merge.Growth
import DocumentModel.Proofs.Value.Likeness

/-! Merges of alike values.

A merge respects a likeness if alike values come of it for alike values on both sides (`Respects`).
Both merges of maps go field by field, so they respect a likeness on a map if they do on the values
of its fields (`respects_map`). The merge of lists looks for the item that takes another, and finds
it at the same position in alike lists if the likeness tells no two values apart that compare
differently (`forall₂_combineItem`). Induction over what comes in gives this for all values. So a
merge tells neither equal values apart nor values that differ in the order of map entries alone:
`merges_respect_equality`. -/
namespace DocumentModel.Merge
open Value (Distinct Likeness Alike Same Rearranged Reordered)

variable {E : Value → Value → Prop} {f : Option Value → Value → Value}
  {g : Entries Value → List (String × Value) → Entries Value}
  {base base' items items' : List Value} {item item' held held' value : Value}
  {fields : Entries Value}

/-- Whether a way to merge makes alike values of alike values, where one value comes in. -/
def Respects (E : Value → Value → Prop) (f : Option Value → Value → Value) (value : Value) : Prop :=
  ∀ {existing existing' : Option Value} {value' : Value},
    Option.Rel (Alike E) existing existing' → Alike E value value' →
      Alike E (f existing value) (f existing' value')

/-! ### Maps -/

/-- A merge that goes field by field respects a likeness on a map if it does on what is in it. -/
theorem respects_map (hE : Likeness E) (hf : Fieldwise f g)
    (hfields : ∀ field ∈ fields, Respects E f field.2) : Respects E f (.map fields) := by
  intro existing existing' value' hexisting hvalue
  obtain ⟨fields', rfl⟩ := hE.exists_map hvalue
  obtain ⟨hnodup, hnodup', hkeys⟩ := hE.alike_map_iff.1 hvalue
  cases hexisting with
  | none =>
    rw [hf.new, hf.new]
    exact hvalue
  | @some held held' hheld =>
    have hmaps := hE.isMap_eq hheld.2.2
    cases hmap : held.isMap with
    | false =>
      rw [hf.map_of_not_map hmap, hf.map_of_not_map (hmaps ▸ hmap)]
      exact hvalue
    | true =>
      cases held with
      | map base =>
        obtain ⟨base', rfl⟩ := hE.exists_map hheld
        obtain ⟨hbase, hbase', hbases⟩ := hE.alike_map_iff.1 hheld
        rw [hf.map_of_map, hf.map_of_map, hE.alike_map_iff]
        refine ⟨hf.nodup_keys hbase _, hf.nodup_keys hbase' _, fun key => ?_⟩
        rw [hf.eq_foldl, hf.eq_foldl, Entries.get?_foldl_insert f base hnodup,
          Entries.get?_foldl_insert f base' hnodup']
        have hkey := hkeys key
        cases hget : Entries.get? fields key with
        | none =>
          have hnone : Entries.get? fields' key = none := by
            have hsome := isSome_eq_of_rel hkey
            rw [hget] at hsome
            simpa using hsome.symm
          rw [hnone]
          exact hbases key
        | some incoming =>
          rw [hget] at hkey
          obtain ⟨incoming', hget', hincoming⟩ := exists_of_some_rel hkey
          rw [hget']
          exact .some (hfields _ (Entries.mem_of_get? hget) (hbases key) hincoming)
      | _ => cases hmap

theorem respects_overlayValue (hE : Likeness E) (value : Value) : Respects E overlayValue value := by
  -- What is no map stands as it comes in.
  have hkept : ∀ value : Value, value.isMap = false → Respects E overlayValue value := by
    intro value hmap existing existing' value' _ hvalue
    have hmap' : value'.isMap = false := hE.isMap_eq hvalue.2.2 ▸ hmap
    rw [overlayValue_of_not_map hmap, overlayValue_of_not_map hmap']
    exact hvalue
  induction value using Value.induct with
  | scalar value h => exact hkept value (Bool.or_eq_false_iff.1 h).1
  | list items => exact hkept _ rfl
  | map fields ih => exact respects_map hE fieldwise_overlay ih

/-! ### Lists -/

/-- Whether values compare in the same way as values that are like them. -/
def Comparing (E : Value → Value → Prop) : Prop :=
  ∀ {v v' w w' : Value}, Alike E v v' → Alike E w w' → (v == w) = (v' == w')

theorem takes_of_not_isMap (h : item.isMap = false) (held : Value) :
    takes held item = (item == held) := by
  cases item with
  | map => cases h
  | _ => rfl

theorem sharesKey_eq_true_iff (keys : List String) (held : Entries Value) :
    sharesKey keys (.map held) = true ↔ ∃ key ∈ keys, key ∈ held.keys := by
  rw [sharesKey, List.any_eq_true]
  simp only [Entries.contains, Entries.isSome_get?_iff]

theorem sharesKey_of_not_isMap (h : held.isMap = false) (keys : List String) :
    sharesKey keys held = false := by
  cases held with
  | map => cases h
  | _ => rfl

/-- An item takes another if and only if what is like it takes what is like the other. -/
theorem takes_eq_of_alike (hE : Likeness E) (hcomparing : Comparing E) (hheld : Alike E held held')
    (hitem : Alike E item item') : takes held item = takes held' item' := by
  have hmaps := hE.isMap_eq hitem.2.2
  have hheldMaps := hE.isMap_eq hheld.2.2
  cases hmap : item.isMap with
  | false =>
    rw [takes_of_not_isMap hmap, takes_of_not_isMap (hmaps ▸ hmap)]
    exact hcomparing hitem hheld
  | true =>
    cases item with
    | map fields =>
      obtain ⟨fields', rfl⟩ := hE.exists_map hitem
      rw [takes, takes]
      cases hheldMap : held.isMap with
      | false =>
        rw [sharesKey_of_not_isMap hheldMap, sharesKey_of_not_isMap (hheldMaps ▸ hheldMap)]
      | true =>
        cases held with
        | map existing =>
          obtain ⟨existing', rfl⟩ := hE.exists_map hheld
          have hkeys := Entries.mem_keys_iff_of_rel (hE.alike_map_iff.1 hitem).2.2
          have hheldKeys := Entries.mem_keys_iff_of_rel (hE.alike_map_iff.1 hheld).2.2
          rw [Bool.eq_iff_iff, sharesKey_eq_true_iff, sharesKey_eq_true_iff]
          simp only [hkeys, hheldKeys]
        | _ => cases hheldMap
    | _ => cases hmap

/-- The first map that shares a key takes the fields in. -/
theorem combineItem_of_findIdx? {i : Nat} (hfind : base.findIdx? (takes · (.map fields)) = some i) :
    ∃ existing, base[i]? = some (.map existing) ∧
      combineItem base (.map fields) = base.set i (.map (combine existing fields)) := by
  obtain ⟨hlt, hshares, -⟩ := List.findIdx?_eq_some_iff_getElem.1 hfind
  cases hfirst : base[i] with
  | map existing =>
    have hget : base[i]? = some (.map existing) := by rw [List.getElem?_eq_getElem hlt, hfirst]
    have hfind : base.findIdx? (sharesKey (Entries.keys fields)) = some i := hfind
    refine ⟨existing, hget, ?_⟩
    simp only [combineItem, hfind, hget]
  | _ =>
    rw [hfirst] at hshares
    cases hshares

/-- Alike items that come in for alike lists leave alike lists. -/
theorem forall₂_combineItem (hE : Likeness E) (hcomparing : Comparing E)
    (hrespects : Respects E combineValue item) (hbase : List.Forall₂ (Alike E) base base')
    (hitem : Alike E item item') :
    List.Forall₂ (Alike E) (combineItem base item) (combineItem base' item') := by
  have hfind : base.findIdx? (takes · item) = base'.findIdx? (takes · item') :=
    findIdx?_eq_of_forall₂ hbase fun hheld => takes_eq_of_alike hE hcomparing hheld hitem
  cases hfound : base.findIdx? (takes · item) with
  | none =>
    rw [combineItem_of_not_takes (List.findIdx?_eq_none_iff.1 hfound),
      combineItem_of_not_takes (List.findIdx?_eq_none_iff.1 (hfind ▸ hfound))]
    exact forall₂_concat hbase hitem
  | some i =>
    have hmaps := hE.isMap_eq hitem.2.2
    cases hmap : item.isMap with
    | false =>
      have hany : ∀ {list : List Value} {item : Value}, list.findIdx? (takes · item) = some i →
          list.any (takes · item) = true := by
        intro list item h
        rw [← List.findIdx?_isSome, h]
        rfl
      rw [combineItem_of_not_isMap hmap, combineItem_of_not_isMap (hmaps ▸ hmap), if_pos (hany hfound),
        if_pos (hany (hfind ▸ hfound))]
      exact hbase
    | true =>
      cases item with
      | map fields =>
        obtain ⟨fields', rfl⟩ := hE.exists_map hitem
        obtain ⟨existing, hget, hset⟩ := combineItem_of_findIdx? hfound
        obtain ⟨existing', hget', hset'⟩ := combineItem_of_findIdx? (hfind ▸ hfound)
        have hheld := rel_getElem? hbase i
        rw [hget, hget'] at hheld
        have hmerged := hrespects hheld hitem
        rw [combineValue, combineValue] at hmerged
        rw [hset, hset']
        exact forall₂_set hbase hmerged i
      | _ => cases hmap

/-- Alike lists that come in for alike lists leave alike lists. -/
theorem forall₂_combineLists (hE : Likeness E) (hcomparing : Comparing E)
    (hrespects : ∀ item ∈ items, Respects E combineValue item)
    (hbase : List.Forall₂ (Alike E) base base') (hitems : List.Forall₂ (Alike E) items items') :
    List.Forall₂ (Alike E) (combineLists base items) (combineLists base' items') := by
  induction hitems generalizing base base' with
  | nil =>
    rw [combineLists, combineLists]
    exact hbase
  | cons hitem _ ih =>
    obtain ⟨hfirst, hrest⟩ := List.forall_mem_cons.1 hrespects
    rw [combineLists, combineLists]
    exact ih hrest (forall₂_combineItem hE hcomparing hfirst hbase hitem)

/-- A list comes in for a list, and stands as it is in the place of anything else. -/
theorem respects_list (hE : Likeness E) (hcomparing : Comparing E)
    (hitems : ∀ item ∈ items, Respects E combineValue item) :
    Respects E combineValue (.list items) := by
  intro existing existing' value' hexisting hvalue
  obtain ⟨items', rfl⟩ := hE.exists_list hvalue
  cases hexisting with
  | none =>
    rw [combineValue_none, combineValue_none]
    exact hvalue
  | @some held held' hheld =>
    have hlists := hE.isList_eq hheld.2.2
    cases held with
    | list base =>
      obtain ⟨base', rfl⟩ := hE.exists_list hheld
      simp only [combineValue]
      rw [hE.alike_list_iff] at hheld hvalue ⊢
      exact forall₂_combineLists hE hcomparing hitems hheld hvalue
    | _ =>
      cases held' with
      | list => cases hlists
      | _ =>
        simp only [combineValue]
        exact hvalue

theorem combineValue_of_scalar (h : value.isContainer = false) (existing : Option Value) :
    combineValue existing value = value := by
  cases value with
  | list | map => cases h
  | _ => simp only [combineValue]

theorem respects_combineValue (hE : Likeness E) (hcomparing : Comparing E) (value : Value) :
    Respects E combineValue value := by
  induction value using Value.induct with
  | scalar value h =>
    intro existing existing' value' _ hvalue
    rw [combineValue_of_scalar h, combineValue_of_scalar (hE.isContainer_eq hvalue ▸ h)]
    exact hvalue
  | list items ih => exact respects_list hE hcomparing ih
  | map fields ih => exact respects_map hE fieldwise_combine ih

/-! ### The main statement -/

section
variable {a a' b b' : Entries Value}

/-- Merging maps and nothing else respects every likeness. -/
theorem alike_overlay (hE : Likeness E) (ha : Alike E (.map a) (.map a'))
    (hb : Alike E (.map b) (.map b')) : Alike E (.map (overlay a b)) (.map (overlay a' b')) := by
  have hmerged := respects_overlayValue hE _ (.some ha) hb
  rwa [overlayValue, overlayValue] at hmerged

/-- Merging maps and their lists respects the likenesses that no comparison sees. -/
theorem alike_combine (hE : Likeness E) (hcomparing : Comparing E)
    (ha : Alike E (.map a) (.map a')) (hb : Alike E (.map b) (.map b')) :
    Alike E (.map (combine a b)) (.map (combine a' b')) := by
  have hmerged := respects_combineValue hE hcomparing _ (.some ha) hb
  rwa [combineValue, combineValue] at hmerged

theorem alike_combineLists (hE : Likeness E) (hcomparing : Comparing E)
    (hbase : Alike E (.list base) (.list base')) (hitems : Alike E (.list items) (.list items')) :
    Alike E (.list (combineLists base items)) (.list (combineLists base' items')) := by
  have hmerged := respects_combineValue hE hcomparing _ (.some hbase) hitems
  rwa [combineValue, combineValue] at hmerged

/-- **Merging respects equality.** Equal maps on both sides merge to equal maps, in both ways to
merge maps, and lists whose items are equal merge to lists whose items are equal. Nor does the
order of map entries decide anything, at any depth and on either side: merges of maps or lists that
differ in nothing else differ in nothing else, whatever numbers are in them. -/
theorem merges_respect_equality (ha : Distinct (.map a)) (ha' : Distinct (.map a'))
    (hb : Distinct (.map b)) (hb' : Distinct (.map b')) (hbase : Distinct (.list base))
    (hbase' : Distinct (.list base')) (hitems : Distinct (.list items))
    (hitems' : Distinct (.list items')) :
    ((Value.map a == .map a') = true → (Value.map b == .map b') = true →
      (Value.map (overlay a b) == .map (overlay a' b')) = true ∧
        (Value.map (combine a b) == .map (combine a' b')) = true) ∧
    (List.Forall₂ (fun v w => (v == w) = true) base base' →
      List.Forall₂ (fun v w => (v == w) = true) items items' →
      List.Forall₂ (fun v w => (v == w) = true) (combineLists base items)
        (combineLists base' items')) ∧
    (Reordered (.map a) (.map a') → Reordered (.map b) (.map b') →
      Reordered (.map (overlay a b)) (.map (overlay a' b')) ∧
        Reordered (.map (combine a b)) (.map (combine a' b'))) ∧
    (Reordered (.list base) (.list base') → Reordered (.list items) (.list items') →
      Reordered (.list (combineLists base items)) (.list (combineLists base' items'))) := by
  have hequal : Comparing fun v w => (v == w) = true := Value.beq_eq_of_same
  have hreordered : Comparing Reordered := Value.beq_eq_of_rearranged
  refine ⟨fun hleft hright => ?_, fun hleft hright => ?_, fun hleft hright => ?_,
    fun hleft hright => ?_⟩
  · have hsame : Same (.map a) (.map a') := ⟨ha, ha', hleft⟩
    have hsame' : Same (.map b) (.map b') := ⟨hb, hb', hright⟩
    exact ⟨(alike_overlay Value.likeness_equal hsame hsame').2.2,
      (alike_combine Value.likeness_equal hequal hsame hsame').2.2⟩
  · have hsame : Same (.list base) (.list base') := ⟨hbase, hbase', Value.beq_list_iff.2 hleft⟩
    have hsame' : Same (.list items) (.list items') :=
      ⟨hitems, hitems', Value.beq_list_iff.2 hright⟩
    exact Value.beq_list_iff.1 (alike_combineLists Value.likeness_equal hequal hsame hsame').2.2
  · have halike : Rearranged (.map a) (.map a') := ⟨ha, ha', hleft⟩
    have halike' : Rearranged (.map b) (.map b') := ⟨hb, hb', hright⟩
    exact ⟨(alike_overlay Value.likeness_reordered halike halike').2.2,
      (alike_combine Value.likeness_reordered hreordered halike halike').2.2⟩
  · have halike : Rearranged (.list base) (.list base') := ⟨hbase, hbase', hleft⟩
    have halike' : Rearranged (.list items) (.list items') := ⟨hitems, hitems', hright⟩
    exact (alike_combineLists Value.likeness_reordered hreordered halike halike').2.2

end

/-- A map with a zero, a list and a map of two entries. -/
def reading : Entries Value :=
  [("z", .float (.zero false)), ("l", .list [.int 1]), ("m", .map [("p", .int 1), ("q", .null)])]

/-- The same in another order, with the other zero. -/
def mirrored : Entries Value :=
  [("m", .map [("q", .null), ("p", .int 1)]), ("z", .float (.zero true)), ("l", .list [.int 1])]

/-- What is no number, and a field beside it. -/
def unread : Entries Value := [("x", .float ⟨0x7ff8000000000000⟩), ("y", .null)]

/-- The merges of equal maps are equal for zeros of either sign, and those of reordered maps are
reordered even where a map is not equal to itself. -/
theorem merges_respect_equality_mirrored :
    (Value.map reading == .map mirrored) = true ∧
    (Value.map (overlay reading mirrored) == .map (overlay mirrored reading)) = true ∧
    (Value.map (combine reading mirrored) == .map (combine mirrored reading)) = true ∧
    List.Forall₂ (fun v w => (v == w) = true) (combineLists [.map reading] [.map mirrored])
      (combineLists [.map mirrored] [.map reading]) ∧
    (Value.map unread == .map unread) = false ∧
    Reordered (.map (combine unread reading)) (.map (combine unread.reverse reading)) ∧
    Reordered (.list (combineLists [.map unread] [.map reading]))
      (.list (combineLists [.map unread.reverse] [.map reading])) := by
  have hdistinct : Distinct (.list [.map reading, .map mirrored, .map unread, .map unread.reverse]) := by
    simp [reading, mirrored, unread, Value.distinct_map_iff, Value.distinct_list_iff,
      Value.distinct_of_scalar, Entries.keys, Value.isContainer, Value.isMap, Value.isList]
  simp only [Value.distinct_list_iff, List.forall_mem_cons] at hdistinct
  obtain ⟨hreading, hmirrored, hunread, hreverse, -⟩ := hdistinct
  have hsingle : ∀ {v : Value}, v.Distinct → Distinct (.list [v]) := by
    simp [Value.distinct_list_iff]
  have hequal : (Value.map reading == .map mirrored) = true := by decide
  have hback : (Value.map mirrored == .map reading) = true := by decide
  obtain ⟨hmaps, hlists, -⟩ := merges_respect_equality hreading hmirrored hmirrored hreading
    (hsingle hreading) (hsingle hmirrored) (hsingle hmirrored) (hsingle hreading)
  obtain ⟨-, -, hmaps', hlists'⟩ := merges_respect_equality hunread hreverse hreading hreading
    (hsingle hunread) (hsingle hreverse) (hsingle hreading) (hsingle hreading)
  have hturned : Reordered (.map unread) (.map unread.reverse) := .entries (.swap ..)
  exact ⟨hequal, (hmaps hequal hback).1, (hmaps hequal hback).2,
    hlists (.cons hequal .nil) (.cons hback .nil), by decide, (hmaps' hturned (.refl _)).2,
    hlists' (.item [] [] hturned) (.refl _)⟩

end DocumentModel.Merge

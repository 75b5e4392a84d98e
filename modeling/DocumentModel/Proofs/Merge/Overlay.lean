import DocumentModel.Merge
import DocumentModel.Proofs.Entries.Laws
import DocumentModel.Proofs.Value.Contents

/-! Overlaying maps, key by key.

Each key of the incoming map holds what comes of its value there, and every other key keeps its
value (`get?_overlay`). So a map that has taken a value in already takes it in again without a
change, down to the order of its keys: `overlay_overlay`. -/
namespace DocumentModel.Merge

theorem overlayValue_none (value : Value) : overlayValue none value = value := by
  cases value <;> simp [overlayValue]

theorem overlay_eq_foldl (base fields : Entries Value) :
    overlay base fields = fields.foldl (fun entries field =>
      entries.insert field.1 (overlayValue (entries.get? field.1) field.2)) base := by
  induction fields generalizing base with
  | nil => rw [overlay, List.foldl_nil]
  | cons field rest ih => rw [overlay, List.foldl_cons, ih]

/-- Merging a map into another makes no key stand twice. -/
theorem nodup_keys_overlay {base : Entries Value} (h : base.keys.Nodup)
    (fields : Entries Value) : (overlay base fields).keys.Nodup := by
  induction fields generalizing base with
  | nil => rwa [overlay]
  | cons field rest ih =>
    rw [overlay]
    exact ih (Entries.nodup_keys_insert h field.1 _)

/-- A key holds what comes of the incoming value and what it held. -/
theorem get?_overlay (base : Entries Value) {fields : Entries Value}
    (hnodup : fields.keys.Nodup) (key : String) :
    (overlay base fields).get? key =
      match fields.get? key with
      | some value => some (overlayValue (base.get? key) value)
      | none => base.get? key := by
  rw [overlay_eq_foldl, Entries.get?_foldl_insert overlayValue base hnodup]
  cases fields.get? key <;> rfl

/-- Fields that a map has taken in already change nothing. -/
theorem overlay_eq_self {base fields : Entries Value}
    (h : ∀ field ∈ fields, ∃ held, base.get? field.1 = some held ∧
      overlayValue (some held) field.2 = held) : overlay base fields = base := by
  induction fields with
  | nil => rw [overlay]
  | cons field rest ih =>
    obtain ⟨key, value⟩ := field
    obtain ⟨⟨held, hget, hheld⟩, hrest⟩ := List.forall_mem_cons.1 h
    rw [overlay, hget, hheld, Entries.insert_of_get? hget, ih hrest]

mutual

/-- A value that came in once comes in again without a change. -/
theorem overlayValue_overlayValue (existing : Option Value) : ∀ {value : Value},
    value.Distinct → overlayValue (some (overlayValue existing value)) value =
      overlayValue existing value
  | .map fields, h => by
    obtain ⟨hnodup, hfields⟩ := Value.distinct_map_iff.1 h
    have hagain := forall_overlayValue_overlayValue hfields
    -- The map comes in either for a map, and is merged, or for anything else, and is stored.
    have hmerged : ∀ base, overlay (overlay base fields) fields = overlay base fields := by
      intro base
      refine overlay_eq_self fun field hmem => ⟨_, ?_, hagain (base.get? field.1) field hmem⟩
      rw [get?_overlay base hnodup, Entries.get?_of_mem hnodup hmem]
    have hstored : overlay fields fields = fields := by
      refine overlay_eq_self fun field hmem => ⟨_, Entries.get?_of_mem hnodup hmem, ?_⟩
      have hnone := hagain none field hmem
      rwa [overlayValue_none] at hnone
    cases existing with
    | none => simp only [overlayValue, hstored]
    | some held => cases held <;> simp only [overlayValue, hmerged, hstored]
  | .null, _ | .bool _, _ | .int _, _ | .float _, _ | .string _, _ | .binary _, _
  | .date _, _ | .time _, _ | .timestamp _, _ | .list _, _ => by simp only [overlayValue]

/-- So do the values of fields. -/
theorem forall_overlayValue_overlayValue : ∀ {fields : List (String × Value)},
    (∀ field ∈ fields, field.2.Distinct) → ∀ existing, ∀ field ∈ fields,
      overlayValue (some (overlayValue existing field.2)) field.2 = overlayValue existing field.2
  | [], _, _ => by simp
  | (_, _) :: _, h, existing => by
    obtain ⟨hvalue, hrest⟩ := List.forall_mem_cons.1 h
    exact List.forall_mem_cons.2 ⟨overlayValue_overlayValue existing hvalue,
      forall_overlayValue_overlayValue hrest existing⟩

end

end DocumentModel.Merge

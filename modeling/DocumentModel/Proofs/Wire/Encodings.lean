import DocumentModel.Proofs.Outcome
import DocumentModel.Proofs.Value.Contents
import DocumentModel.Wire.Encoding

/-! The two encodings of values, beside each other.

An encoding goes through a value in the order in which it is written and refuses it at the first
floating-point number that is not finite, with an error that names this number
(`encode_eq_error_iff`). The plain encoding refuses the same values with the same errors, and
what it gives otherwise is the wire form with the numbers taken out of their tags:
`encodeUntagged_eq_untag`. -/
namespace DocumentModel

/-! ### The floating-point numbers of a value -/

namespace Value

mutual

/-- The floating-point numbers that a value holds, in the order in which it is written. -/
def floats : Value → List Binary64
  | .float x => [x]
  | .list items => floatsOfItems items
  | .map fields => floatsOfFields fields
  | _ => []

/-- The floating-point numbers of the items of a list. -/
def floatsOfItems : List Value → List Binary64
  | [] => []
  | item :: rest => floats item ++ floatsOfItems rest

/-- The floating-point numbers of the fields of a map. -/
def floatsOfFields : List (String × Value) → List Binary64
  | [] => []
  | (_, value) :: rest => floats value ++ floatsOfFields rest

end

theorem floats_list (items : List Value) : floats (.list items) = items.flatMap floats := by
  rw [floats]
  induction items with
  | nil => rfl
  | cons item rest ih => rw [floatsOfItems, ih, List.flatMap_cons]

theorem floats_map (fields : List (String × Value)) :
    floats (.map fields) = fields.flatMap fun field => floats field.2 := by
  rw [floats]
  induction fields with
  | nil => rfl
  | cons field rest ih => rw [floatsOfFields, ih, List.flatMap_cons]

/-- The floating-point numbers of a value are those that it contains. -/
theorem mem_floats_iff {v : Value} {x : Binary64} : x ∈ v.floats ↔ v.Contains (.float x) := by
  induction v using Value.induct with
  | scalar v h =>
    cases v with
    | list | map => cases h
    | float y =>
      rw [floats, List.mem_singleton]
      constructor
      · rintro rfl
        exact .self _
      · intro hx
        cases hx
        rfl
    | _ =>
      refine iff_of_false (List.not_mem_nil) fun hx => ?_
      cases hx
  | list items ih =>
    rw [floats_list, List.mem_flatMap]
    constructor
    · rintro ⟨item, hmem, hx⟩
      exact .item hmem ((ih item hmem).1 hx)
    · intro hx
      cases hx with
      | item hmem hx => exact ⟨_, hmem, (ih _ hmem).2 hx⟩
  | map fields ih =>
    rw [floats_map, List.mem_flatMap]
    constructor
    · rintro ⟨field, hmem, hx⟩
      exact .field hmem ((ih field hmem).1 hx)
    · intro hx
      cases hx with
      | field hmem hx => exact ⟨_, hmem, (ih _ hmem).2 hx⟩

end Value

namespace Wire

/-! ### Refusals -/

/-- The error for a number that has no wire form. -/
def noWireForm (x : Binary64) : Error :=
  .because .unsupportedValueType s!"float {x.toText} has no wire representation"

/-- The error for the first number that is not finite. -/
def refusal? (xs : List Binary64) : Option Error :=
  (xs.find? fun x => !x.isFinite).map noWireForm

theorem refusal?_flatMap {α : Type} (f : α → List Binary64) (xs : List α) :
    refusal? (xs.flatMap f) = xs.findSome? fun x => refusal? (f x) := by
  rw [refusal?, List.find?_flatMap, List.map_findSome?]
  rfl

theorem floatNumber_eq_error_iff {x : Binary64} {e : Error} :
    floatNumber x = .error e ↔ refusal? [x] = some e := by
  unfold floatNumber Json.Number.ofBinary64?
  by_cases hfinite : x.isFinite = true
  · rw [dif_pos hfinite]
    simp [refusal?, hfinite]
  · rw [dif_neg hfinite]
    simp [refusal?, hfinite, noWireForm]

/-- A number that is finite becomes itself. -/
theorem floatNumber_eq_ok_iff {x : Binary64} {n : Json.Number} :
    floatNumber x = .ok n ↔ ∃ finite, n = .double x finite := by
  unfold floatNumber Json.Number.ofBinary64?
  by_cases hfinite : x.isFinite = true
  · rw [dif_pos hfinite]
    simp [hfinite, eq_comm]
  · rw [dif_neg hfinite]
    simp [hfinite]

/-- Items are encoded one by one. -/
theorem encodeItems_eq_mapM (items : List Value) : encodeItems items = items.mapM encode :=
  eq_mapM_of_step encode encodeItems rfl (fun _ _ => rfl) items

/-- So are the values of fields, and each keeps its key. -/
theorem encodeFields_eq_mapM (fields : List (String × Value)) :
    encodeFields fields = fields.mapM fun field => (encode field.2).map (field.1, ·) :=
  eq_mapM_of_fieldStep encode encodeFields rfl (fun _ _ _ => rfl) fields

/-- So it is in the plain encoding. -/
theorem encodeUntaggedItems_eq_mapM (items : List Value) :
    encodeUntaggedItems items = items.mapM encodeUntagged :=
  eq_mapM_of_step encodeUntagged encodeUntaggedItems rfl (fun _ _ => rfl) items

theorem encodeUntaggedFields_eq_mapM (fields : List (String × Value)) :
    encodeUntaggedFields fields =
      fields.mapM fun field => (encodeUntagged field.2).map (field.1, ·) :=
  eq_mapM_of_fieldStep encodeUntagged encodeUntaggedFields rfl (fun _ _ _ => rfl) fields

/-- The plain form of a list whose items have one each. -/
theorem encodeUntagged_list {α : Type} {value : α → Value} {json : α → Json} {xs : List α}
    (h : ∀ x ∈ xs, encodeUntagged (value x) = .ok (json x)) :
    encodeUntagged (.list (xs.map value)) = .ok (.array (xs.map json)) := by
  have hitems : encodeUntaggedItems (xs.map value) = .ok (xs.map json) := by
    rw [encodeUntaggedItems_eq_mapM]
    exact mapM_map_eq_ok_iff.2 h
  rw [encodeUntagged, hitems]
  rfl

/-- A value is refused for the first number in it that is not finite, and for nothing else. -/
theorem encode_eq_error_iff {v : Value} {e : Error} :
    encode v = .error e ↔ refusal? v.floats = some e := by
  induction v using Value.induct generalizing e with
  | scalar v h =>
    cases v with
    | list | map => cases h
    | float x =>
      rw [encode, bind_pure_eq_error_iff]
      exact floatNumber_eq_error_iff
    | _ => exact iff_of_false nofun nofun
  | list items ih =>
    -- Both sides stop at one item: the first that is refused holds the first such number.
    rw [encode, bind_pure_eq_error_iff, encodeItems_eq_mapM, Value.floats_list, refusal?_flatMap]
    exact mapM_eq_error_iff_findSome? fun item hmem e => ih item hmem
  | map fields ih =>
    rw [encode, bind_pure_eq_error_iff, encodeFields_eq_mapM, Value.floats_map, refusal?_flatMap]
    refine mapM_eq_error_iff_findSome? fun field hmem e => ?_
    rw [map_eq_error_iff]
    exact ih field hmem

/-- A value is refused exactly if some number that it contains is not finite. -/
theorem exists_encode_error_iff {v : Value} :
    (∃ e, encode v = .error e) ↔ ∃ x, v.Contains (.float x) ∧ x.isFinite = false := by
  simp only [encode_eq_error_iff, ← Option.isSome_iff_exists, refusal?, Option.isSome_map,
    List.find?_isSome, Value.mem_floats_iff, Bool.not_eq_true']

/-- A value is refused for what it holds, and for nothing else. -/
theorem kind_of_encode_error {v : Value} {e : Error} (h : encode v = .error e) :
    e.kind = .unsupportedValueType := by
  rw [encode_eq_error_iff, refusal?, Option.map_eq_some_iff] at h
  obtain ⟨x, -, rfl⟩ := h
  rfl

theorem kind_of_encodeFields_error {fields : List (String × Value)} {e : Error}
    (h : encodeFields fields = .error e) : e.kind = .unsupportedValueType := by
  have hmap : encode (.map fields) = .error e := by rw [encode, bind_pure_eq_error_iff, h]
  exact kind_of_encode_error hmap

/-! ### Numbers out of their tags -/

/-- The payload of an object under a tag. -/
def payload (tag : Tag) : Json → Json
  | .object [(key, inner)] => if key = tag.key then inner else .object [(key, inner)]
  | w => w

mutual

/-- The wire form of a value with the objects that its integers and floating-point numbers
became replaced by their payloads. -/
def untag : Value → Json → Json
  | .int _, w => payload .numberLong w
  | .float _, w => payload .numberFloat w
  | .list items, .array ws => .array (untagItems items ws)
  | .map fields, .object ws => .object (untagFields fields ws)
  | _, w => w

/-- The wire forms of items, with numbers out of their tags. -/
def untagItems : List Value → List Json → List Json
  | item :: rest, w :: ws => untag item w :: untagItems rest ws
  | _, ws => ws

/-- The wire forms of fields, with numbers out of their tags. -/
def untagFields : List (String × Value) → List (String × Json) → List (String × Json)
  | (_, value) :: rest, (key, w) :: ws => (key, untag value w) :: untagFields rest ws
  | _, ws => ws

end

theorem encodeUntaggedItems_eq_untagItems {items : List Value}
    (h : ∀ item ∈ items, encodeUntagged item = (encode item).map (untag item)) :
    encodeUntaggedItems items = (encodeItems items).map (untagItems items) := by
  induction items with
  | nil => rfl
  | cons item rest ih =>
    obtain ⟨hitem, hrest⟩ := List.forall_mem_cons.1 h
    rw [encodeUntaggedItems, encodeItems, hitem, ih hrest]
    cases encode item <;> cases encodeItems rest <;> rfl

theorem encodeUntaggedFields_eq_untagFields {fields : List (String × Value)}
    (h : ∀ field ∈ fields, encodeUntagged field.2 = (encode field.2).map (untag field.2)) :
    encodeUntaggedFields fields = (encodeFields fields).map (untagFields fields) := by
  induction fields with
  | nil => rfl
  | cons field rest ih =>
    obtain ⟨hfield, hrest⟩ := List.forall_mem_cons.1 h
    rw [encodeUntaggedFields, encodeFields, hfield, ih hrest]
    cases encode field.2 <;> cases encodeFields rest <;> rfl

/-- The plain form of a value is its wire form with numbers out of their tags, and neither is there
without the other. -/
theorem encodeUntagged_eq_untag (v : Value) : encodeUntagged v = (encode v).map (untag v) := by
  induction v using Value.induct with
  | scalar v h =>
    cases v with
    | list | map => cases h
    | float x =>
      rw [encodeUntagged, encode]
      cases floatNumber x <;> rfl
    | _ => rfl
  | list items ih =>
    rw [encodeUntagged, encode, encodeUntaggedItems_eq_untagItems ih]
    cases encodeItems items <;> rfl
  | map fields ih =>
    rw [encodeUntagged, encode, encodeUntaggedFields_eq_untagFields ih]
    cases encodeFields fields <;> rfl

/-! ### Both encodings -/

/-- **Both encodings refuse the same values, and differ in the tags of numbers only.** A value is
refused exactly if it contains an infinity or what is no number, and the error names the first of
these in the order in which the value is written. The plain encoding gives the same error, and
otherwise the wire form with the payloads of integers and floating-point numbers in place of their
tagged objects. -/
theorem encodings_agree (v : Value) :
    ((∃ e, encode v = .error e) ↔ ∃ x, v.Contains (.float x) ∧ x.isFinite = false) ∧
    (∀ e, encode v = .error e ↔
      ∃ x, v.floats.find? (fun x => !x.isFinite) = some x ∧ e = noWireForm x) ∧
    (∀ e, encodeUntagged v = .error e ↔ encode v = .error e) ∧
    encodeUntagged v = (encode v).map (untag v) := by
  have herror : ∀ e, encode v = .error e ↔
      ∃ x, v.floats.find? (fun x => !x.isFinite) = some x ∧ e = noWireForm x := by
    intro e
    rw [encode_eq_error_iff, refusal?, Option.map_eq_some_iff]
    simp only [eq_comm]
  refine ⟨exists_encode_error_iff, herror, fun e => ?_, encodeUntagged_eq_untag v⟩
  rw [encodeUntagged_eq_untag, map_eq_error_iff]

/-- A tag that is a key of the value stays, and the number under it loses its own. -/
example :
    untag (.map [("$numberLong", .int 5)])
        (.single "$numberLong" (tagged .numberLong (.number (.ofInt64 5)))) =
      .single "$numberLong" (.number (.ofInt64 5)) := by
  rfl

end Wire
end DocumentModel

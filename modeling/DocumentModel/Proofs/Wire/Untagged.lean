import DocumentModel.Proofs.Wire.Decoded

/-! JSON without tags, and the two readers of it.

The plain encoding writes as JSON has it what JSON has, numbers included, and the reader that knows
no tags reads exactly that back: integers as integers and floating-point numbers as such, whatever
the keys of maps are (`ofUntagged_encodeUntagged_iff`). The reader that knows tags is a recursion of
its own beside it. Where no object of the JSON is tagged, both do the same (`decode_eq_ofUntagged`),
down to the error that stops them, and what both read is the same only there
(`decode_iff_of_ofUntagged`). The three are stated together as `untagged_readings`. -/
namespace DocumentModel

/-! ### JSON -/

namespace Json

/-- What holds of all scalars, of an array if it holds of its items, and of an object if it holds of
the values of its fields, holds of all JSON. -/
@[elab_as_elim]
theorem induct {motive : Json → Prop} (null : motive .null) (bool : ∀ b, motive (.bool b))
    (number : ∀ n, motive (.number n)) (string : ∀ s, motive (.string s))
    (array : ∀ items, (∀ item ∈ items, motive item) → motive (.array items))
    (object : ∀ fields, (∀ field ∈ fields, motive field.2) → motive (.object fields)) (j : Json) :
    motive j := by
  refine @Json.rec motive (fun items => ∀ item ∈ items, motive item)
    (fun fields => ∀ field ∈ fields, motive field.2) (fun field => motive field.2)
    null bool number string array object ?noItems ?item ?noFields ?field (fun _ _ h => h) j
  case noItems => simp
  case item => exact fun _ _ hitem hrest => List.forall_mem_cons.2 ⟨hitem, hrest⟩
  case noFields => simp
  case field => exact fun _ _ hfield hrest => List.forall_mem_cons.2 ⟨hfield, hrest⟩

/-- What JSON is made of: itself, and what its items and the values of its fields are made of. -/
inductive Contains : Json → Json → Prop
  | self (j : Json) : Contains j j
  | item {items : List Json} {item k : Json} :
    item ∈ items → Contains item k → Contains (.array items) k
  | field {fields : List (String × Json)} {field : String × Json} {k : Json} :
    field ∈ fields → Contains field.2 k → Contains (.object fields) k

/-- No object has exactly one field and the key of a tag for it, at any depth. -/
def TagFree (j : Json) : Prop :=
  ∀ fields, j.Contains (.object fields) → ∀ tag : Tag, fields.map Prod.fst ≠ [tag.key]

theorem tagFree_array_iff {items : List Json} :
    TagFree (.array items) ↔ ∀ item ∈ items, item.TagFree := by
  constructor
  · intro h item hmem fields hfields
    exact h fields (.item hmem hfields)
  · intro h fields hfields
    cases hfields with
    | item hmem hfields => exact h _ hmem fields hfields

theorem tagFree_object_iff {fields : List (String × Json)} :
    TagFree (.object fields) ↔
      (∀ tag : Tag, fields.map Prod.fst ≠ [tag.key]) ∧ ∀ field ∈ fields, field.2.TagFree := by
  constructor
  · intro h
    exact ⟨h fields (.self _), fun field hmem inner hinner => h inner (.field hmem hinner)⟩
  · rintro ⟨hkeys, hfields⟩ inner hinner
    cases hinner with
    | self => exact hkeys
    | field hmem hinner => exact hfields _ hmem inner hinner

theorem tagFree_of_leaf {j : Json} (harray : ∀ items, j ≠ .array items)
    (hobject : ∀ fields, j ≠ .object fields) : j.TagFree := by
  intro fields hfields
  cases hfields with
  | self => exact absurd rfl (hobject fields)
  | item => exact absurd rfl (harray _)
  | field => exact absurd rfl (hobject _)

end Json

namespace Wire

variable {j w : Json} {v : Value}

/-! ### Both readers -/

/-- Items are read one by one. -/
theorem ofUntaggedItems_eq_mapM (items : List Json) :
    ofUntaggedItems items = items.mapM ofUntagged :=
  eq_mapM_of_step ofUntagged ofUntaggedItems rfl (fun _ _ => rfl) items

/-- So are the values of fields, and each keeps its key. -/
theorem ofUntaggedFields_eq_mapM (fields : List (String × Json)) :
    ofUntaggedFields fields = fields.mapM fun field => (ofUntagged field.2).map (field.1, ·) :=
  eq_mapM_of_fieldStep ofUntagged ofUntaggedFields rfl (fun _ _ _ => rfl) fields

/-- Without tags both readers read the same and stop at the same error. -/
theorem decode_eq_ofUntagged (h : j.TagFree) : decode j = ofUntagged j := by
  induction j using Json.induct with
  | null | bool | number | string => rfl
  | array items ih =>
    have hitems : ∀ item ∈ items, decode item = ofUntagged item := fun item hmem =>
      ih item hmem (Json.tagFree_array_iff.1 h item hmem)
    rw [decode, ofUntagged, decodeItems_eq_mapM, ofUntaggedItems_eq_mapM, mapM_congr hitems]
  | object fields ih =>
    obtain ⟨hkeys, hfree⟩ := Json.tagFree_object_iff.1 h
    have hfields : ∀ field ∈ fields, (decode field.2).map (field.1, ·) =
        (ofUntagged field.2).map (field.1, ·) := fun field hmem => by
      rw [ih field hmem (hfree field hmem)]
    rw [decode_object (tag?_eq_none_iff.2 hkeys), ofUntagged, decodeFields_eq_mapM,
      ofUntaggedFields_eq_mapM, mapM_congr hfields]

/-- What is read without regard to tags is read by the other reader exactly if there are none. -/
theorem decode_iff_of_ofUntagged (h : ofUntagged j = .ok v) : decode j = .ok v ↔ j.TagFree := by
  induction j using Json.induct generalizing v with
  | null | bool | number | string => exact iff_of_true h (Json.tagFree_of_leaf nofun nofun)
  | array items ih =>
    obtain ⟨vs, hvs, h⟩ := bind_eq_ok_iff.1 h
    cases h
    rw [ofUntaggedItems_eq_mapM] at hvs
    rw [Json.tagFree_array_iff, ← mapM_same_iff hvs fun item hmem _ => ih item hmem,
      ← decodeItems_eq_mapM, decode_array_iff]
  | object fields ih =>
    obtain ⟨vs, hvs, h⟩ := bind_eq_ok_iff.1 h
    cases h
    rw [ofUntaggedFields_eq_mapM] at hvs
    rw [Json.tagFree_object_iff, ← tag?_eq_none_iff,
      ← mapM_fields_same_iff hvs fun field hmem _ => ih field hmem, ← decodeFields_eq_mapM,
      decode_object_iff]

end Wire

/-! ### Plain values -/

namespace Value

/-- A part of a value that JSON has too, so that the plain encoding has no tag for it. -/
def PlainPart : Value → Prop
  | .float x => x.isFinite = true
  | .binary _ | .date _ | .time _ | .timestamp _ => False
  | _ => True

/-- A value is plain if JSON has all its parts. -/
def Plain (v : Value) : Prop := ∀ u, v.Contains u → u.PlainPart

theorem plain_of_scalar {v : Value} (h : v.isContainer = false) (hpart : v.PlainPart) : v.Plain :=
  (forall_contains_scalar_iff h).2 hpart

theorem plain_list_iff {items : List Value} : Plain (.list items) ↔ ∀ item ∈ items, item.Plain :=
  forall_contains_list_iff.trans (and_iff_right trivial)

theorem plain_map_iff {fields : List (String × Value)} :
    Plain (.map fields) ↔ ∀ field ∈ fields, field.2.Plain :=
  forall_contains_map_iff.trans (and_iff_right trivial)

/-- Plain parts can be sent. -/
theorem PlainPart.sendable {u : Value} (h : u.PlainPart) : u.Sendable := by
  cases u with
  | float => exact h
  | _ => trivial

end Value

namespace Wire

variable {w : Json} {v : Value}

theorem ofUntagged_int (n : Int64) : ofUntagged (.number (.ofInt64 n)) = .ok (.int n) := by
  simp only [ofUntagged, numberValue, toInt64?_ofInt64]

/-- A value is read back from its plain form exactly if it is plain. -/
theorem ofUntagged_encodeUntagged_iff (h : encodeUntagged v = .ok w) :
    ofUntagged w = .ok v ↔ v.Plain := by
  induction v using Value.induct generalizing w with
  | scalar v hscalar =>
    rw [Value.Plain, Value.forall_contains_scalar_iff hscalar]
    cases v with
    | list | map => cases hscalar
    | null | bool | string =>
      cases h
      exact iff_of_true rfl trivial
    | int n =>
      cases h
      exact iff_of_true (ofUntagged_int n) trivial
    | float x =>
      obtain ⟨n, hn, h⟩ := bind_eq_ok_iff.1 h
      cases h
      obtain ⟨finite, rfl⟩ := floatNumber_eq_ok_iff.1 hn
      exact iff_of_true rfl finite
    | binary | time | date | timestamp =>
      -- The tag stays, and the object under it is read as a map.
      cases h
      exact iff_of_false nofun not_false
  | list items ih =>
    obtain ⟨ws, hws, h⟩ := bind_eq_ok_iff.1 h
    cases h
    rw [encodeUntaggedItems_eq_mapM] at hws
    rw [Value.plain_list_iff, ← mapM_back_iff hws fun item hmem _ => ih item hmem,
      ← ofUntaggedItems_eq_mapM, ofUntagged]
    exact bind_pure_eq_ok_iff fun _ _ => Value.list.inj
  | map fields ih =>
    obtain ⟨ws, hws, h⟩ := bind_eq_ok_iff.1 h
    cases h
    rw [encodeUntaggedFields_eq_mapM] at hws
    rw [Value.plain_map_iff, ← mapM_fields_back_iff hws fun field hmem _ => ih field hmem,
      ← ofUntaggedFields_eq_mapM, ofUntagged]
    exact bind_pure_eq_ok_iff fun _ _ => Value.map.inj

/-- A plain value has a plain form. -/
theorem exists_encodeUntagged_of_plain (h : v.Plain) : ∃ w, encodeUntagged v = .ok w := by
  obtain ⟨w, hw⟩ := exists_encode_iff.2 fun u hu => (h u hu).sendable
  exact ⟨untag v w, by rw [encodeUntagged_eq_untag, hw, Except.map]⟩

/-- **Plain values come back from their plain form, and both readers of JSON agree where nothing is
tagged.** A value comes back exactly if it holds no scalar that JSON lacks: with the same keys,
tags among them, in the same order, and with integers and floating-point numbers kept apart. JSON
in which no object has exactly one field and a tag for its key is read alike by both readers,
errors included, and other JSON that can be read without regard to tags is read differently. -/
theorem untagged_readings :
    (∀ v : Value, (∃ w, encodeUntagged v = .ok w ∧ ofUntagged w = .ok v) ↔
      ∀ u, v.Contains u → u.PlainPart) ∧
    (∀ j : Json, j.TagFree → decode j = ofUntagged j) ∧
    ∀ (j : Json) (v : Value), ofUntagged j = .ok v → (decode j = .ok v ↔ j.TagFree) := by
  refine ⟨fun v => ⟨?_, fun hplain => ?_⟩, fun j => decode_eq_ofUntagged,
    fun j v => decode_iff_of_ofUntagged⟩
  · rintro ⟨w, hw, hback⟩
    exact (ofUntagged_encodeUntagged_iff hw).1 hback
  · obtain ⟨w, hw⟩ := exists_encodeUntagged_of_plain hplain
    exact ⟨w, hw, (ofUntagged_encodeUntagged_iff hw).2 hplain⟩

/-- The number three under the tag of integers, which is a key like others to the plain encoding. -/
def threeUnderTag : Value := .map [("$numberLong", .list [.float ⟨0x4008000000000000⟩, .int 3])]

/-- Two fields under tags, and behind them an integer that is too large for a signed word. -/
def crowded : Json :=
  .array [.object [("$date", .string "2020"), ("$time", .null)],
    .number (.integer 0x8000000000000000 (by decide))]

/-- The key of a tag comes back as a key, and both readers stop at the integer. -/
theorem untagged_readings_underTags :
    (∃ w, encodeUntagged threeUnderTag = .ok w ∧ ofUntagged w = .ok threeUnderTag ∧
      decode w ≠ .ok threeUnderTag) ∧
    crowded.TagFree ∧ decode crowded = ofUntagged crowded ∧
      ofUntagged crowded = .error (.because .unsupportedValueType
        "integer 9223372036854775808 does not fit in a signed 64-bit value") := by
  have hencode : encodeUntagged threeUnderTag = .ok _ := rfl
  have hfloat : Value.Plain (.float ⟨0x4008000000000000⟩) := Value.plain_of_scalar rfl rfl
  have hint : Value.Plain (.int 3) := Value.plain_of_scalar rfl trivial
  have hplain : threeUnderTag.Plain := by
    simp [threeUnderTag, Value.plain_map_iff, Value.plain_list_iff, hfloat, hint]
  have hfree : crowded.TagFree := by
    simp [crowded, Json.tagFree_array_iff, Json.tagFree_object_iff, Json.tagFree_of_leaf]
  obtain ⟨w, hw, hback⟩ := (untagged_readings.1 threeUnderTag).2 hplain
  refine ⟨⟨w, hw, hback, ?_⟩, hfree, untagged_readings.2.1 crowded hfree, rfl⟩
  rw [ne_eq, untagged_readings.2.2 w _ hback]
  rw [hencode] at hw
  cases hw
  intro h
  exact h _ (.self _) .numberLong rfl

end Wire
end DocumentModel

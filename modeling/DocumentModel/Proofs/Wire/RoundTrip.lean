import DocumentModel.Document.Wire
import DocumentModel.Proofs.Calendar.RoundTrip
import DocumentModel.Proofs.Outcome
import DocumentModel.Proofs.Text.Base64
import DocumentModel.Proofs.Wire.Encodings

/-! Values read back from their wire form.

Only three things that a value can hold are not read back as they were: a map with a single
field whose key is a type tag, which is taken for a scalar, an instant whose year is written
with a sign, which cannot be read, and a stray leap second, which is taken for the second after.
`wire_round_trip_iff`: a value is read back from its wire form exactly if it holds none of them, at
any depth. For a document the root itself may be a map of the first sort, since the fields of a
document are read one by one. -/
namespace DocumentModel

namespace Value

/-- A value that its wire form does not stand for. -/
inductive Misread : Value → Prop
  /-- A map with a single field, whose key is that of a tag. -/
  | tagged (tag : Tag) (value : Value) : Misread (.map [(tag.key, value)])
  /-- An instant whose year is written with a sign. -/
  | signedYear (i : Calendar.Instant) :
    i.date.year < 0 ∨ 9999 < i.date.year → Misread (.timestamp i)
  /-- An instant in a stray leap second. -/
  | strayInstant (i : Calendar.Instant) : i.time.StrayLeap → Misread (.timestamp i)
  /-- A time of day in a stray leap second. -/
  | strayTime (t : Calendar.Time) : t.StrayLeap → Misread (.time t)

/-- Nothing in a value is misread, at any depth. -/
def Readable (v : Value) : Prop := ∀ u, v.Contains u → ¬ Misread u

/-! ### Readable values by kind -/

theorem readable_list_iff {items : List Value} :
    Readable (.list items) ↔ ∀ item ∈ items, item.Readable :=
  forall_contains_list_iff.trans (and_iff_right nofun)

theorem readable_map_iff {fields : List (String × Value)} :
    Readable (.map fields) ↔
      ¬ Misread (.map fields) ∧ ∀ field ∈ fields, field.2.Readable :=
  forall_contains_map_iff

theorem readable_timestamp_iff {i : Calendar.Instant} :
    Readable (.timestamp i) ↔
      (0 ≤ i.date.year ∧ i.date.year ≤ 9999) ∧ ¬ i.time.StrayLeap := by
  constructor
  · intro h
    have hyear : ¬(i.date.year < 0 ∨ 9999 < i.date.year) :=
      fun hyear => h _ (.self _) (.signedYear i hyear)
    exact ⟨by omega, fun hstray => h _ (.self _) (.strayInstant i hstray)⟩
  · intro hgiven u hu hbad
    obtain ⟨hyear, hleap⟩ := hgiven
    cases hu with
    | self =>
      cases hbad with
      | signedYear _ hsigned => omega
      | strayInstant _ hstray => exact hleap hstray

theorem readable_time_iff {t : Calendar.Time} : Readable (.time t) ↔ ¬ t.StrayLeap := by
  refine (forall_contains_scalar_iff rfl).trans (not_congr ⟨fun hbad => ?_, .strayTime t⟩)
  cases hbad with
  | strayTime _ hstray => exact hstray

end Value

namespace Wire

/-! ### Tagged objects -/

theorem decode_tagged (tag : Tag) (payload : Json) :
    decode (tagged tag payload) = decodePayload tag payload := by
  simp only [tagged, Json.single, decode, tag?, Tag.ofKey?_key, Option.map_some]

/-- A payload stands for a scalar, never for a map. -/
theorem decodePayload_ne_map (tag : Tag) (payload : Json) (fields : List (String × Value)) :
    decodePayload tag payload ≠ .ok (.map fields) := by
  intro h
  cases tag
  case numberLong =>
    obtain ⟨n, -, h⟩ := bind_eq_ok_iff.1 h
    split at h <;> cases h
  case numberFloat =>
    obtain ⟨n, -, h⟩ := bind_eq_ok_iff.1 h
    cases h
  case binary =>
    obtain ⟨text, -, h⟩ := bind_eq_ok_iff.1 h
    split at h <;> cases h
  all_goals
    obtain ⟨text, -, h⟩ := bind_eq_ok_iff.1 h
    obtain ⟨_, -, h⟩ := bind_eq_ok_iff.1 h
    cases h

/-- Objects that are no tagged ones are read field by field. -/
theorem decode_object {fields : List (String × Json)} (h : tag? fields = none) :
    decode (.object fields) = (do return .map (← decodeFields fields)) := by
  simp only [decode, h]

/-- Items are decoded one by one. -/
theorem decodeItems_eq_mapM (items : List Json) : decodeItems items = items.mapM decode :=
  eq_mapM_of_step decode decodeItems rfl (fun _ _ => rfl) items

/-- So are the values of fields, and each keeps its key. -/
theorem decodeFields_eq_mapM (fields : List (String × Json)) :
    decodeFields fields = fields.mapM fun field => (decode field.2).map (field.1, ·) :=
  eq_mapM_of_fieldStep decode decodeFields rfl (fun _ _ _ => rfl) fields

/-- An array is read as a list if its items are read. -/
theorem decode_array_iff {ws : List Json} {items : List Value} :
    decode (.array ws) = .ok (.list items) ↔ decodeItems ws = .ok items := by
  rw [decode]
  exact bind_pure_eq_ok_iff fun _ _ => Value.list.inj

/-- An object is read as a map if it is no tagged one, which would be read as a scalar, and if its
fields are read. -/
theorem decode_object_iff {ws : List (String × Json)} {fields : List (String × Value)} :
    decode (.object ws) = .ok (.map fields) ↔ tag? ws = none ∧ decodeFields ws = .ok fields := by
  cases htag : tag? ws with
  | none =>
    rw [decode_object htag, and_iff_right rfl]
    exact bind_pure_eq_ok_iff fun _ _ => Value.map.inj
  | some tagged =>
    have hne := decodePayload_ne_map tagged.1 tagged.2 fields
    rw [decode, htag]
    exact iff_of_false hne (by simp)

/-- A list is read back if its items are. -/
theorem decode_list_iff {α : Type} {json : α → Json} {value : α → Value} {xs : List α} :
    decode (.array (xs.map json)) = .ok (.list (xs.map value)) ↔
      ∀ x ∈ xs, decode (json x) = .ok (value x) := by
  rw [← mapM_map_eq_ok_iff, ← decodeItems_eq_mapM, decode_array_iff]

/-! ### Scalars -/

/-- A word is told from its number. -/
theorem toInt64?_ofInt64 (n : Int64) : (Json.Number.ofInt64 n).toInt64? = some n := by
  have hlt : n.toInt < 0x8000000000000000 := n.toInt_lt
  simp only [Json.Number.ofInt64, Json.Number.toInt64?, if_pos hlt, Int64.ofInt_toInt]

theorem decode_int (n : Int64) : decode (.number (.ofInt64 n)) = .ok (.int n) := by
  simp only [decode, numberValue, toInt64?_ofInt64]

theorem decodePayload_int (n : Int64) :
    decodePayload .numberLong (.number (.ofInt64 n)) = .ok (.int n) := by
  have hlong : long? (.ofInt64 n) = some n := by simp only [long?, toInt64?_ofInt64]
  simp only [decodePayload, expectNumber, hlong, bind, Except.bind]
  rfl

/-- A floating-point number that has a wire form is read back bit by bit. -/
theorem decodePayload_float {x : Binary64} {n : Json.Number} (h : floatNumber x = .ok n) :
    decodePayload .numberFloat (.number n) = .ok (.float x) := by
  obtain ⟨finite, rfl⟩ := floatNumber_eq_ok_iff.1 h
  rfl

theorem decodePayload_binary (bytes : List UInt8) :
    decodePayload .binary (.string (Base64.toText bytes)) = .ok (.binary bytes) := by
  simp only [decodePayload, expectString, Base64.ofText_toText, bind, Except.bind]
  rfl

/-- A payload is taken for a date or a time if it was read as that. -/
theorem expectCalendar_eq_ok_iff {α : Type} {tag : Tag} {text : String}
    {read : Except Calendar.Fault α} {a : α} :
    expectCalendar tag text read = .ok a ↔ read = .ok a := by
  cases read with
  | error fault => exact iff_of_false nofun nofun
  | ok b => rw [expectCalendar, Except.ok.injEq, Except.ok.injEq]

theorem decodePayload_time_iff {text : String} {t : Calendar.Time} :
    decodePayload .time (.string text) = .ok (.time t) ↔ Calendar.Time.ofText text = .ok t :=
  (bind_pure_eq_ok_iff fun _ _ => Value.time.inj).trans expectCalendar_eq_ok_iff

theorem decodePayload_timestamp_iff {text : String} {i : Calendar.Instant} :
    decodePayload .date (.string text) = .ok (.timestamp i) ↔
      Calendar.Instant.ofText text = .ok i :=
  (bind_pure_eq_ok_iff fun _ _ => Value.timestamp.inj).trans expectCalendar_eq_ok_iff

theorem decodePayload_date (d : Calendar.Date) :
    decodePayload .dateDay (.string d.toText) = .ok (.date d) := by
  simp only [decodePayload, expectString, Calendar.Date.ofText_toText, expectCalendar, bind,
    Except.bind]
  rfl

/-! ### Trees -/

/-- Encoding keeps the keys of fields. -/
theorem keys_of_encodeFields {fields : List (String × Value)} {ws : List (String × Json)}
    (h : encodeFields fields = .ok ws) : ws.map Prod.fst = fields.map Prod.fst := by
  induction fields generalizing ws with
  | nil =>
    cases h
    rfl
  | cons field rest ih =>
    obtain ⟨json, -, h⟩ := bind_eq_ok_iff.1 h
    obtain ⟨jsons, hrest, h⟩ := bind_eq_ok_iff.1 h
    cases h
    rw [List.map_cons, List.map_cons, ih hrest]

/-- Fields are tagged exactly if their keys are a single one, that of a tag. -/
theorem tag?_eq_none_iff {ws : List (String × Json)} :
    tag? ws = none ↔ ∀ tag : Tag, ws.map Prod.fst ≠ [tag.key] := by
  match ws with
  | [] => simp [tag?]
  | [(key, payload)] =>
    simp only [tag?, Option.map_eq_none_iff, List.map_cons, List.map_nil, ne_eq, List.cons.injEq,
      and_true]
    constructor
    · intro h tag heq
      subst heq
      rw [Tag.ofKey?_key] at h
      cases h
    · intro h
      cases hkey : Tag.ofKey? key with
      | none => rfl
      | some tag => exact absurd (Tag.key_of_ofKey? hkey).symm (h tag)
  | _ :: _ :: _ => simp [tag?]

theorem misread_map_iff {fields : List (String × Value)} :
    Value.Misread (.map fields) ↔ ∃ tag : Tag, fields.map Prod.fst = [tag.key] := by
  constructor
  · intro h
    cases h with
    | tagged tag value => exact ⟨tag, rfl⟩
  · intro hgiven
    obtain ⟨tag, h⟩ := hgiven
    obtain ⟨⟨key, value⟩, rfl, hkey⟩ := List.map_eq_singleton_iff.1 h
    cases hkey
    exact .tagged tag value

/-- An encoded map is taken for a scalar exactly if the map is misread. -/
theorem tag?_of_encodeFields {fields : List (String × Value)} {ws : List (String × Json)}
    (h : encodeFields fields = .ok ws) : tag? ws = none ↔ ¬ Value.Misread (.map fields) := by
  rw [tag?_eq_none_iff, misread_map_iff, keys_of_encodeFields h, not_exists]

/-- A scalar is readable if it is not itself misread. -/
theorem readable_of_scalar {v : Value} (hc : v.isContainer = false) (h : ¬ v.Misread) :
    v.Readable :=
  (Value.forall_contains_scalar_iff hc).2 h

/-- A list is read back exactly if each of its items is. -/
theorem decodeItems_iff_of {items : List Value} {ws : List Json} (h : encodeItems items = .ok ws)
    (hitems : ∀ item ∈ items, ∀ w, encode item = .ok w →
      (decode w = .ok item ↔ item.Readable)) :
    decodeItems ws = .ok items ↔ ∀ item ∈ items, item.Readable := by
  rw [encodeItems_eq_mapM] at h
  rw [decodeItems_eq_mapM]
  exact mapM_back_iff h hitems

/-- The fields of a map are read back exactly if each of their values is. -/
theorem decodeFields_iff_of {fields : List (String × Value)} {ws : List (String × Json)}
    (h : encodeFields fields = .ok ws)
    (hvalues : ∀ field ∈ fields, ∀ w, encode field.2 = .ok w →
      (decode w = .ok field.2 ↔ field.2.Readable)) :
    decodeFields ws = .ok fields ↔ ∀ field ∈ fields, field.2.Readable := by
  rw [encodeFields_eq_mapM] at h
  rw [decodeFields_eq_mapM]
  exact mapM_fields_back_iff h hvalues

/-- A value is read back exactly if nothing in it is misread. A misread part makes the whole differ
because the parts around it are read one by one. -/
theorem decode_encode_iff {v : Value} {w : Json} (h : encode v = .ok w) :
    decode w = .ok v ↔ v.Readable := by
  induction v using Value.induct generalizing w with
  | scalar v hscalar =>
    cases v with
    | list | map => cases hscalar
    | null | bool | string =>
      cases h
      exact iff_of_true rfl (readable_of_scalar rfl nofun)
    | int n =>
      cases h
      rw [decode_tagged]
      exact iff_of_true (decodePayload_int n) (readable_of_scalar rfl nofun)
    | float x =>
      obtain ⟨n, hn, h⟩ := bind_eq_ok_iff.1 h
      cases h
      rw [decode_tagged]
      exact iff_of_true (decodePayload_float hn) (readable_of_scalar rfl nofun)
    | binary bytes =>
      cases h
      rw [decode_tagged]
      exact iff_of_true (decodePayload_binary bytes) (readable_of_scalar rfl nofun)
    | time t =>
      cases h
      rw [decode_tagged, decodePayload_time_iff, Calendar.Time.ofText_toText_iff,
        Value.readable_time_iff]
    | date d =>
      cases h
      rw [decode_tagged]
      exact iff_of_true (decodePayload_date d) (readable_of_scalar rfl nofun)
    | timestamp i =>
      cases h
      rw [decode_tagged, decodePayload_timestamp_iff, Calendar.Instant.ofText_toText_iff,
        Value.readable_timestamp_iff]
  | list items ih =>
    obtain ⟨ws, hws, h⟩ := bind_eq_ok_iff.1 h
    cases h
    rw [Value.readable_list_iff, ← decodeItems_iff_of hws fun item hmem _ => ih item hmem,
      decode_array_iff]
  | map fields ih =>
    obtain ⟨ws, hws, h⟩ := bind_eq_ok_iff.1 h
    cases h
    rw [Value.readable_map_iff, ← decodeFields_iff_of hws fun field hmem _ => ih field hmem,
      ← tag?_of_encodeFields hws, decode_object_iff]

/-- The fields of a map are read back exactly if nothing in their values is misread. -/
theorem decodeFields_encodeFields_iff {fields : List (String × Value)} {ws : List (String × Json)}
    (h : encodeFields fields = .ok ws) :
    decodeFields ws = .ok fields ↔ ∀ field ∈ fields, field.2.Readable :=
  decodeFields_iff_of h fun _ _ _ => decode_encode_iff

/-! ### What comes back -/

/-- A value comes back from the wire as it was sent. -/
def Returns (v : Value) : Prop := ∃ w, encode v = .ok w ∧ decode w = .ok v

/-- A value comes back exactly if it has a wire form and nothing in it is misread. -/
theorem returns_iff {v : Value} : Returns v ↔ (∃ w, encode v = .ok w) ∧ v.Readable := by
  constructor
  · rintro ⟨w, hw, hback⟩
    exact ⟨⟨w, hw⟩, (decode_encode_iff hw).1 hback⟩
  · rintro ⟨⟨w, hw⟩, hreadable⟩
    exact ⟨w, hw, (decode_encode_iff hw).2 hreadable⟩

/-! ### The round trip -/

/-- **A value is read back from its wire form, exactly as it was, if and only if it holds no
map with a single field under a tag, no instant whose year has a sign and no stray leap second.** A
document is read back if and only if none of its fields holds one, whatever its own keys are. -/
theorem wire_round_trip_iff :
    (∀ (v : Value) (w : Json), encode v = .ok w →
      (decode w = .ok v ↔ ∀ u, v.Contains u → ¬ u.Misread)) ∧
    ∀ (d : Document) (w : Json), d.toWire = .ok w →
      (Document.ofWire w = .ok d ↔ ∀ field ∈ d.root, ∀ u, field.2.Contains u → ¬ u.Misread) := by
  constructor
  · intro v w h
    exact decode_encode_iff h
  · intro d w h
    obtain ⟨ws, hws, h⟩ := bind_eq_ok_iff.1 h
    cases h
    rw [Document.ofWire, bind_eq_ok_iff]
    refine Iff.trans ?_ (decodeFields_encodeFields_iff hws)
    constructor
    · intro hgiven
      obtain ⟨vs, hvs, h⟩ := hgiven
      cases h
      exact hvs
    · intro hvs
      exact ⟨d.root, hvs, rfl⟩

/-- The single field of a map whose key is a tag, over a leap second and a year before zero. -/
def underTag : List (String × Value) :=
  [("$time", .list [.time ⟨23, 59, 59, 1500000000, by decide, by decide, by decide, by decide⟩,
      .date ⟨-1, 2, 28, by decide, by decide, by decide⟩])]

/-- As a value, a map under a tag is not read back from its wire form, and as the root of a
document it is. -/
theorem wire_round_trip_iff_underTag :
    ∃ w, encode (.map underTag) = .ok w ∧ decode w ≠ .ok (.map underTag) ∧
      Document.toWire ⟨underTag⟩ = .ok w ∧ Document.ofWire w = .ok ⟨underTag⟩ := by
  have hencode : encode (.map underTag) = .ok _ := rfl
  have hwire : Document.toWire ⟨underTag⟩ = .ok _ := rfl
  refine ⟨_, hencode, ?_, hwire, ?_⟩
  · rw [ne_eq, wire_round_trip_iff.1 _ _ hencode]
    intro h
    exact h _ (.self _) (.tagged .time _)
  · rw [wire_round_trip_iff.2 _ _ hwire]
    intro field hmem
    rw [List.mem_singleton.1 hmem]
    refine Value.readable_list_iff.2 fun item hitem => ?_
    rcases List.mem_pair.1 hitem with rfl | rfl
    · exact Value.readable_time_iff.2 (by decide)
    · exact readable_of_scalar rfl nofun

/-- A leap second after the third second of a minute. -/
def afterThird : Calendar.Time :=
  ⟨1, 2, 3, 1500000000, by decide, by decide, by decide, by decide⟩

/-- Tagged maps and signed years are not all that is read as something else: a stray leap second is
written, and read, as the second after. -/
theorem not_decode_encode_afterThird :
    ¬ ∀ (v : Value) (w : Json), encode v = .ok w →
      (decode w = .ok v ↔
        (∀ (tag : Tag) (value : Value), ¬ v.Contains (.map [(tag.key, value)])) ∧
          ∀ i, v.Contains (.timestamp i) → 0 ≤ i.date.year ∧ i.date.year ≤ 9999) := by
  intro hall
  have hencode : encode (.time afterThird) = .ok (tagged .time (.string "01:02:04.500")) := rfl
  have hself : ∀ u, Value.Contains (.time afterThird) u → u = .time afterThird :=
    (Value.forall_contains_scalar_iff rfl).2 rfl
  have hback : decode (tagged .time (.string "01:02:04.500")) = .ok (.time afterThird) := by
    refine (hall _ _ hencode).2 ⟨fun tag value hmap => ?_, fun i hinstant => ?_⟩
    · cases hself _ hmap
    · cases hself _ hinstant
  have hother : decode (tagged .time (.string "01:02:04.500")) = .ok (.time
      ⟨1, 2, 4, 500000000, by decide, by decide, by decide, by decide⟩) := rfl
  exact absurd (Value.time.inj (Except.ok.inj (hother.symm.trans hback))) (by decide)

end Wire
end DocumentModel

import DocumentModel.Proofs.Binary64.Integers
import DocumentModel.Proofs.Calendar.Offset
import DocumentModel.Proofs.Wire.Encodings
import DocumentModel.Proofs.Wire.RoundTrip

/-! Values that come from the wire, sent back.

Decoding takes more forms than encoding gives: whole numbers with a fraction of zero, times with
an offset, days and months of one digit. What comes of them is told by `FromWire`, which holds of
everything in a decoded value (`fromWire_of_decode`): floating-point numbers are finite, no map
is taken for a scalar, the year of an instant has four digits or is next to those that do, and
leap seconds are in their place. So a decoded value has a wire form (`exists_encode_iff`), and it is read back from this form
unless an offset has moved an instant out of the years that can be read:
`decode_encode_decoded_iff`. -/
namespace DocumentModel

/-! ### Values that have a wire form -/

/-- A part of a value that does not keep it from the wire: any but an infinity and what is no
number at all. -/
def Value.Sendable : Value → Prop
  | .float x => x.isFinite = true
  | _ => True

namespace Wire

/-- A value has a wire form exactly if all that it contains can be sent. -/
theorem exists_encode_iff {v : Value} :
    (∃ w, encode v = .ok w) ↔ ∀ u, v.Contains u → u.Sendable := by
  rw [exists_ok_iff, exists_encode_error_iff]
  constructor
  · intro hfinite u hu
    cases u with
    | float x => exact Bool.of_not_eq_false fun hx => hfinite ⟨x, hu, hx⟩
    | _ => trivial
  · rintro hsendable ⟨x, hu, hx⟩
    have hfinite : x.isFinite = true := hsendable _ hu
    rw [hfinite] at hx
    cases hx

/-- A map has a wire form exactly if the values of its fields have one. -/
theorem exists_encodeFields_iff {fields : List (String × Value)} :
    (∃ ws, encodeFields fields = .ok ws) ↔ ∀ field ∈ fields, ∃ w, encode field.2 = .ok w := by
  have hself : (Value.map fields).Sendable := trivial
  have hmap := exists_encode_iff (v := .map fields)
  rw [encode, exists_bind_pure_iff, Value.forall_contains_map_iff, and_iff_right hself] at hmap
  simp only [hmap, exists_encode_iff]

end Wire

/-! ### Values that come from the wire -/

/-- What a part of a decoded value is like. -/
def Value.FromWire : Value → Prop
  | .float x => x.isFinite = true
  | .time t => ¬ t.StrayLeap
  | .timestamp i => (-1 ≤ i.date.year ∧ i.date.year ≤ 10000) ∧ ¬ i.time.StrayLeap
  | .map fields => ∀ tag : Tag, fields.map Prod.fst ≠ [tag.key]
  | _ => True

/-- What comes from the wire can be sent back. -/
theorem Value.FromWire.sendable {u : Value} (h : u.FromWire) : u.Sendable := by
  cases u with
  | float => exact h
  | _ => trivial

/-- What comes from the wire is misread only if it is an instant of a year that is just out of
reach. -/
theorem Value.FromWire.misread_iff {u : Value} (h : u.FromWire) :
    u.Misread ↔ ∃ i, u = .timestamp i ∧ (i.date.year = -1 ∨ i.date.year = 10000) := by
  constructor
  · intro hbad
    cases hbad with
    | tagged tag value => exact absurd rfl (h tag)
    | signedYear i hyear =>
      have hreach : -1 ≤ i.date.year ∧ i.date.year ≤ 10000 := h.1
      exact ⟨i, rfl, by omega⟩
    | strayInstant i hstray => exact absurd hstray h.2
    | strayTime t hstray => exact absurd hstray h
  · intro hgiven
    obtain ⟨i, rfl, hyear⟩ := hgiven
    exact .signedYear i (by omega)

namespace Wire
open Value (FromWire forall_contains_scalar_iff forall_contains_list_iff forall_contains_map_iff)

/-- Every number of JSON has a finite number nearest to it. -/
theorem isFinite_toBinary64 (n : Json.Number) : n.toBinary64.isFinite = true := by
  cases n with
  | integer n mem => exact Binary64.isFinite_ofInt mem
  | double x finite => exact finite

theorem fromWire_of_numberValue {n : Json.Number} {v : Value} (h : numberValue n = .ok v) :
    v.isContainer = false ∧ v.FromWire := by
  unfold numberValue at h
  split at h
  · cases h
    exact ⟨rfl, trivial⟩
  · cases n with
    | integer => cases h
    | double x finite =>
      cases h
      exact ⟨rfl, finite⟩

theorem fromWire_of_decodePayload {tag : Tag} {payload : Json} {v : Value}
    (h : decodePayload tag payload = .ok v) : v.isContainer = false ∧ v.FromWire := by
  cases tag
  case numberLong =>
    obtain ⟨n, -, h⟩ := bind_eq_ok_iff.1 h
    split at h <;> cases h
    exact ⟨rfl, trivial⟩
  case numberFloat =>
    obtain ⟨n, -, h⟩ := bind_eq_ok_iff.1 h
    cases h
    exact ⟨rfl, isFinite_toBinary64 n⟩
  case binary =>
    obtain ⟨text, -, h⟩ := bind_eq_ok_iff.1 h
    split at h <;> cases h
    exact ⟨rfl, trivial⟩
  case time =>
    obtain ⟨text, -, h⟩ := bind_eq_ok_iff.1 h
    obtain ⟨t, ht, h⟩ := bind_eq_ok_iff.1 h
    cases h
    exact ⟨rfl, Calendar.Time.not_strayLeap_of_ofText (expectCalendar_eq_ok_iff.1 ht)⟩
  case dateDay =>
    obtain ⟨text, -, h⟩ := bind_eq_ok_iff.1 h
    obtain ⟨_, -, h⟩ := bind_eq_ok_iff.1 h
    cases h
    exact ⟨rfl, trivial⟩
  case date =>
    obtain ⟨text, -, h⟩ := bind_eq_ok_iff.1 h
    obtain ⟨i, hi, h⟩ := bind_eq_ok_iff.1 h
    cases h
    have hread := expectCalendar_eq_ok_iff.1 hi
    exact ⟨rfl, Calendar.Instant.year_ofText hread,
      Calendar.Instant.not_strayLeap_of_ofText hread⟩

/-- Decoding keeps the keys of fields. -/
theorem keys_of_decodeFields {ws : List (String × Json)} {fields : List (String × Value)}
    (h : decodeFields ws = .ok fields) : fields.map Prod.fst = ws.map Prod.fst := by
  induction ws generalizing fields with
  | nil =>
    cases h
    rfl
  | cons w rest ih =>
    obtain ⟨value, -, h⟩ := bind_eq_ok_iff.1 h
    obtain ⟨values, hrest, h⟩ := bind_eq_ok_iff.1 h
    cases h
    rw [List.map_cons, List.map_cons, ih hrest]

mutual

/-- Everything in a decoded value is like what comes from the wire. The three statements follow
the three decoders. -/
theorem fromWire_of_decode : ∀ {j : Json} {v : Value}, decode j = .ok v →
    ∀ u, v.Contains u → u.FromWire
  | .null, v, h => by
    cases h
    exact (forall_contains_scalar_iff rfl).2 trivial
  | .bool b, v, h => by
    cases h
    exact (forall_contains_scalar_iff rfl).2 trivial
  | .string s, v, h => by
    cases h
    exact (forall_contains_scalar_iff rfl).2 trivial
  | .number n, v, h => by
    rw [decode] at h
    obtain ⟨hscalar, hv⟩ := fromWire_of_numberValue h
    exact (forall_contains_scalar_iff hscalar).2 hv
  | .array items, v, h => by
    obtain ⟨values, hvalues, h⟩ := bind_eq_ok_iff.1 h
    cases h
    exact forall_contains_list_iff.2 ⟨trivial, fromWire_of_decodeItems hvalues⟩
  | .object ws, v, h => by
    cases htag : tag? ws with
    | some tagged =>
      rw [decode, htag] at h
      obtain ⟨hscalar, hv⟩ := fromWire_of_decodePayload h
      exact (forall_contains_scalar_iff hscalar).2 hv
    | none =>
      rw [decode_object htag] at h
      obtain ⟨fields, hfields, h⟩ := bind_eq_ok_iff.1 h
      cases h
      refine forall_contains_map_iff.2 ⟨?_, fromWire_of_decodeFields hfields⟩
      intro tag
      rw [keys_of_decodeFields hfields]
      exact tag?_eq_none_iff.1 htag tag

/-- So is everything in decoded items. -/
theorem fromWire_of_decodeItems : ∀ {js : List Json} {items : List Value},
    decodeItems js = .ok items → ∀ item ∈ items, ∀ u, item.Contains u → u.FromWire
  | [], items, h => by
    cases h
    exact nofun
  | j :: rest, items, h => by
    obtain ⟨item, hitem, h⟩ := bind_eq_ok_iff.1 h
    obtain ⟨items, hitems, h⟩ := bind_eq_ok_iff.1 h
    cases h
    exact List.forall_mem_cons.2 ⟨fromWire_of_decode hitem, fromWire_of_decodeItems hitems⟩

/-- So is everything in decoded fields. -/
theorem fromWire_of_decodeFields : ∀ {ws : List (String × Json)}
    {fields : List (String × Value)}, decodeFields ws = .ok fields →
    ∀ field ∈ fields, ∀ u, field.2.Contains u → u.FromWire
  | [], fields, h => by
    cases h
    exact nofun
  | (key, j) :: rest, fields, h => by
    obtain ⟨value, hvalue, h⟩ := bind_eq_ok_iff.1 h
    obtain ⟨fields, hfields, h⟩ := bind_eq_ok_iff.1 h
    cases h
    exact List.forall_mem_cons.2 ⟨fromWire_of_decode hvalue, fromWire_of_decodeFields hfields⟩

end

/-! ### Back and forth -/

/-- **What was decoded can be encoded, and is decoded as the same again unless it holds an
instant of the year before zero or of the year ten thousand.** An offset from universal time can
lead there from the first and the last day of the years that have four digits. -/
theorem decode_encode_decoded_iff {j : Json} {v : Value} (h : decode j = .ok v) :
    ∃ w, encode v = .ok w ∧ (decode w = .ok v ↔
      ∀ i, v.Contains (.timestamp i) → i.date.year ≠ -1 ∧ i.date.year ≠ 10000) := by
  have hfrom := fromWire_of_decode h
  obtain ⟨w, hw⟩ := exists_encode_iff.2 fun u hu => (hfrom u hu).sendable
  refine ⟨w, hw, (decode_encode_iff hw).trans ?_⟩
  constructor
  · intro hreadable i hi
    have hyear := mt (hfrom _ hi).misread_iff.2 (hreadable _ hi)
    simpa using hyear
  · intro hyears u hu hbad
    obtain ⟨i, rfl, hyear⟩ := (hfrom u hu).misread_iff.1 hbad
    have := hyears i hu
    omega

/-- A minute into the year zero, told by a clock that is a minute behind, and an integer that is
one less than a power of two. -/
def received : Json :=
  .array [tagged .date (.string "0000-01-01T00:00:00.5-00:01"),
    tagged .numberFloat (.number (.integer 0xFFFFFFFFFFFFFFFF (by decide)))]

/-- The offset is gone, and the integer is rounded up to the power of two. -/
def understood : List Value :=
  [.timestamp ⟨⟨0, 1, 1, by decide, by decide, by decide⟩,
      ⟨0, 1, 0, 500000000, by decide, by decide, by decide, by decide⟩⟩,
    .float ⟨0x43F0000000000000⟩]

theorem decode_encode_decoded_iff_received :
    decode received = .ok (.list understood) ∧
      ∃ w, encode (.list understood) = .ok w ∧ decode w = .ok (.list understood) := by
  have hdecode : decode received = .ok (.list understood) := rfl
  obtain ⟨w, hw, hiff⟩ := decode_encode_decoded_iff hdecode
  refine ⟨hdecode, w, hw, hiff.2 fun i hi => ?_⟩
  cases hi with
  | item hmem hi =>
    rcases List.mem_pair.1 hmem with rfl | rfl
    · cases hi
      exact ⟨by decide, by decide⟩
    · cases hi

/-- The first minute of the year zero at a clock that is a minute ahead, when the year before is
not over in universal time. -/
def aheadOfYearZero : Json := tagged .date (.string "0000-01-01T00:00:00+00:01")

/-- Not everything that was decoded is decoded again. -/
theorem not_decode_encode_aheadOfYearZero :
    ¬ ∀ (j : Json) (v : Value), decode j = .ok v →
      ∃ w, encode v = .ok w ∧ decode w = .ok v := by
  intro hall
  have hdecode : decode aheadOfYearZero =
      .ok (.timestamp ⟨⟨-1, 12, 31, by decide, by decide, by decide⟩,
        ⟨23, 59, 0, 0, by decide, by decide, by decide, by decide⟩⟩) := rfl
  obtain ⟨w, hw, hagain⟩ := hall _ _ hdecode
  have hyear := (decode_encode_iff hw).1 hagain _ (.self _)
  exact hyear (.signedYear _ (by decide))

end Wire
end DocumentModel

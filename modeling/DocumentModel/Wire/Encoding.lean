import DocumentModel.Json.Basic
import DocumentModel.Text.Base64
import DocumentModel.Value.Basic
import DocumentModel.Wire.Tag

/-! Values as JSON, for the wire.

Null, truth values, strings, lists and maps are written as what they are in JSON, and the
other scalars as objects with one field, whose key is a type tag. The plain encoding leaves
numbers untagged. A floating-point number that is not finite has no form in either. -/
namespace DocumentModel.Wire

/-- A payload under its tag. -/
def tagged (tag : Tag) (payload : Json) : Json := .single tag.key payload

/-- The JSON number of a floating-point number. -/
def floatNumber (x : Binary64) : Except Error Json.Number :=
  match Json.Number.ofBinary64? x with
  | some n => .ok n
  | none =>
    .error (.because .unsupportedValueType s!"float {x.toText} has no wire representation")

mutual

/-- The wire form of a value. -/
def encode : Value → Except Error Json
  | .null => .ok .null
  | .bool b => .ok (.bool b)
  | .string s => .ok (.string s)
  | .int n => .ok (tagged .numberLong (.number (.ofInt64 n)))
  | .float x => do return tagged .numberFloat (.number (← floatNumber x))
  | .binary bytes => .ok (tagged .binary (.string (Base64.toText bytes)))
  | .time t => .ok (tagged .time (.string t.toText))
  | .date d => .ok (tagged .dateDay (.string d.toText))
  | .timestamp i => .ok (tagged .date (.string i.toText))
  | .list items => do return .array (← encodeItems items)
  | .map fields => do return .object (← encodeFields fields)

/-- The wire forms of the items of a list. -/
def encodeItems : List Value → Except Error (List Json)
  | [] => .ok []
  | item :: rest => do
    let json ← encode item
    return json :: (← encodeItems rest)

/-- The wire forms of the fields of a map, in their order. -/
def encodeFields : List (String × Value) → Except Error (List (String × Json))
  | [] => .ok []
  | (key, value) :: rest => do
    let json ← encode value
    return (key, json) :: (← encodeFields rest)

end

mutual

/-- The wire form of a value, with untagged numbers. -/
def encodeUntagged : Value → Except Error Json
  | .int n => .ok (.number (.ofInt64 n))
  | .float x => do return .number (← floatNumber x)
  | .list items => do return .array (← encodeUntaggedItems items)
  | .map fields => do return .object (← encodeUntaggedFields fields)
  | scalar => encode scalar

/-- The plain forms of the items of a list. -/
def encodeUntaggedItems : List Value → Except Error (List Json)
  | [] => .ok []
  | item :: rest => do
    let json ← encodeUntagged item
    return json :: (← encodeUntaggedItems rest)

/-- The plain forms of the fields of a map, in their order. -/
def encodeUntaggedFields : List (String × Value) → Except Error (List (String × Json))
  | [] => .ok []
  | (key, value) :: rest => do
    let json ← encodeUntagged value
    return (key, json) :: (← encodeUntaggedFields rest)

end

/-- The wire text of a value, as general serialization gives it. -/
def serialize (value : Value) : Except Error String :=
  match encode value with
  | .ok json => .ok json.toText
  | .error e => .error e.asSerialization

end DocumentModel.Wire

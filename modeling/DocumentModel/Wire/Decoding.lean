import DocumentModel.Json.Parser
import DocumentModel.Wire.Encoding

/-! Values from wire JSON.

An object with a single field whose key is a type tag is the scalar that the tag says, and
must hold what it takes; every other object is a map. An untagged number is an integer if
one of sixty-four bits holds it, an error if only one without a sign does, and a
floating-point number otherwise. `ofUntagged` reads the same JSON without regard to tags. -/
namespace DocumentModel.Wire
open Calendar

/-- A tagged value that does not hold what its tag says. -/
def mistyped {α : Type} (detail : String) : Except Error α :=
  .error (.because .typeTranslation detail)

/-! ### Untagged JSON -/

/-- The value of an untagged number. -/
def numberValue (n : Json.Number) : Except Error Value :=
  match n.toInt64? with
  | some i => .ok (.int i)
  | none =>
    match n with
    | .double x _ => .ok (.float x)
    | .integer _ _ =>
      .error (.because .unsupportedValueType
        s!"integer {n.toText} does not fit in a signed 64-bit value")

mutual

/-- The value of JSON in which tags have no meaning. -/
def ofUntagged : Json → Except Error Value
  | .null => .ok .null
  | .bool b => .ok (.bool b)
  | .number n => numberValue n
  | .string s => .ok (.string s)
  | .array items => do return .list (← ofUntaggedItems items)
  | .object fields => do return .map (← ofUntaggedFields fields)

/-- The values of the items of an array. -/
def ofUntaggedItems : List Json → Except Error (List Value)
  | [] => .ok []
  | item :: rest => do
    let value ← ofUntagged item
    return value :: (← ofUntaggedItems rest)

/-- The values of the fields of an object, in their order. -/
def ofUntaggedFields : List (String × Json) → Except Error (List (String × Value))
  | [] => .ok []
  | (key, json) :: rest => do
    let value ← ofUntagged json
    return (key, value) :: (← ofUntaggedFields rest)

end

/-! ### Tagged scalars -/

/-- The integer that a number is, if it fits into sixty-four bits. A number that is not
such an integer already may still be one as a floating-point number without fraction. -/
def long? (n : Json.Number) : Option Int64 :=
  match n.toInt64? with
  | some i => some i
  | none =>
    match n.toBinary64.integer? with
    | some i => if -0x8000000000000000 ≤ i ∧ i < 0x8000000000000000 then some (.ofInt i) else none
    | none => none

/-- A payload that must be a number. -/
def expectNumber (tag : Tag) : Json → Except Error Json.Number
  | .number n => .ok n
  | other => mistyped s!"{tag.key} expects a number, got {other.toText}"

/-- A payload that must be a string. -/
def expectString (tag : Tag) : Json → Except Error String
  | .string s => .ok s
  | other => mistyped s!"{tag.key} expects a string, got {other.toText}"

/-- What a reader of dates or times made of a payload. -/
def expectCalendar {α : Type} (tag : Tag) (text : String) : Except Fault α → Except Error α
  | .ok a => .ok a
  | .error fault => mistyped s!"{tag.key} can't parse {Text.quoted text}: {fault.message}"

/-- The scalar that a payload stands for under a tag. -/
def decodePayload (tag : Tag) (payload : Json) : Except Error Value :=
  match tag with
  | .numberLong => do
    let n ← expectNumber tag payload
    match long? n with
    | some i => return .int i
    | none => mistyped s!"{tag.key} expects an integer, got {n.toText}"
  | .numberFloat => do
    let n ← expectNumber tag payload
    return .float n.toBinary64
  | .binary => do
    let text ← expectString tag payload
    match Base64.ofText text with
    | .ok bytes => return .binary bytes
    | .error fault => mistyped s!"{tag.key} has invalid base64: {fault.message}"
  | .time => do
    let text ← expectString tag payload
    return .time (← expectCalendar tag text (Time.ofText text))
  | .dateDay => do
    let text ← expectString tag payload
    return .date (← expectCalendar tag text (Date.ofText text))
  | .date => do
    let text ← expectString tag payload
    return .timestamp (← expectCalendar tag text (Instant.ofText text))

/-! ### Wire JSON -/

/-- The tag and payload of the fields of a tagged object. -/
def tag? : List (String × Json) → Option (Tag × Json)
  | [(key, payload)] => (Tag.ofKey? key).map (·, payload)
  | _ => none

mutual

/-- The value of wire JSON. -/
def decode : Json → Except Error Value
  | .null => .ok .null
  | .bool b => .ok (.bool b)
  | .number n => numberValue n
  | .string s => .ok (.string s)
  | .array items => do return .list (← decodeItems items)
  | .object fields =>
    match tag? fields with
    | some (tag, payload) => decodePayload tag payload
    | none => do return .map (← decodeFields fields)

/-- The values of the items of an array. -/
def decodeItems : List Json → Except Error (List Value)
  | [] => .ok []
  | item :: rest => do
    let value ← decode item
    return value :: (← decodeItems rest)

/-- The values of the fields of an object, in their order. -/
def decodeFields : List (String × Json) → Except Error (List (String × Value))
  | [] => .ok []
  | (key, json) :: rest => do
    let value ← decode json
    return (key, value) :: (← decodeFields rest)

end

/-! ### Text -/

/-- The JSON of a text. -/
def parse (text : String) : Except Error Json :=
  match Json.ofText? text with
  | some json => .ok json
  | none => .error .malformedJson

/-- The value of wire text. -/
def ofText (text : String) : Except Error Value := do decode (← parse text)

/-- What a reader of JSON makes of a text, as general serialization has it: the reader sees
the JSON at the start of the text, and only then must nothing follow it. -/
def deserializeWith {α : Type} (reader : Json → Except Error α) (text : String) :
    Except Error α :=
  match Json.readLeading? text with
  | none => .error .malformedJson
  | some (json, followed) =>
    match reader json with
    | .error e => .error e.asSerialization
    | .ok a => if followed then .error .malformedJson else .ok a

/-- The value of wire text, as general serialization has it. -/
def deserialize (text : String) : Except Error Value := deserializeWith decode text

end DocumentModel.Wire

import DocumentModel.Document.Basic
import DocumentModel.Wire.Decoding

/-! Documents on the wire.

A document is written as a JSON object with the wire forms of its fields. It is read back
field by field, so that a single field at the root is a field even if its key is a type tag. -/
namespace DocumentModel.Document

/-- The document that a value is, which must be a map. -/
def ofValue : Value → Except Error Document
  | .map fields => .ok ⟨fields⟩
  | value =>
    .error (.because .unsupportedValueType
      s!"a {value.kindName} can't be turned into a document")

/-- The document of wire JSON. -/
def ofWire : Json → Except Error Document
  | .object fields => do return ⟨← Wire.decodeFields fields⟩
  | other =>
    .error (.because .serialization s!"document root must be a JSON object, got {other.toText}")

/-- The document of wire text. -/
def ofText (text : String) : Except Error Document := do ofWire (← Wire.parse text)

/-- The document of wire text, as general serialization has it. -/
def deserialize (text : String) : Except Error Document := Wire.deserializeWith ofWire text

/-- The wire JSON of a map, whose tags are its fields' own. -/
def wireOfMap (fields : Entries Value) : Except Error Json := do
  return .object (← Wire.encodeFields fields)

/-- The wire JSON of a document. -/
def toWire (d : Document) : Except Error Json := wireOfMap d.root

/-- The wire text of a document. -/
def toText (d : Document) : Except Error String := do return (← d.toWire).toText

/-- The wire text of a document, as general serialization gives it. -/
def serialize (d : Document) : Except Error String := d.toText.mapError Error.asSerialization

end DocumentModel.Document

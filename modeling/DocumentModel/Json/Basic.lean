import DocumentModel.Entries
import DocumentModel.Json.Number

/-! JSON values, their equality and their compact text.

Objects keep their entries in order, which equality ignores. The text has no blanks; strings escape
quotes, backslashes and controls, and let every other character stand. -/
namespace DocumentModel

/-- A JSON value. -/
inductive Json
  | null
  | bool (b : Bool)
  | number (n : Json.Number)
  | string (s : String)
  | array (items : List Json)
  | object (fields : List (String × Json))

namespace Json

/-- The object with a single field. -/
def single (key : String) (value : Json) : Json := .object [(key, value)]

/-! ### Equality -/

mutual

/-- Equality of JSON values: arrays are compared item by item, and objects key by key. -/
def equals : Json → Json → Bool
  | .null, .null => true
  | .bool a, .bool b => a == b
  | .number m, .number n => m.equals n
  | .string s, .string t => s == t
  | .array a, .array b => equalItems a b
  | .object a, .object b => a.length == b.length && equalFields a b
  | _, _ => false

/-- Equality of arrays, item by item. -/
def equalItems : List Json → List Json → Bool
  | [], [] => true
  | a :: as, b :: bs => equals a b && equalItems as bs
  | _, _ => false

/-- Whether all fields have an equal value under the same key elsewhere. -/
def equalFields : List (String × Json) → List (String × Json) → Bool
  | [], _ => true
  | (key, a) :: rest, other =>
    (match Entries.get? other key with
      | some b => equals a b
      | none => false) && equalFields rest other

end

instance : BEq Json := ⟨equals⟩

/-! ### Text -/

/-- The form of one character in a string. -/
def escape (c : Char) : String :=
  match c with
  | '"' => "\\\""
  | '\\' => "\\\\"
  | '\x08' => "\\b"
  | '\t' => "\\t"
  | '\n' => "\\n"
  | '\x0c' => "\\f"
  | '\r' => "\\r"
  | c =>
    if c.toNat < 0x20 then
      String.ofList
        ['\\', 'u', '0', '0', Nat.digitChar (c.toNat / 16), Nat.digitChar (c.toNat % 16)]
    else c.toString

/-- A string in its quotes. -/
def stringText (s : String) : String :=
  s.toList.foldl (fun out c => out ++ escape c) "\"" ++ "\""

mutual

/-- Adds the text of a value to a text. -/
def write (out : String) : Json → String
  | .null => out ++ "null"
  | .bool b => out ++ if b then "true" else "false"
  | .number n => out ++ n.toText
  | .string s => out ++ stringText s
  | .array items => writeItems (out ++ "[") "" items ++ "]"
  | .object fields => writeFields (out ++ "\x7b") "" fields ++ "\x7d"

/-- Adds the texts of items, each but the first after a comma. -/
def writeItems (out comma : String) : List Json → String
  | [] => out
  | item :: rest => writeItems (write (out ++ comma) item) "," rest

/-- Adds the texts of fields, each but the first after a comma. -/
def writeFields (out comma : String) : List (String × Json) → String
  | [] => out
  | (key, value) :: rest =>
    writeFields (write (out ++ comma ++ stringText key ++ ":") value) "," rest

end

/-- The compact text of a value. -/
def toText (json : Json) : String := write "" json

end Json
end DocumentModel

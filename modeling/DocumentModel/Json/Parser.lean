import DocumentModel.Json.Basic
import DocumentModel.Json.Form

/-! JSON values from text.

A form stands for a value when every number in it has one, every string is text, and no more
than `depthLimit` containers are nested. A key that an object repeats keeps its first place
and takes its last value. -/
namespace DocumentModel.Json

/-- The count of containers that may be nested. -/
def depthLimit : Nat := 127

mutual

/-- The value that a form stands for, where so many containers may still be nested. -/
def Form.json? (depth : Nat) : Form → Option Json
  | .null => some .null
  | .bool b => some (.bool b)
  | .number literal => literal.number?.map .number
  | .text pieces => (join pieces).map .string
  | .array items =>
    match depth with
    | 0 => none
    | depth + 1 => (Form.items? depth [] items).map .array
  | .object fields =>
    match depth with
    | 0 => none
    | depth + 1 => (Form.fields? depth [] fields).map fun fields => .object (Entries.ofList fields)

/-- The values of the items of an array, after values in reverse order. -/
def Form.items? (depth : Nat) (done : List Json) : List Form → Option (List Json)
  | [] => some done.reverse
  | form :: rest =>
    match Form.json? depth form with
    | some json => Form.items? depth (json :: done) rest
    | none => none

/-- The fields of an object, after fields in reverse order. -/
def Form.fields? (depth : Nat) (done : List (String × Json)) :
    List (List Piece × Form) → Option (List (String × Json))
  | [] => some done.reverse
  | (key, form) :: rest =>
    match join key, Form.json? depth form with
    | some key, some json => Form.fields? depth ((key, json) :: done) rest
    | _, _ => none

end

/-- The value that lexemes start with, and whether anything follows it. -/
def leading? (lexemes : List Lexeme) : Option (Json × Bool) := do
  let (form, rest) ← Form.read lexemes
  let json ← form.json? depthLimit
  return (json, !rest.isEmpty)

/-- The value that a text starts with, and whether more than blanks follows it. -/
def readLeading? (text : String) : Option (Json × Bool) := leading? (lexemes text)

/-- The value that a text stands for. -/
def ofText? (text : String) : Option Json :=
  match readLeading? text with
  | some (json, false) => some json
  | _ => none

end DocumentModel.Json

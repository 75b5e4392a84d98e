import DocumentModel.Json.Lexeme

/-! The form of JSON text: how its lexemes nest, before its numbers and strings are known to
stand for anything.

Lexemes are read one at a time by a machine that keeps the containers still open, innermost
first, and knows what may come next. Reading stops as soon as a value is complete, so a
value at the start of a text can be taken whatever follows it. -/
namespace DocumentModel.Json

/-- A value as it is written. -/
inductive Form
  | null
  | bool (b : Bool)
  | number (literal : NumberLiteral)
  | text (pieces : List Piece)
  | array (items : List Form)
  | object (fields : List (List Piece × Form))

namespace Form

/-- A container that is still open, with what it holds so far in reverse order. -/
inductive Open
  | array (done : List Form)
  /-- The last key is the one whose value is being read. -/
  | object (done : List (List Piece × Form)) (key : List Piece)

/-- Where reading stands, with the open containers around it. -/
inductive State
  /-- A value is complete. -/
  | finished (form : Form)
  /-- A value must come. -/
  | value (around : List Open)
  /-- A value must come, or the end of an array. -/
  | item (around : List Open)
  /-- A key must come, or, right at the start of an object, its end. -/
  | key (around : List Open) (done : List (List Piece × Form))
  /-- A colon must come, after a key. -/
  | colon (around : List Open) (done : List (List Piece × Form)) (key : List Piece)
  /-- A comma must come, or the end of the innermost container. -/
  | next (around : List Open)

/-- Puts a complete value into the innermost open container. -/
def place (form : Form) : List Open → State
  | [] => .finished form
  | .array done :: around => .next (.array (form :: done) :: around)
  | .object done key :: around => .next (.object ((key, form) :: done) key :: around)

/-- Starts a value with its first lexeme. -/
def start (around : List Open) : Lexeme → Option State
  | .null => some (place .null around)
  | .bool b => some (place (.bool b) around)
  | .number literal => some (place (.number literal) around)
  | .text pieces => some (place (.text pieces) around)
  | .openArray => some (.item around)
  | .openObject => some (.key around [])
  | _ => none

/-- Reads one lexeme. -/
def step : State → Lexeme → Option State
  | .finished _, _ => none
  | .value around, lexeme => start around lexeme
  | .item around, .closeArray => some (place (.array []) around)
  | .item around, lexeme => start (.array [] :: around) lexeme
  | .key around [], .closeObject => some (place (.object []) around)
  | .key around done, .text key => some (.colon around done key)
  | .key _ _, _ => none
  | .colon around done key, .colon => some (.value (.object done key :: around))
  | .colon _ _ _, _ => none
  | .next (.array done :: around), .comma => some (.value (.array done :: around))
  | .next (.array done :: around), .closeArray => some (place (.array done.reverse) around)
  | .next (.object done _ :: around), .comma => some (.key around done)
  | .next (.object done _ :: around), .closeObject => some (place (.object done.reverse) around)
  | .next _, _ => none

/-- Reads lexemes until a value is complete; what follows it is left. -/
def readFrom : State → List Lexeme → Option (Form × List Lexeme)
  | .finished form, rest => some (form, rest)
  | _, [] => none
  | state, lexeme :: rest =>
    match step state lexeme with
    | some state => readFrom state rest
    | none => none

/-- Reads the value at the start of lexemes. -/
def read (lexemes : List Lexeme) : Option (Form × List Lexeme) := readFrom (.value []) lexemes

/-- The form of a text that is one value, with blanks around it at most. -/
def ofText? (text : String) : Option Form :=
  match read (lexemes text) with
  | some (form, []) => some form
  | _ => none

/-! ### Records

A record of named fields is written as an object that has each of the names once, whatever
else it has, or as an array of the fields in their order. -/

/-- The one form that a name has among fields. -/
def field? (fields : List (String × Form)) (name : String) : Option Form :=
  match fields.filter fun field => field.1 = name with
  | [field] => some field.2
  | _ => none

/-- The forms of the named fields of a record. -/
def record? (names : List String) : Form → Option (List Form)
  | .array items => if items.length = names.length then some items else none
  | .object fields => do
    let fields ← fields.mapM fun (key, form) => (join key).map (·, form)
    names.mapM (field? fields)
  | _ => none

/-- The truth value that a form is. -/
def bool? : Form → Option Bool
  | .bool b => some b
  | _ => none

/-- The word that a form is. -/
def word? : Form → Option UInt64
  | .number literal => literal.word?
  | _ => none

end Form
end DocumentModel.Json

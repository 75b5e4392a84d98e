import DocumentModel.Binary64.Basic
import DocumentModel.Calendar.Instant
import DocumentModel.Entries

/-! Values: what documents and expressions are made of.

A value is a scalar, a list of values or a map from keys to values, which keeps the order of
its entries. Equality looks at lists in order and at maps key by key, keeps integers and
floating-point numbers apart, and compares numbers as numbers. -/
namespace DocumentModel
open Calendar

/-- A node of a document or expression. -/
inductive Value
  | null
  | bool (b : Bool)
  | int (n : Int64)
  | float (x : Binary64)
  | string (s : String)
  | binary (bytes : List UInt8)
  | date (d : Date)
  | time (t : Time)
  | timestamp (i : Instant)
  | list (items : List Value)
  | map (fields : List (String × Value))

instance : Inhabited Value := ⟨.null⟩

namespace Value

/-! ### Kinds -/

/-- The name of a value's kind in messages. -/
def kindName : Value → String
  | .null => "null"
  | .bool _ => "boolean"
  | .int _ => "integer"
  | .float _ => "float"
  | .string _ => "string"
  | .binary _ => "binary"
  | .date _ => "date"
  | .time _ => "time"
  | .timestamp _ => "timestamp"
  | .list _ => "list"
  | .map _ => "map"

def isNull : Value → Bool
  | .null => true
  | _ => false

def isMap : Value → Bool
  | .map _ => true
  | _ => false

def isList : Value → Bool
  | .list _ => true
  | _ => false

/-- Whether a value holds other values. -/
def isContainer (v : Value) : Bool := v.isMap || v.isList

/-! ### Content by kind -/

def bool? : Value → Option Bool
  | .bool b => some b
  | _ => none

/-- The integer that a value is; a floating-point number is none. -/
def int? : Value → Option Int64
  | .int n => some n
  | _ => none

/-- The floating-point number that a value is; an integer is none. -/
def float? : Value → Option Binary64
  | .float x => some x
  | _ => none

def string? : Value → Option String
  | .string s => some s
  | _ => none

def binary? : Value → Option (List UInt8)
  | .binary bytes => some bytes
  | _ => none

def date? : Value → Option Date
  | .date d => some d
  | _ => none

def time? : Value → Option Time
  | .time t => some t
  | _ => none

def timestamp? : Value → Option Instant
  | .timestamp i => some i
  | _ => none

def list? : Value → Option (List Value)
  | .list items => some items
  | _ => none

def map? : Value → Option (Entries Value)
  | .map fields => some fields
  | _ => none

/-! ### Changing containers -/

/-- Changes the items of a list, and nothing else. -/
def mapItems (f : List Value → List Value) : Value → Value
  | .list items => .list (f items)
  | value => value

/-- Changes the fields of a map, and nothing else. -/
def mapFields (f : Entries Value → Entries Value) : Value → Value
  | .map fields => .map (f fields)
  | value => value

/-! ### Equality -/

mutual

/-- Equality of values. -/
def equals : Value → Value → Bool
  | .null, .null => true
  | .bool a, .bool b => a == b
  | .int a, .int b => a == b
  | .float a, .float b => a.numEq b
  | .string a, .string b => a == b
  | .binary a, .binary b => a == b
  | .date a, .date b => a == b
  | .time a, .time b => a == b
  | .timestamp a, .timestamp b => a == b
  | .list a, .list b => equalItems a b
  | .map a, .map b => a.length == b.length && equalFields a b
  | _, _ => false

/-- Equality of lists, item by item. -/
def equalItems : List Value → List Value → Bool
  | [], [] => true
  | a :: as, b :: bs => equals a b && equalItems as bs
  | _, _ => false

/-- Whether all fields have an equal value under the same key elsewhere. -/
def equalFields : List (String × Value) → List (String × Value) → Bool
  | [], _ => true
  | (key, a) :: rest, other =>
    (match Entries.get? other key with
      | some b => equals a b
      | none => false) && equalFields rest other

end

instance : BEq Value := ⟨equals⟩

end Value
end DocumentModel

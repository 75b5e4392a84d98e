import DocumentModel.FieldPath.Parser
import DocumentModel.Value.Basic

/-! Documents and what is found in them.

A document is a map at the root of a tree of values. A field path leads from the root down:
names select in maps, positions in lists, and where nothing is stored, or null, nothing is
found further down either. A step that the value at hand cannot take is an `Obstacle`. -/
namespace DocumentModel

/-- A tree of values with a map at its root. -/
structure Document where
  root : Entries Value

namespace Document

/-- The document without fields. -/
def empty : Document := ⟨[]⟩

/-- Whether a document has no fields. -/
def isEmpty (d : Document) : Bool := d.root.isEmpty

/-- The count of fields at the root. -/
def size (d : Document) : Nat := d.root.length

instance : BEq Document := ⟨fun a b => Value.map a.root == Value.map b.root⟩

/-! ### Obstacles -/

/-- The greatest position up to which a list is extended. -/
def maxPosition : Nat := 0x100000

/-- Why a path cannot be followed. -/
inductive Obstacle
  /-- A list index meets a map. -/
  | indexOnMap
  /-- A name that counts no position meets a list. -/
  | nameOnList
  /-- A step meets a value that holds nothing. -/
  | scalar (kindName : String)
  /-- An item of a list, which is not replaced, would have to hold something. -/
  | scalarItem (kindName : String)
  /-- A position beyond the greatest one. -/
  | positionTooLarge (position : UInt64)
  /-- A value that is no map would become the root. -/
  | scalarRoot (kindName : String)
  deriving DecidableEq

/-- The wording of an obstacle. -/
def Obstacle.message : Obstacle → String
  | .indexOnMap => "index applied to a map"
  | .nameOnList => "name applied to a list"
  | .scalar kindName => s!"can't descend into a {kindName}"
  | .scalarItem kindName => s!"list element is a {kindName}"
  | .positionTooLarge position => s!"index {position} exceeds the maximum of {maxPosition}"
  | .scalarRoot kindName => s!"can't set a {kindName} as the document root"

/-- The error for an obstacle on a path, which is told by its canonical text. -/
def obstructed (path : FieldPath) (obstacle : Obstacle) : Error :=
  FieldPath.malformed path.toText obstacle.message

/-! ### Following a path -/

/-- What a value holds at one step. -/
def child : Value → Segment → Except Obstacle (Option Value)
  | .map fields, .name key => .ok (Entries.get? fields key)
  | .map _, .index _ => .error .indexOnMap
  | .list items, segment =>
    match segment.position? with
    | some position => .ok items[position.toNat]?
    | none => .error .nameOnList
  | .null, _ => .ok none
  | scalar, _ => .error (.scalar scalar.kindName)

/-- What is found by steps from a value, if there is one. -/
def descend : Option Value → List Segment → Except Obstacle (Option Value)
  | found, [] => .ok found
  | none, _ :: _ => .ok none
  | some value, segment :: rest =>
    match child value segment with
    | .ok found => descend found rest
    | .error obstacle => .error obstacle

/-- What is stored at a path below the root. The empty path stores nothing. -/
def lookup (d : Document) (path : FieldPath) : Except Error (Option Value) :=
  if path.isEmpty then .ok none
  else
    match descend (some (.map d.root)) path.segments with
    | .ok found => .ok found
    | .error obstacle => .error (obstructed path obstacle)

/-- What is stored at the path of a text. -/
def find (d : Document) (path : String) : Except Error (Option Value) := do
  d.lookup (← FieldPath.parse path)

/-! ### Reading -/

/-- The value at a path: the root for the empty path, and null where nothing is stored. -/
def get (d : Document) (path : String) : Except Error Value := do
  let path ← FieldPath.parse path
  if path.isEmpty then return .map d.root
  return (← d.lookup path).getD .null

/-- The content of one kind at a path, if a value of that kind is stored there. -/
def getAs {α : Type} (view : Value → Option α) (d : Document) (path : String) :
    Except Error (Option α) := do
  return (← d.find path).bind view

/-- The string at a path. -/
def getString := getAs Value.string?

/-- The integer at a path. -/
def getInt := getAs Value.int?

/-- The floating-point number at a path. -/
def getFloat := getAs Value.float?

/-- The truth value at a path. -/
def getBool := getAs Value.bool?

/-- The bytes at a path. -/
def getBinary := getAs Value.binary?

/-- The date at a path. -/
def getDate := getAs Value.date?

/-- The time of day at a path. -/
def getTime := getAs Value.time?

/-- The instant at a path. -/
def getTimestamp := getAs Value.timestamp?

/-- The list at a path. -/
def getList := getAs Value.list?

/-- The map at a path, which is the root for the empty path. -/
def getMap (d : Document) (path : String) : Except Error (Option (Entries Value)) := do
  let path ← FieldPath.parse path
  if path.isEmpty then return some d.root
  return (← d.lookup path).bind Value.map?

/-- Whether nothing but null is stored at a path. -/
def isNull (d : Document) (path : String) : Except Error Bool := do
  return (← d.find path).all Value.isNull

/-- Whether anything is stored at a path, null included; the root always is. -/
def contains (d : Document) (path : String) : Except Error Bool := do
  let path ← FieldPath.parse path
  if path.isEmpty then return true
  return (← d.lookup path).isSome

/-! ### Identity -/

/-- The value of the identity field. -/
def identity? (d : Document) : Option Value := d.root.get? FieldPath.identityKey

/-- The identity, if it is a string. -/
def identityString? (d : Document) : Option String := d.identity?.bind Value.string?

/-- The identity, if it is binary. -/
def identityBinary? (d : Document) : Option (List UInt8) := d.identity?.bind Value.binary?

/-- Whether there is an identity field. -/
def hasIdentity (d : Document) : Bool := d.identity?.isSome

end Document
end DocumentModel

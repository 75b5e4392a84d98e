import DocumentModel.Document.Wire

/-! Mutations: changes to the fields of one document, told to a store.

A mutation is a map from operators to buckets of paths with values. A bucket of one entry is
a map; with the second path it becomes a list of such maps. The bucket of deletions holds
paths alone, a string for one and a list for more. A path is told by its canonical text, and
a later call for the same path under the same operator overwrites the earlier one. -/
namespace DocumentModel

/-- What a mutation does to a field. -/
inductive FieldChange
  | set
  /-- Sets the field, whatever type is stored there. -/
  | setOrReplace
  | delete
  | append
  | increment
  | decrement
  | merge
  deriving DecidableEq

/-- The key of an operator. -/
def FieldChange.key : FieldChange → String
  | .set => "$set"
  | .setOrReplace => "$put"
  | .delete => "$delete"
  | .append => "$append"
  | .increment => "$increment"
  | .decrement => "$decrement"
  | .merge => "$merge"

/-- The changes to one document, by operator. -/
structure Mutation where
  content : Entries Value

namespace Mutation

/-- The mutation that changes nothing. -/
def empty : Mutation := ⟨[]⟩

/-- Whether a mutation changes nothing. -/
def isEmpty (m : Mutation) : Bool := m.content.isEmpty

/-! ### Paths -/

/-- The canonical text of a path that a mutation may change: neither the document as a whole
nor its identity. -/
def target (path : String) : Except Error String := do
  let parsed ← FieldPath.parse path
  if parsed.isEmpty then throw (.because .malformedPath "mutation field path can't be empty")
  if parsed.isIdentity then throw (.because .malformedPath "_id field can't be set or updated")
  return parsed.toText

/-! ### Buckets -/

/-- The entry of a path. -/
def entry (path : String) (value : Value) : Value := .map [(path, value)]

/-- Whether an item of a bucket is an entry of a path. -/
def isEntryOf (path : String) : Value → Bool
  | .map fields => Entries.contains fields path
  | _ => false

/-- Gives a path a value in a list of entries. -/
def putItem (items : List Value) (path : String) (value : Value) : List Value :=
  match items.findIdx? (isEntryOf path) with
  | some i =>
    match items[i]? with
    | some (.map fields) => items.set i (.map (Entries.insert fields path value))
    | _ => items ++ [entry path value]
  | none => items ++ [entry path value]

/-- Gives a path a value in a bucket. -/
def put (bucket : Option Value) (path : String) (value : Value) : Value :=
  match bucket with
  | none => entry path value
  | some (.map fields) =>
    if Entries.contains fields path then .map (Entries.insert fields path value)
    else .list (putItem [.map fields] path value)
  | some (.list items) => .list (putItem items path value)
  | some other => other

/-- Adds a path to the bucket of deletions. -/
def putDeletion (bucket : Option Value) (path : String) : Value :=
  match bucket with
  | none => .string path
  | some (.list items) =>
    if items.contains (.string path) then .list items else .list (items ++ [.string path])
  | some other => if other == .string path then other else .list [other, .string path]

/-- Records a change of the field at a path. -/
def record (m : Mutation) (op : FieldChange) (path : String) (value : Value) :
    Except Error Mutation := do
  let path ← target path
  return ⟨m.content.insert op.key (put (m.content.get? op.key) path value)⟩

/-! ### Changes -/

/-- Sets a field. -/
def set (m : Mutation) (path : String) (value : Value) : Except Error Mutation :=
  m.record .set path value

/-- Sets a field, whatever type is stored there. -/
def setOrReplace (m : Mutation) (path : String) (value : Value) : Except Error Mutation :=
  m.record .setOrReplace path value

/-- Appends to a string. -/
def appendString (m : Mutation) (path text : String) : Except Error Mutation :=
  m.record .append path (.string text)

/-- Appends to a list. -/
def appendList (m : Mutation) (path : String) (items : List Value) : Except Error Mutation :=
  m.record .append path (.list items)

/-- Merges fields into a map. -/
def mergeMap (m : Mutation) (path : String) (fields : Entries Value) : Except Error Mutation :=
  m.record .merge path (.map fields)

/-- Merges a document into a map. -/
def mergeDocument (m : Mutation) (path : String) (d : Document) : Except Error Mutation :=
  m.mergeMap path d.root

/-- Deletes a field. -/
def delete (m : Mutation) (path : String) : Except Error Mutation := do
  let path ← target path
  let key := FieldChange.delete.key
  return ⟨m.content.insert key (putDeletion (m.content.get? key) path)⟩

/-- The error for an amount that is not positive. -/
def notPositive {α : Type} (op : FieldChange) (amount : String) : Except Error α :=
  .error (.because .invalidMagnitude s!"{op.key} magnitude must be positive, got {amount}")

/-- Changes a number by an integer, which must be positive. -/
def changeByInt (m : Mutation) (op : FieldChange) (path : String) (amount : Int64) :
    Except Error Mutation :=
  if 0 < amount then m.record op path (.int amount)
  else notPositive op amount.toInt.repr

/-- Changes a number by a floating-point number, which must be positive. -/
def changeByFloat (m : Mutation) (op : FieldChange) (path : String) (amount : Binary64) :
    Except Error Mutation :=
  if amount.isPositive then m.record op path (.float amount)
  else notPositive op amount.toText

/-- Increments a number by an integer. -/
def incrementInt (m : Mutation) (path : String) (amount : Int64) : Except Error Mutation :=
  m.changeByInt .increment path amount

/-- Decrements a number by an integer. -/
def decrementInt (m : Mutation) (path : String) (amount : Int64) : Except Error Mutation :=
  m.changeByInt .decrement path amount

/-- Increments a number by a floating-point number. -/
def incrementFloat (m : Mutation) (path : String) (amount : Binary64) : Except Error Mutation :=
  m.changeByFloat .increment path amount

/-- Decrements a number by a floating-point number. -/
def decrementFloat (m : Mutation) (path : String) (amount : Binary64) : Except Error Mutation :=
  m.changeByFloat .decrement path amount

/-- Increments a number by the integer one. -/
def incrementIntByOne (m : Mutation) (path : String) : Except Error Mutation :=
  m.record .increment path (.int 1)

/-- Decrements a number by the integer one. -/
def decrementIntByOne (m : Mutation) (path : String) : Except Error Mutation :=
  m.record .decrement path (.int 1)

/-- Increments a number by the floating-point number one. -/
def incrementFloatByOne (m : Mutation) (path : String) : Except Error Mutation :=
  m.record .increment path (.float .one)

/-- Decrements a number by the floating-point number one. -/
def decrementFloatByOne (m : Mutation) (path : String) : Except Error Mutation :=
  m.record .decrement path (.float .one)

/-! ### Wire form -/

/-- The wire JSON of a mutation. -/
def toWire (m : Mutation) : Except Error Json := Document.wireOfMap m.content

/-- The wire text of a mutation. -/
def toText (m : Mutation) : Except Error String := do return (← m.toWire).toText

end Mutation
end DocumentModel

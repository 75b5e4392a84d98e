import DocumentModel.Document.Basic
import DocumentModel.Merge

/-! Changing documents.

`set` stores a value at a path. On the way there it creates the containers that are missing,
replaces scalars of maps, and extends lists with nulls; at the end, a map is merged into a
map and any other value replaces what is stored. `delete` takes what is stored at a path out
of its container.

An edit goes from the root down and may have changed something when it meets an obstacle, so
an `Edit` is a document together with the error, if there was one. -/
namespace DocumentModel.Document
open Merge (overlay)

/-- What an edit leaves: the document, and what stopped the edit, if anything did. -/
structure Edit where
  document : Document
  error : Option Error := none

/-! ### Storing a value -/

/-- The empty container that a step can be taken into. -/
def emptyFor : Segment → Value
  | .index _ => .list []
  | .name _ => .map []

/-- What a slot holds after a value is stored in it. -/
def fill : Value → Value → Value
  | .map base, .map fields => .map (overlay base fields)
  | _, value => value

/-- A slot made ready for the next step. Null becomes an empty container, and so does a
scalar, except as an item of a list, which is an obstacle. -/
def prepare (inList : Bool) (slot : Value) : List Segment → Except Obstacle Value
  | [] => .ok slot
  | next :: _ =>
    if slot.isContainer then .ok slot
    else if slot.isNull || !inList then .ok (emptyFor next)
    else .error (.scalarItem slot.kindName)

/-- A list extended with nulls so that it has a position. -/
def extend (items : List Value) (position : Nat) : List Value :=
  items ++ List.replicate (position + 1 - items.length) .null

/-- Stores a value at the end of the steps from a target. The target is given back as it is
when the last step is taken or an obstacle is met. -/
def store (value : Value) : List Segment → Value → Value × Option Obstacle
  | [], target => (fill target value, none)
  | segment :: rest, target =>
    match target, segment with
    | .map fields, .name key =>
      let slot := (Entries.get? fields key).getD .null
      match prepare false slot rest with
      | .error obstacle => (.map (Entries.insert fields key slot), some obstacle)
      | .ok ready =>
        let (stored, obstacle) := store value rest ready
        (.map (Entries.insert fields key stored), obstacle)
    | .map fields, .index _ => (.map fields, some .indexOnMap)
    | .list items, segment =>
      match segment.position? with
      | none => (.list items, some .nameOnList)
      | some position =>
        if maxPosition < position.toNat then (.list items, some (.positionTooLarge position))
        else
          let extended := extend items position.toNat
          let slot := extended[position.toNat]?.getD .null
          match prepare true slot rest with
          | .error obstacle => (.list extended, some obstacle)
          | .ok ready =>
            let (stored, obstacle) := store value rest ready
            (.list (extended.set position.toNat stored), obstacle)
    | scalar, _ => (scalar, some (.scalar scalar.kindName))

/-! ### Identity -/

/-- Refuses an empty string and an empty byte sequence as an identity. -/
def requireIdentity : Value → Except Error Unit
  | .string "" => .error (.because .emptyIdentity "identity string can't be empty")
  | .binary [] => .error (.because .emptyIdentity "identity byte sequence can't be empty")
  | _ => .ok ()

/-- Gives a document an identity. -/
def setIdentity (d : Document) (identity : Value) : Edit :=
  match requireIdentity identity with
  | .ok () => ⟨⟨d.root.insert FieldPath.identityKey identity⟩, none⟩
  | .error e => ⟨d, some e⟩

/-- Gives a document a string for its identity. -/
def setIdentityString (d : Document) (identity : String) : Edit := d.setIdentity (.string identity)

/-- Gives a document bytes for its identity. -/
def setIdentityBinary (d : Document) (identity : List UInt8) : Edit :=
  d.setIdentity (.binary identity)

/-! ### Edits -/

/-- Merges a map into the root, whose identity must stay a valid one. -/
def setRoot (d : Document) (path : FieldPath) : Value → Edit
  | .map fields =>
    match Entries.get? fields FieldPath.identityKey with
    | none => ⟨⟨overlay d.root fields⟩, none⟩
    | some identity =>
      match requireIdentity identity with
      | .ok () => ⟨⟨overlay d.root fields⟩, none⟩
      | .error e => ⟨d, some e⟩
  | value => ⟨d, some (obstructed path (.scalarRoot value.kindName))⟩

/-- The first list index as such that is beyond the greatest position. -/
def oversized? (path : FieldPath) : Option UInt64 :=
  path.segments.findSome? fun
    | .index position => if maxPosition < position.toNat then some position else none
    | .name _ => none

/-- Stores a value at a place below the root. -/
def storeAt (d : Document) (path : FieldPath) (value : Value) : Edit :=
  let (target, obstacle) := store value path.segments (.map d.root)
  ⟨⟨target.map?.getD d.root⟩, obstacle.map (obstructed path)⟩

/-- Stores a value at a path. -/
def setAt (d : Document) (path : FieldPath) (value : Value) : Edit :=
  if path.isIdentity then d.setIdentity value
  else if path.isEmpty then d.setRoot path value
  else
    match oversized? path with
    | some position => ⟨d, some (obstructed path (.positionTooLarge position))⟩
    | none => d.storeAt path value

/-- Stores a value at the path of a text. -/
def set (d : Document) (path : String) (value : Value) : Edit :=
  match FieldPath.parse path with
  | .ok path => d.setAt path value
  | .error e => ⟨d, some e⟩

/-- Takes what is stored at the end of steps from a value out of its container; where the
steps lead nowhere, nothing changes. -/
def eraseFrom : List Segment → Value → Value
  | [], value => value
  | segment :: rest, value =>
    match value, segment with
    | .map fields, .name key =>
      match rest, Entries.get? fields key with
      | [], _ => .map (Entries.erase fields key)
      | _ :: _, some child => .map (Entries.insert fields key (eraseFrom rest child))
      | _ :: _, none => .map fields
    | .list items, segment =>
      match segment.position? with
      | none => .list items
      | some position =>
        match rest, items[position.toNat]? with
        | [], _ => .list (items.eraseIdx position.toNat)
        | _ :: _, some child => .list (items.set position.toNat (eraseFrom rest child))
        | _ :: _, none => .list items
    | value, _ => value

/-- Takes what is stored at a path out of its container. -/
def deleteAt (d : Document) (path : FieldPath) : Document :=
  ⟨(eraseFrom path.segments (.map d.root)).map?.getD d.root⟩

/-- Takes what is stored at the path of a text out of its container. -/
def delete (d : Document) (path : String) : Edit :=
  match FieldPath.parse path with
  | .ok path => ⟨d.deleteAt path, none⟩
  | .error e => ⟨d, some e⟩

/-- Merges another document into a document. -/
def merge (d other : Document) : Document := ⟨overlay d.root other.root⟩

/-- Takes every field away. -/
def clear (_ : Document) : Document := empty

end DocumentModel.Document

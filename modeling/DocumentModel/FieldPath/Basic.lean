import DocumentModel.Text.Blank
import DocumentModel.Text.Numeral

/-! Field paths: sequences of names and list indices that address a place in a document.

A name that consists of decimal digits also stands for the list position that they count, so
a position may be given either way; `Segment.position?` is that reading. -/
namespace DocumentModel

/-- The list position that digits stand for, if they are digits and count less than a word
can hold. -/
def position? (digits : List Char) : Option UInt64 :=
  if digits ≠ [] ∧ digits.all Char.isDigit then
    let n := Text.numeral digits
    if n < UInt64.size then some (.ofNat n) else none
  else none

/-- One step of a field path. -/
inductive Segment
  /-- A map key. -/
  | name (key : String)
  /-- A list position. -/
  | index (position : UInt64)
  deriving DecidableEq

/-- The list position that a segment addresses, if it addresses any. -/
def Segment.position? : Segment → Option UInt64
  | .index position => some position
  | .name key => DocumentModel.position? key.toList

/-- Whether a segment is a list index as such. -/
def Segment.isIndex : Segment → Bool
  | .index _ => true
  | .name _ => false

/-- A place in a document, as the steps that lead to it from the root. -/
structure FieldPath where
  segments : List Segment
  deriving DecidableEq

namespace FieldPath

/-- The reserved name of the identity of a document. -/
def identityKey : String := "_id"

/-- Whether a path addresses the whole document. -/
def isEmpty (p : FieldPath) : Bool := p.segments.isEmpty

theorem isEmpty_iff {p : FieldPath} : p.isEmpty = true ↔ p.segments = [] := List.isEmpty_iff

/-- The count of steps. -/
def length (p : FieldPath) : Nat := p.segments.length

/-- Whether a path is the identity field of the root and nothing more. -/
def isIdentity (p : FieldPath) : Bool := p.segments = [.name identityKey]

theorem isIdentity_iff {p : FieldPath} :
    p.isIdentity = true ↔ p.segments = [.name identityKey] := decide_eq_true_iff

/-- Whether a step is a list index as such. -/
def hasIndex (p : FieldPath) : Bool := p.segments.any Segment.isIndex

/-- The last step. -/
def last? (p : FieldPath) : Option Segment := p.segments.getLast?

/-- The path without its last step. -/
def parent (p : FieldPath) : FieldPath := ⟨p.segments.dropLast⟩

end FieldPath
end DocumentModel

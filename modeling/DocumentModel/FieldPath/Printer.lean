import DocumentModel.FieldPath.Basic

/-! The text of field paths.

A name stands as it is where that reads back, and otherwise in quotes, of the kind that it
does not hold. Names have a point before them, except at the start; indices stand in
brackets. -/
namespace DocumentModel

/-- Whether a character ends a name that is not quoted. -/
def isDelimiter (c : Char) : Bool := c == '.' || c == '[' || c == ']'

/-- Whether a character opens a quoted name. -/
def isQuote (c : Char) : Bool := c == '"' || c == '\''

/-- Whether a name can stand without quotes. -/
def isBare (name : List Char) : Bool :=
  name ≠ [] && Text.trim name = name && !name.head?.any isQuote && !name.any isDelimiter

namespace Segment

/-- The text of a segment, as characters. -/
def chars : Segment → List Char
  | .index position => '[' :: Nat.toDigits 10 position.toNat ++ [']']
  | .name key =>
    let name := key.toList
    if isBare name then name
    else if name.contains '"' then '\'' :: name ++ ['\'']
    else '"' :: name ++ ['"']

/-- The text of a segment. -/
def toText (s : Segment) : String := String.ofList s.chars

/-- The text of a segment that is not the first. -/
def laterChars (s : Segment) : List Char := if s.isIndex then s.chars else '.' :: s.chars

end Segment

namespace FieldPath

/-- The text of a path, as characters. -/
def chars (p : FieldPath) : List Char :=
  match p.segments with
  | [] => []
  | first :: rest => first.chars ++ rest.flatMap Segment.laterChars

/-- The text of a path. -/
def toText (p : FieldPath) : String := String.ofList p.chars

end FieldPath
end DocumentModel

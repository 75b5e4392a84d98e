import DocumentModel.Error
import DocumentModel.FieldPath.Printer
import DocumentModel.Text.Quoted

/-! Field paths from text.

Points and blanks separate. A bracket opens an index, a quote a name that goes on to the same
quote, and anything else a name that goes on to the next point or bracket and loses the
blanks around it. After a quoted name only a separator may follow. Texts of points and blanks
alone are the empty path. -/
namespace DocumentModel.FieldPath
open Text (isBlank skipBlanks trim)

/-- Why a text is not a field path. -/
inductive SyntaxFault
  /-- A bracket is not closed. -/
  | unmatchedOpening
  /-- What stands in brackets is no list position. -/
  | invalidIndex (content : String)
  /-- A bracket closes nothing. -/
  | unmatchedClosing
  /-- A quote is not closed. -/
  | unterminatedQuote
  /-- Text follows a quoted name at once. -/
  | textAfterQuote
  deriving DecidableEq

/-- The wording of a fault. -/
def SyntaxFault.message : SyntaxFault → String
  | .unmatchedOpening => "unmatched '['"
  | .invalidIndex content => s!"invalid index '[{content}]'"
  | .unmatchedClosing => "unmatched ']'"
  | .unterminatedQuote => "unterminated quote"
  | .textAfterQuote => "unexpected text after quoted name"

theorem length_dropWhile_le (p : Char → Bool) (cs : List Char) :
    (cs.dropWhile p).length ≤ cs.length :=
  (List.dropWhile_sublist p).length_le

/-- Whether the text after a quoted name and its blanks may stand there. -/
def mayFollowQuote : List Char → Bool
  | [] => true
  | c :: _ => c == '.' || c == '['

/-- Reads the segments of a text, after segments in reverse order. -/
def segmentsFrom (done : List Segment) : List Char → Except SyntaxFault (List Segment)
  | [] => .ok done.reverse
  | c :: rest =>
    if c = '.' || isBlank c then segmentsFrom done rest
    else if c = '[' then
      match h : rest.dropWhile (· != ']') with
      | [] => .error .unmatchedOpening
      | _ :: after =>
        let content := rest.takeWhile (· != ']')
        have : after.length < rest.length := by
          have := length_dropWhile_le (· != ']') rest
          rw [h, List.length_cons] at this
          omega
        match position? (trim content) with
        | some position => segmentsFrom (.index position :: done) after
        | none => .error (.invalidIndex (String.ofList content))
    else if c = ']' then .error .unmatchedClosing
    else if isQuote c then
      match h : rest.dropWhile (· != c) with
      | [] => .error .unterminatedQuote
      | _ :: after =>
        have : (skipBlanks after).length < rest.length := by
          have := length_dropWhile_le (· != c) rest
          have := Text.length_skipBlanks_le after
          rw [h, List.length_cons] at *
          omega
        if mayFollowQuote (skipBlanks after) then
          segmentsFrom (.name (String.ofList (rest.takeWhile (· != c))) :: done) (skipBlanks after)
        else .error .textAfterQuote
    else
      have := length_dropWhile_le (fun d => !isDelimiter d) rest
      segmentsFrom
        (.name (String.ofList (trim (c :: rest.takeWhile fun d => !isDelimiter d))) :: done)
        (rest.dropWhile fun d => !isDelimiter d)
  termination_by cs => cs.length

/-- The segments of a text. -/
def segments? (text : String) : Except SyntaxFault (List Segment) :=
  segmentsFrom [] text.toList

/-- An error about a path, with the text that the path is told by. -/
def malformed (path reason : String) : Error :=
  .because .malformedPath (Text.quoted path ++ ": " ++ reason)

/-- The path of a text. -/
def parse (text : String) : Except Error FieldPath :=
  match segments? text with
  | .ok segments => .ok ⟨segments⟩
  | .error fault => .error (malformed text fault.message)

end DocumentModel.FieldPath

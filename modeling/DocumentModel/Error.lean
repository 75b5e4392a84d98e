/-! Errors of the document model.

Every operation that can fail returns an `Error`: one of eleven kinds with the detail of what
went wrong. Text that is not JSON at all is a case of its own within the kind for
serialization. -/
namespace DocumentModel

/-- The kinds of error. -/
inductive ErrorKind
  /-- A document was given an empty identity. -/
  | emptyIdentity
  /-- A field path cannot be read, or leads through a value that holds nothing. -/
  | malformedPath
  /-- A number was to change by an amount that is not positive. -/
  | invalidMagnitude
  /-- An offset, limit or page lies outside its range. -/
  | invalidRange
  /-- A query was given a condition without clauses. -/
  | emptyCondition
  /-- The blocks of a condition do not open and close in turn. -/
  | unbalancedCondition
  /-- A tagged value does not hold what its tag says. -/
  | typeTranslation
  /-- A value is outside the model or has no written form. -/
  | unsupportedValueType
  /-- A condition or query was used before it was built. -/
  | notBuilt
  /-- A condition got more calls after it was built. -/
  | alreadyBuilt
  /-- A text does not hold what is read from it. -/
  | serialization
  deriving DecidableEq

/-- The words that stand before the detail of an error. -/
def ErrorKind.label : ErrorKind → String
  | .emptyIdentity => "Empty identity"
  | .malformedPath => "Malformed field path"
  | .invalidMagnitude => "Invalid magnitude"
  | .invalidRange => "Invalid range"
  | .emptyCondition => "Empty condition"
  | .unbalancedCondition => "Unbalanced condition"
  | .typeTranslation => "Type translation error"
  | .unsupportedValueType => "Unsupported value type"
  | .notBuilt => "Not built"
  | .alreadyBuilt => "Already built"
  | .serialization => "Serialization error"

/-- What stopped an operation. -/
inductive Error
  /-- An error of a kind, with its detail. -/
  | because (kind : ErrorKind) (detail : String)
  /-- A text is not JSON, or not JSON of the form that is read from it. -/
  | malformedJson
  deriving DecidableEq

namespace Error

/-- The kind of an error. -/
def kind : Error → ErrorKind
  | .because kind _ => kind
  | .malformedJson => .serialization

/-- What is told about an error beside its kind. -/
def detail : Error → String
  | .because _ detail => detail
  | .malformedJson => "malformed JSON text"

/-- The wording of an error. -/
def message (e : Error) : String := e.kind.label ++ ": " ++ e.detail

/-- An error as it comes out of general serialization, which knows one kind only and keeps
the wording. -/
def asSerialization (e : Error) : Error := .because .serialization e.message

end Error
end DocumentModel

import DocumentModel.Document.Wire

/-! Results of a query, from the responses of a store.

Each response is the wire text of one document, except that the first is the query plan if
the options ask for it. The first response that is an error or no document ends the reading
with its error. -/
namespace DocumentModel

/-- How the results of a query are read. -/
structure ResultOptions where
  /-- Whether the first response is the query plan. -/
  includePlan : Bool := false
  /-- Whether results are documents and not plain maps. -/
  asDocuments : Bool := true
  deriving DecidableEq

namespace ResultOptions

/-- The options that are given, and the usual ones without them. -/
def ofParts (includePlan asDocuments : Option Bool) : ResultOptions :=
  let default : ResultOptions := {}
  ⟨includePlan.getD default.includePlan, asDocuments.getD default.asDocuments⟩

/-- The JSON of options. -/
def toJson (o : ResultOptions) : Json :=
  .object [("include_query_plan", .bool o.includePlan),
    ("result_as_document", .bool o.asDocuments)]

/-- The options of a text, which are a record of the two choices. -/
def ofText (text : String) : Except Error ResultOptions :=
  let options := do
    let fields ← (← Json.Form.ofText? text).record? ["include_query_plan", "result_as_document"]
    match ← fields.mapM Json.Form.bool? with
    | [includePlan, asDocuments] => some (⟨includePlan, asDocuments⟩ : ResultOptions)
    | _ => none
  match options with
  | some options => .ok options
  | none => .error .malformedJson

end ResultOptions

/-- One result. -/
inductive ResultRecord
  | document (d : Document)
  | plain (fields : Entries Value)

namespace ResultRecord

/-- The fields of a result. -/
def fields : ResultRecord → Entries Value
  | .document d => d.root
  | .plain fields => fields

/-- A result as a document. -/
def toDocument : ResultRecord → Document
  | .document d => d
  | .plain fields => ⟨fields⟩

/-- The document that a result is, if it was read as one. -/
def document? : ResultRecord → Option Document
  | .document d => some d
  | .plain _ => none

/-- The result for a document that was read. -/
def ofDocument (asDocument : Bool) (d : Document) : ResultRecord :=
  if asDocument then .document d else .plain d.root

end ResultRecord

/-- The results of a query. -/
structure ResultSet where
  records : List ResultRecord
  plan : Option String

namespace ResultSet

/-- What a store sends: texts, and errors in their place. -/
abbrev Response := Except Error String

/-- Reads responses that are documents. -/
def readRecords (asDocuments : Bool) : List Response → Except Error (List ResultRecord)
  | [] => .ok []
  | response :: rest => do
    let d ← Document.ofText (← response)
    return .ofDocument asDocuments d :: (← readRecords asDocuments rest)

/-- Reads the responses to a query. -/
def ofResponses (options : ResultOptions) (responses : List Response) :
    Except Error ResultSet := do
  if options.includePlan then
    match responses with
    | [] =>
      throw (.because .serialization
        "invalid response stream, the query plan must be included in the response stream")
    | first :: rest => do
      let plan ← first
      return ⟨← readRecords options.asDocuments rest, some plan⟩
  else return ⟨← readRecords options.asDocuments responses, none⟩

/-- The count of results. -/
def size (r : ResultSet) : Nat := r.records.length

/-- Whether there are no results. -/
def isEmpty (r : ResultSet) : Bool := r.records.isEmpty

/-- The results that were read as documents. -/
def documents (r : ResultSet) : List Document := r.records.filterMap ResultRecord.document?

/-- The fields of each result. -/
def maps (r : ResultSet) : List (Entries Value) := r.records.map ResultRecord.fields

/-- All results as documents. -/
def toDocuments (r : ResultSet) : List Document := r.records.map ResultRecord.toDocument

end ResultSet
end DocumentModel

import DocumentModel.Condition.Build
import DocumentModel.Query.Page

/-! Queries: what to find, which fields of it, in what order and how much of it.

A query is one map with a clause for each of these. Fields and conditions of later calls join
those of earlier ones, sort keys follow them, and an offset or limit replaces the one before.
Only the filter is written with type tags. -/
namespace DocumentModel

/-- The clauses of a query. -/
inductive ClauseName
  | select
  | filter
  | orderBy
  | offset
  | limit
  deriving DecidableEq

/-- The key of a clause. -/
def ClauseName.key : ClauseName → String
  | .select => "$select"
  | .filter => "$where"
  | .orderBy => "$orderby"
  | .offset => "$offset"
  | .limit => "$limit"

/-- The direction of a sort key. -/
inductive SortDirection
  | ascending
  | descending
  deriving DecidableEq

instance : Inhabited SortDirection := ⟨.ascending⟩

/-- The word for a direction. -/
def SortDirection.key : SortDirection → String
  | .ascending => "asc"
  | .descending => "desc"

/-- A query and whether it is ready to be sent. -/
structure Query where
  content : Entries Value
  built : Bool

namespace Query

/-- The query without clauses. -/
def empty : Query := ⟨[], false⟩

/-- The clauses of a query that is ready. -/
def map? (q : Query) : Option (Entries Value) := if q.built then some q.content else none

/-- Merges a contribution into a clause. -/
def contribute (q : Query) (clause : ClauseName) (value : Value) : Query :=
  { q with content := Merge.combine q.content [(clause.key, value)] }

/-- Takes a clause away. -/
def without (q : Query) (clause : ClauseName) : Query :=
  { q with content := q.content.erase clause.key }

/-! ### Clauses -/

/-- Adds fields to those that are returned; without any, whole documents are. -/
def select (q : Query) (fields : List String) : Query :=
  if fields.isEmpty then q else q.contribute .select (.list (fields.map .string))

/-- Filters by a map, which must have clauses. -/
def filterMap (q : Query) (condition : Entries Value) : Except Error Query :=
  if condition.isEmpty then .error (.because .emptyCondition "condition can't be empty")
  else .ok (q.contribute .filter (.map condition))

/-- Filters by a condition, which must be built. -/
def filter (q : Query) (condition : Condition) : Except Error Query :=
  if condition.built then q.filterMap condition.content
  else .error (.because .notBuilt "build the condition before adding it to a query")

/-- Adds sort keys of one direction after those that are there. -/
def orderBy (q : Query) (order : SortDirection) (fields : List String) : Query :=
  if fields.isEmpty then q
  else
    let keys := fields.map fun field => Value.map [(field, .string order.key)]
    let earlier := match q.content.get? ClauseName.orderBy.key with
      | some (.list earlier) => earlier
      | _ => []
    { q with content := q.content.insert ClauseName.orderBy.key (.list (earlier ++ keys)) }

/-- Gives a clause a count, which must not be negative. -/
def count (q : Query) (clause : ClauseName) (n : Int64) : Except Error Query :=
  if n < 0 then
    .error (.because .invalidRange s!"{clause.key} can't be negative, got {n.toInt}")
  else .ok (q.contribute clause (.int n))

/-- Skips results. -/
def offset (q : Query) (n : Int64) : Except Error Query := q.count .offset n

/-- Limits the count of results. -/
def limit (q : Query) (n : Int64) : Except Error Query := q.count .limit n

/-- A word as a signed one, for a clause. -/
def signed (clause : ClauseName) (n : UInt64) : Except Error Int64 :=
  if n.toNat < 0x8000000000000000 then .ok (.ofNat n.toNat)
  else .error (.because .invalidRange s!"{clause.key} of {n} is out of range")

/-- Asks for one page of results. -/
def page (q : Query) (p : Page) : Except Error Query := do
  p.check
  let offset ← signed .offset p.offset
  let limit ← signed .limit p.perPage
  (← q.offset offset).limit limit

/-- Takes all clauses away. -/
def clear (q : Query) : Query := { q with content := [] }

/-- Declares a query ready to be sent. -/
def build (q : Query) : Query := { q with built := true }

/-! ### Wire form -/

/-- The wire JSON of one clause. -/
def encodeClause (key : String) (value : Value) : Except Error Json :=
  if key = ClauseName.filter.key then Wire.encode value else Wire.encodeUntagged value

/-- The wire JSON of a query that is ready. -/
def toWire (q : Query) : Except Error Json := do
  let some content := q.map?
    | throw (.because .notBuilt "query must be built before it is serialized")
  return .object (← content.mapM fun (key, value) => return (key, ← encodeClause key value))

/-- The wire text of a query that is ready. -/
def toText (q : Query) : Except Error String := do return (← q.toWire).toText

end Query
end DocumentModel

import DocumentModel.FieldPath.Parser
import DocumentModel.Value.Basic

/-! Conditions on documents, written as a queue of calls.

Calls open blocks of clauses, add predicates and close blocks. Each is only queued, and
`Condition.build` compiles the queue into one map; what is queued after that is never
compiled. -/
namespace DocumentModel

/-- How the clauses of a block are combined. -/
inductive Connective
  | and
  | or
  /-- All clauses hold for one item of a list field. -/
  | elementAnd
  deriving DecidableEq

/-- The key of a block. -/
def Connective.key : Connective → String
  | .and => "$and"
  | .or => "$or"
  | .elementAnd => "$elementAnd"

/-- What a predicate asks of a field, comparisons apart. -/
inductive FieldTest
  | exist
  | notExist
  | isIn
  | notIn
  | typeOf
  | notTypeOf
  | matching
  | notMatching
  | like
  | notLike
  deriving DecidableEq

/-- The key of a predicate. -/
def FieldTest.key : FieldTest → String
  | .exist => "$exists"
  | .notExist => "$notexists"
  | .isIn => "$in"
  | .notIn => "$notin"
  | .typeOf => "$typeof"
  | .notTypeOf => "$nottypeof"
  | .matching => "$matches"
  | .notMatching => "$notmatches"
  | .like => "$like"
  | .notLike => "$notlike"

/-- How a field compares with a value. -/
inductive Comparison
  | less
  | lessOrEqual
  | greater
  | greaterOrEqual
  | equal
  | notEqual
  deriving DecidableEq

/-- The key of a comparison. -/
def Comparison.key : Comparison → String
  | .less => "$lt"
  | .lessOrEqual => "$le"
  | .greater => "$gt"
  | .greaterOrEqual => "$ge"
  | .equal => "$eq"
  | .notEqual => "$ne"

namespace Condition

/-- One queued call. -/
inductive Call
  /-- Opens a block, which an element block does for a list field. -/
  | opening (op : Connective) (field : Option String)
  /-- Adds a finished map as a clause. -/
  | predicate (fields : Entries Value)
  /-- Closes the innermost open block. -/
  | closing

end Condition

/-- A condition: the calls that wait to be compiled, and what earlier ones were compiled to. -/
structure Condition where
  calls : List Condition.Call
  content : Entries Value
  built : Bool

namespace Condition

/-- The condition without any calls. -/
def empty : Condition := ⟨[], [], false⟩

/-- Whether nothing is compiled. -/
def isEmpty (c : Condition) : Bool := c.content.isEmpty

/-- Queues a call. -/
def push (c : Condition) (call : Call) : Condition := { c with calls := c.calls ++ [call] }

/-! ### Blocks -/

/-- Opens a block all of whose clauses hold. -/
def and (c : Condition) : Condition := c.push (.opening .and none)

/-- Opens a block one of whose clauses holds. -/
def or (c : Condition) : Condition := c.push (.opening .or none)

/-- Opens a block all of whose clauses hold for one item of the list at a path. -/
def elementAnd (c : Condition) (path : String) : Except Error Condition := do
  let parsed ← FieldPath.parse path
  if parsed.isEmpty then throw (.because .malformedPath "element-and field path can't be empty")
  return c.push (.opening .elementAnd (some path))

/-- Closes the innermost open block. -/
def close (c : Condition) : Condition := c.push .closing

/-! ### Predicates -/

/-- Adds a predicate with a body. -/
def predicate (c : Condition) (key : String) (body : Value) : Condition :=
  c.push (.predicate [(key, body)])

/-- Adds a predicate on the field at a path. -/
def fieldPredicate (c : Condition) (key path : String) (value : Value) : Condition :=
  c.predicate key (.map [(path, value)])

/-- Something is stored at the path. -/
def existing (c : Condition) (path : String) : Condition :=
  c.predicate FieldTest.exist.key (.string path)

/-- Nothing is stored at the path. -/
def notExisting (c : Condition) (path : String) : Condition :=
  c.predicate FieldTest.notExist.key (.string path)

/-- The value at the path is among some. -/
def inList (c : Condition) (path : String) (values : List Value) : Condition :=
  c.fieldPredicate FieldTest.isIn.key path (.list values)

/-- The value at the path is not among some. -/
def notInList (c : Condition) (path : String) (values : List Value) : Condition :=
  c.fieldPredicate FieldTest.notIn.key path (.list values)

/-- The value at the path has a type. -/
def typeOf (c : Condition) (path : String) (type : Value) : Condition :=
  c.fieldPredicate FieldTest.typeOf.key path type

/-- The value at the path has another type. -/
def notTypeOf (c : Condition) (path : String) (type : Value) : Condition :=
  c.fieldPredicate FieldTest.notTypeOf.key path type

/-- The string at the path matches a regular expression. -/
def matching (c : Condition) (path : String) (pattern : Value) : Condition :=
  c.fieldPredicate FieldTest.matching.key path pattern

/-- The string at the path does not match a regular expression. -/
def notMatching (c : Condition) (path : String) (pattern : Value) : Condition :=
  c.fieldPredicate FieldTest.notMatching.key path pattern

/-- The string at the path is like a pattern with wildcards. -/
def like (c : Condition) (path : String) (pattern : Value) : Condition :=
  c.fieldPredicate FieldTest.like.key path pattern

/-- The string at the path is not like a pattern with wildcards. -/
def notLike (c : Condition) (path : String) (pattern : Value) : Condition :=
  c.fieldPredicate FieldTest.notLike.key path pattern

/-- The value at the path compares with another. -/
def compare (c : Condition) (path : String) (comparison : Comparison) (value : Value) :
    Condition :=
  c.fieldPredicate comparison.key path value

/-- The value at the path is equal to another. -/
def equalTo (c : Condition) (path : String) (value : Value) : Condition :=
  c.compare path .equal value

/-- The value at the path differs from another. -/
def notEqualTo (c : Condition) (path : String) (value : Value) : Condition :=
  c.compare path .notEqual value

/-- Adds a map as it is. -/
def addMap (c : Condition) (fields : Entries Value) : Condition := c.push (.predicate fields)

/-- Adds what another condition was compiled to. -/
def addCondition (c other : Condition) : Except Error Condition :=
  if other.built then .ok (c.addMap other.content)
  else .error (.because .notBuilt "build the condition before adding it")

end Condition
end DocumentModel

import DocumentModel.Error
import DocumentModel.Text.Quoted

/-! Type tags: the keys of the one-field objects that stand for scalars which JSON does not have. -/
namespace DocumentModel

/-- A kind of scalar that is written as a tagged object. -/
inductive Tag
  | numberLong
  | numberFloat
  | binary
  | time
  | dateDay
  | date
  deriving DecidableEq

namespace Tag

/-- The key of a tag. -/
def key : Tag → String
  | .numberLong => "$numberLong"
  | .numberFloat => "$numberFloat"
  | .binary => "$binary"
  | .time => "$time"
  | .dateDay => "$dateDay"
  | .date => "$date"

/-- All tags. -/
def all : List Tag := [.numberLong, .numberFloat, .binary, .time, .dateDay, .date]

/-- The tag with a key. -/
def ofKey? (key : String) : Option Tag := all.find? fun tag => tag.key = key

@[simp] theorem ofKey?_key (tag : Tag) : ofKey? tag.key = some tag := by cases tag <;> decide

theorem key_of_ofKey? {key : String} {tag : Tag} (h : ofKey? key = some tag) :
    tag.key = key := by
  simpa using List.find?_some h

/-- The tag with a name, which must be the key of one. -/
def ofName (name : String) : Except Error Tag :=
  match ofKey? name with
  | some tag => .ok tag
  | none => .error (.because .typeTranslation ("unknown type tag " ++ Text.quoted name))

end Tag
end DocumentModel

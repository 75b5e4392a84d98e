import DocumentModel.Error
import DocumentModel.Json.Basic
import DocumentModel.Json.Form

/-! Pages of results.

Pages are counted from one. The offset of a page is the count of results before it, and stays
at the greatest word where that is beyond it; a page zero has the offset of the first page,
and is refused by `Page.check`. -/
namespace DocumentModel

/-- A page of results of a fixed size. -/
structure Page where
  number : UInt64 := 1
  perPage : UInt64 := 10
  deriving DecidableEq

namespace Page

/-- The page with the parts that are given, and the first page of ten without them. -/
def ofParts (number perPage : Option UInt64) : Page :=
  let default : Page := {}
  ⟨number.getD default.number, perPage.getD default.perPage⟩

/-- A count of results, or the greatest word if it is beyond that. -/
def saturate (n : Nat) : UInt64 := .ofNat (min n (UInt64.size - 1))

/-- The count of results before a page. -/
def offset (p : Page) : UInt64 := saturate ((p.number.toNat - 1) * p.perPage.toNat)

/-- Refuses a page zero. -/
def check (p : Page) : Except Error Unit :=
  if p.number = 0 then .error (.because .invalidRange "page numbers start at 1") else .ok ()

/-! ### JSON -/

/-- The JSON of a page. -/
def toJson (p : Page) : Json :=
  .object [("page", .number (.ofUInt64 p.number)), ("per_page", .number (.ofUInt64 p.perPage))]

/-- The page of a text, which is a record of its two numbers. -/
def ofText (text : String) : Except Error Page :=
  let page := do
    let fields ← (← Json.Form.ofText? text).record? ["page", "per_page"]
    match ← fields.mapM Json.Form.word? with
    | [number, perPage] => some (⟨number, perPage⟩ : Page)
    | _ => none
  match page with
  | some page => .ok page
  | none => .error .malformedJson

end Page
end DocumentModel

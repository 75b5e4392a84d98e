import DocumentModel.Value.Basic

/-! Values from the types of the language.

Integers of every width become integers, both floating-point formats become the wider one, a
byte array becomes binary, and a list becomes the list of its converted items; so a list of
bytes is a list of integers. What is absent becomes null. -/
namespace DocumentModel
open Calendar

/-- Types whose inhabitants are values. -/
class ToValue (α : Type) where
  toValue : α → Value

export ToValue (toValue)

namespace ToValue

instance : ToValue Value := ⟨id⟩
instance : ToValue Bool := ⟨.bool⟩
instance : ToValue Int8 := ⟨fun n => .int n.toInt64⟩
instance : ToValue Int16 := ⟨fun n => .int n.toInt64⟩
instance : ToValue Int32 := ⟨fun n => .int n.toInt64⟩
instance : ToValue Int64 := ⟨.int⟩
instance : ToValue UInt8 := ⟨fun n => .int (.ofNat n.toNat)⟩
instance : ToValue UInt16 := ⟨fun n => .int (.ofNat n.toNat)⟩
instance : ToValue UInt32 := ⟨fun n => .int (.ofNat n.toNat)⟩
instance : ToValue Binary32 := ⟨fun x => .float x.widen⟩
instance : ToValue Binary64 := ⟨.float⟩
instance : ToValue String := ⟨.string⟩
instance : ToValue ByteArray := ⟨fun bytes => .binary bytes.toList⟩
instance : ToValue Date := ⟨.date⟩
instance : ToValue Time := ⟨.time⟩
instance : ToValue Instant := ⟨.timestamp⟩
instance : ToValue (Entries Value) := ⟨.map⟩

variable {α : Type} [ToValue α]

instance : ToValue (List α) := ⟨fun items => .list (items.map toValue)⟩
instance : ToValue (Option α) := ⟨fun item => (item.map toValue).getD .null⟩

end ToValue
end DocumentModel

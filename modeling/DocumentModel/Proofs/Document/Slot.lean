import DocumentModel.Proofs.Document.Store
import DocumentModel.Proofs.Entries.Laws

/-! Slots of containers.

A step selects a slot of a container: the entry of a key in a map, or the item at a position in
a list, whether an index or a name of digits gives the position (`slot?`). What a step leads to
is the content of its slot (`child_of_slot?`), and a value can be put into a slot, which makes
room for it if there is none. Then the slot holds the value (`content_put`), the slots that held
something hold it still (`content_put_of_ne`), and what was in the slot before is forgotten
(`put_put`). -/
namespace DocumentModel.Document

/-- A place in a container. -/
inductive Slot
  /-- The entry of a key in a map. -/
  | entry (key : String)
  /-- The item at a position of a list. -/
  | item (position : UInt64)
  deriving DecidableEq

/-- The slot that a step selects in a value, if it selects one. -/
def slot? : Value → Segment → Option Slot
  | .map _, .name key => some (.entry key)
  | .list _, segment => segment.position?.map .item
  | _, _ => none

namespace Slot

/-- What a slot of a container holds, if it is there. -/
def content : Slot → Value → Option Value
  | .entry key, .map fields => Entries.get? fields key
  | .item position, .list items => items[position.toNat]?
  | _, _ => none

/-- A container with a value in a slot. -/
def put (value : Value) : Slot → Value → Value
  | .entry key, .map fields => .map (Entries.insert fields key value)
  | .item position, .list items => .list ((extend items position.toNat).set position.toNat value)
  | _, container => container

/-- Whether room is made for a slot: always in a map, and in a list up to the greatest
position. -/
def InReach : Slot → Prop
  | .entry _ => True
  | .item position => position.toNat ≤ maxPosition

end Slot

variable {container value held : Value} {segment : Segment} {slot other : Slot}

/-! ### Steps and slots -/

/-- A slot is selected by a name in a map, or by a position in a list. -/
theorem slot?_cases (h : slot? container segment = some slot) :
    (∃ fields key, container = .map fields ∧ segment = .name key ∧ slot = .entry key) ∨
      ∃ items position, container = .list items ∧ segment.position? = some position ∧
        slot = .item position := by
  cases container with
  | map fields =>
    cases segment with
    | name key =>
      cases h
      exact .inl ⟨fields, key, rfl, rfl, rfl⟩
    | index position => cases h
  | list items =>
    obtain ⟨position, hposition, rfl⟩ := Option.map_eq_some_iff.1 h
    exact .inr ⟨items, position, rfl, hposition, rfl⟩
  | _ => cases h

/-- A step leads to the content of its slot. -/
theorem child_of_slot? (h : slot? container segment = some slot) :
    child container segment = .ok (slot.content container) := by
  rcases slot?_cases h with ⟨fields, key, rfl, rfl, rfl⟩ | ⟨items, position, rfl, hposition, rfl⟩
  · rw [child, Slot.content]
  · simp only [child, hposition, Slot.content]

/-- Steps go on from the content of the slot of the first. -/
theorem descend_of_slot? (h : slot? container segment = some slot) (rest : List Segment) :
    descend (some container) (segment :: rest) = descend (slot.content container) rest := by
  rw [descend, child_of_slot? h]

theorem isContainer_of_slot? (h : slot? container segment = some slot) :
    container.isContainer = true := by
  rcases slot?_cases h with ⟨fields, key, rfl, -, -⟩ | ⟨items, position, rfl, -, -⟩ <;> rfl

/-! ### Contents -/

theorem content_put (h : slot? container segment = some slot) (value : Value) :
    slot.content (slot.put value container) = some value := by
  rcases slot?_cases h with ⟨fields, key, rfl, rfl, rfl⟩ | ⟨items, position, rfl, -, rfl⟩
  · rw [Slot.put, Slot.content, Entries.get?_insert, if_pos rfl]
  · have hlt : position.toNat < (extend items position.toNat).length := by
      rw [length_extend]
      omega
    rw [Slot.put, Slot.content, List.getElem?_set_self hlt]

/-- A value that is put into a slot leaves every other slot as it was, but that a null may come
to stand where nothing stood. -/
theorem content_put_cases (hne : other ≠ slot) (value container : Value) :
    other.content (slot.put value container) = other.content container ∨
      other.content container = none ∧
        other.content (slot.put value container) = some .null := by
  cases slot with
  | entry key =>
    cases container with
    | map fields =>
      cases other with
      | item => exact .inl rfl
      | entry key' =>
        have hkey : key ≠ key' := fun heq => hne (by rw [heq])
        exact .inl (by rw [Slot.put, Slot.content, Entries.get?_insert, if_neg hkey, Slot.content])
    | _ => exact .inl rfl
  | item position =>
    cases container with
    | list items =>
      cases other with
      | entry => exact .inl rfl
      | item position' =>
        have hposition : position.toNat ≠ position'.toNat :=
          fun heq => hne (by rw [UInt64.toNat_inj.1 heq])
        rw [Slot.put, Slot.content, Slot.content, List.getElem?_set_ne hposition, getElem?_extend]
        cases hitem : items[position'.toNat]? with
        | some item =>
          obtain ⟨hlt, -⟩ := List.getElem?_eq_some_iff.1 hitem
          exact .inl (if_pos (by omega))
        | none =>
          split
          · exact .inr ⟨rfl, rfl⟩
          · exact .inl rfl
    | _ => exact .inl rfl

/-- A value that is put into a slot leaves the content of every other slot. -/
theorem content_put_of_ne (hne : other ≠ slot) (h : other.content container = some held)
    (value : Value) : other.content (slot.put value container) = some held := by
  rcases content_put_cases hne value container with hsame | ⟨hnone, -⟩
  · rw [hsame, h]
  · rw [h] at hnone
    cases hnone

/-- What stands in another slot, null if nothing does, stays. -/
theorem getD_content_put_of_ne (hne : other ≠ slot) (value container : Value) :
    (other.content (slot.put value container)).getD .null =
      (other.content container).getD .null := by
  rcases content_put_cases hne value container with hsame | ⟨hnone, hnull⟩
  · rw [hsame]
  · rw [hnone, hnull]
    rfl

/-! ### Containers -/

/-- What was put into a slot before is forgotten. -/
theorem put_put (slot : Slot) (first second container : Value) :
    slot.put second (slot.put first container) = slot.put second container := by
  cases slot with
  | entry key =>
    cases container with
    | map fields => rw [Slot.put, Slot.put, Slot.put, Entries.insert_insert]
    | _ => rfl
  | item position =>
    cases container with
    | list items =>
      have hlt : position.toNat <
          ((extend items position.toNat).set position.toNat first).length := by
        rw [List.length_set, length_extend]
        omega
      rw [Slot.put, Slot.put, Slot.put, extend_of_lt hlt, List.set_set]
    | _ => rfl

/-- Steps select the same slots of a container whatever it holds. -/
theorem slot?_put (slot : Slot) (value container : Value) (segment : Segment) :
    slot? (slot.put value container) segment = slot? container segment := by
  cases slot <;> cases container <;> cases segment <;> rfl

/-- Steps into a slot go on from the value that was put there. -/
theorem descend_put (h : slot? container segment = some slot) (value : Value)
    (rest : List Segment) :
    descend (some (slot.put value container)) (segment :: rest) = descend (some value) rest := by
  have hput : slot? (slot.put value container) segment = some slot := by rw [slot?_put, h]
  rw [descend_of_slot? hput, content_put h]

theorem isContainer_put (slot : Slot) (value container : Value) :
    (slot.put value container).isContainer = container.isContainer := by
  cases slot <;> cases container <;> rfl

theorem isList_put (slot : Slot) (value container : Value) :
    (slot.put value container).isList = container.isList := by
  cases slot <;> cases container <;> rfl

end DocumentModel.Document

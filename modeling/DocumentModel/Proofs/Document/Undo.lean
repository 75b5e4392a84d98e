import DocumentModel.Proofs.Document.Removal

/-! Deletes that undo sets.

A set at the path of a new entry puts it where it can be taken out again without a trace: behind the
keys of a map, or just behind the items of a list (`Vacant`). Nothing is made on the way to it, since
the container is there, so the set changes each container on the way by the one inside it, and a
delete along the same steps puts the old one back in its place (`eraseFrom_of_changed`). Key order
and list lengths are then what they were: `delete_set_vacant`. -/
namespace DocumentModel.Document

variable {f : Value → Value} {container inner target result value : Value} {segment : Segment}
  {slot : Slot} {before steps : List Segment}

/-- A container has no entry for a step and would get it as its last: a map that lacks the key, or a
list that ends just in front of the position. -/
inductive Vacant : Value → Segment → Prop
  | field {fields : Entries Value} {key : String} :
    key ∉ fields.keys → Vacant (.map fields) (.name key)
  | item {items : List Value} {segment : Segment} {position : UInt64} :
    segment.position? = some position → position.toNat = items.length →
      Vacant (.list items) segment

theorem Vacant.isContainer (h : Vacant container segment) : container.isContainer = true := by
  cases h <;> rfl

/-! ### One entry -/

/-- A list gets an item at the position behind its last. -/
theorem set_extend_length (items : List Value) (value : Value) :
    (extend items items.length).set items.length value = items ++ [value] := by
  have hone : items.length + 1 - items.length = 1 := by omega
  rw [extend, hone, List.replicate_one, List.set_append_right _ _ (Nat.le_refl _), Nat.sub_self,
    List.set_cons_zero]

/-- A new entry is taken out of its container as if it had never been there. -/
theorem eraseFrom_put_of_vacant (hvacant : Vacant container segment)
    (hslot : slot? container segment = some slot) (value : Value) :
    eraseFrom [segment] (slot.put value container) = container := by
  cases hvacant with
  | @field fields key hkey =>
    cases hslot
    rw [Slot.put, Entries.insert_of_notMem hkey]
    simp only [eraseFrom]
    rw [Entries.erase_append_cons hkey, List.append_nil]
  | @item items _ position hposition hlength =>
    rw [slot?, hposition, Option.map_some] at hslot
    cases hslot
    rw [Slot.put, hlength, set_extend_length]
    simp only [eraseFrom, hposition]
    rw [hlength, List.eraseIdx_append_of_length_le (Nat.le_refl _), Nat.sub_self,
      List.eraseIdx_cons_zero, List.append_nil]

/-! ### The way to it -/

/-- Steps to a new entry, taken again, lead back to what there was before the change. The induction
is on the steps to the container, each of which finds the slot of the change. -/
theorem eraseFrom_of_changed (h : Changed f (before ++ [segment]) target result)
    (hbefore : descend (some target) before = .ok (some container))
    (hvacant : Vacant container segment) : eraseFrom (before ++ [segment]) result = target := by
  induction before generalizing target result with
  | nil =>
    cases hbefore
    cases h with
    | step hslot _ _ _ => exact eraseFrom_put_of_vacant hvacant hslot _
  | cons first before ih =>
    rw [List.cons_append] at h ⊢
    obtain ⟨slot, inner, hslot, hcontent, hinner⟩ := descend_cons_eq_some_iff.1 hbefore
    -- The slot holds a container already, so the change is one of this container.
    obtain ⟨-, changed, hchanged, rfl⟩ := (changed_slot_iff hslot hcontent
      (isContainer_of_descend hinner hvacant.isContainer)).1 h
    have hput : slot? (slot.put changed target) first = some slot := by rw [slot?_put, hslot]
    rw [eraseFrom_slot hput (content_put hslot changed) (by simp), ih hchanged hinner, put_put,
      put_of_content hcontent]

/-! ### Sets and deletes -/

variable {d d' : Document} {path : String} {p : FieldPath}

/-- **A delete undoes a set of a new entry.** Where the steps in front of the last lead to a map
without the key that the last step gives, or to a list that ends just in front of its position, a set
that succeeds is undone by a delete at the same path: the document is exactly what it was. A path of
one step is led to the root. -/
theorem delete_set_vacant (hparse : FieldPath.parse path = .ok p) (hlast : p.last? = some segment)
    (hparent : descend (some (.map d.root)) p.parent.segments = .ok (some container))
    (hvacant : Vacant container segment) (hset : d.set path value = ⟨d', none⟩) :
    d'.delete path = ⟨d, none⟩ := by
  have hsegments : p.parent.segments ++ [segment] = p.segments :=
    List.dropLast_append_getLast? segment hlast
  obtain ⟨-, hchanged⟩ := (set_eq_iff hparse).1 hset
  rw [← hsegments] at hchanged
  have hdocument : d'.deleteAt p = d := by
    rw [deleteAt_eq_iff, ← hsegments]
    exact eraseFrom_of_changed hchanged hparent hvacant
  rw [delete_of_parse hparse, hdocument]

/-- A field is added to a map in a list, and an item behind the map; both paths give a position with
a zero too many. -/
theorem delete_set_vacant_row :
    set (row [.map [("x", .int 1)]]) "l.00.y" (.map [("z", .null)]) =
      ⟨row [.map [("x", .int 1), ("y", .map [("z", .null)])]], none⟩ ∧
    delete (row [.map [("x", .int 1), ("y", .map [("z", .null)])]]) "l.00.y" =
      ⟨row [.map [("x", .int 1)]], none⟩ ∧
    set (row [.map [("x", .int 1)]]) "l.01" (.int 2) =
      ⟨row [.map [("x", .int 1)], .int 2], none⟩ ∧
    delete (row [.map [("x", .int 1)], .int 2]) "l.01" = ⟨row [.map [("x", .int 1)]], none⟩ := by
  have hfield : FieldPath.parse "l.00.y" = .ok ⟨[.name "l", .name "00", .name "y"]⟩ := by cbv
  have hitem : FieldPath.parse "l.01" = .ok ⟨[.name "l", .name "01"]⟩ := by cbv
  have hposition : (Segment.name "01").position? = some 1 := rfl
  have hset : set (row [.map [("x", .int 1)]]) "l.00.y" (.map [("z", .null)]) =
      ⟨row [.map [("x", .int 1), ("y", .map [("z", .null)])]], none⟩ := by
    rw [set, hfield]
    rfl
  have hset' : set (row [.map [("x", .int 1)]]) "l.01" (.int 2) =
      ⟨row [.map [("x", .int 1)], .int 2], none⟩ := by
    rw [set, hitem]
    rfl
  exact ⟨hset, delete_set_vacant hfield rfl rfl (.field (by simp [Entries.keys])) hset,
    hset', delete_set_vacant hitem rfl rfl (.item hposition rfl) hset'⟩

end DocumentModel.Document

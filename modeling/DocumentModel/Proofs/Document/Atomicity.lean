import DocumentModel.Proofs.Document.Store
import DocumentModel.Proofs.Entries.Laws

/-! Failed sets change nothing.

A set works from the root down: it adds entries, extends lists and replaces scalars before it
meets an obstacle, and takes nothing back. Still it is atomic (`set_atomic`). Once something
was changed, the rest of the path leads through fresh containers, and no obstacle is left to
meet there (`store_fresh`); so at an obstacle everything on the way is what it was
(`store_obstructed`). -/
namespace DocumentModel.Document

/-! ### Bounds -/

/-- No list index among the steps is beyond the greatest position. -/
def WithinBounds (segments : List Segment) : Prop :=
  ∀ position, .index position ∈ segments → position.toNat ≤ maxPosition

theorem WithinBounds.tail {segment : Segment} {rest : List Segment}
    (h : WithinBounds (segment :: rest)) : WithinBounds rest :=
  fun position hmem => h position (List.mem_cons_of_mem segment hmem)

theorem withinBounds_of_oversized? {path : FieldPath} (h : oversized? path = none) :
    WithinBounds path.segments := by
  intro position hmem
  have hnone : (if maxPosition < position.toNat then some position else none) = none :=
    List.findSome?_eq_none_iff.1 h _ hmem
  by_cases hlt : maxPosition < position.toNat
  · rw [if_pos hlt] at hnone
    cases hnone
  · exact Nat.le_of_not_lt hlt

/-! ### Obstacles -/

/-- In a fresh container no obstacle is met: there is only null on the way. The induction is
on the steps, since the slot of each becomes the fresh container for the next. -/
theorem store_fresh (value : Value) {next : Segment} {rest : List Segment}
    (h : WithinBounds (next :: rest)) :
    (store value (next :: rest) (emptyFor next)).2 = none := by
  induction rest generalizing next with
  | nil =>
    cases next with
    | name key => rfl
    | index position =>
      have hmax : position.toNat ≤ maxPosition := h position (List.mem_cons_self ..)
      have hposition : (Segment.index position).position? = some position := rfl
      have hready : prepare true (([] : List Value)[position.toNat]?.getD .null) [] =
          .ok .null := rfl
      rw [emptyFor, store_item hposition hmax hready, store]
  | cons after rest ih =>
    cases next with
    | name key =>
      have hready : prepare false ((Entries.get? [] key).getD .null) (after :: rest) =
          .ok (emptyFor after) := rfl
      rw [emptyFor, store_entry hready]
      exact ih h.tail
    | index position =>
      have hmax : position.toNat ≤ maxPosition := h position (List.mem_cons_self ..)
      have hposition : (Segment.index position).position? = some position := rfl
      have hready : prepare true (([] : List Value)[position.toNat]?.getD .null)
          (after :: rest) = .ok (emptyFor after) := rfl
      rw [emptyFor, store_item hposition hmax hready]
      exact ih h.tail

/-- Behind a slot an obstacle is met only if the slot was a container before. -/
theorem container_of_obstructed {value : Value} {inList : Bool} {slot ready : Value}
    {rest : List Segment} (hbounds : WithinBounds rest)
    (hready : prepare inList slot rest = .ok ready) {obstacle : Obstacle}
    (h : (store value rest ready).2 = some obstacle) :
    ready = slot ∧ slot.isContainer = true := by
  rcases ready_cases hready with ⟨rfl, rfl | hslot⟩ | ⟨next, rest', rfl, _, rfl⟩
  · cases h
  · exact ⟨rfl, hslot⟩
  · rw [store_fresh value hbounds] at h
    cases h

/-- At an obstacle, the target is given back as it was. -/
theorem store_obstructed {value : Value} {segments : List Segment} {target : Value}
    (hbounds : WithinBounds segments) {obstacle : Obstacle}
    (h : (store value segments target).2 = some obstacle) :
    (store value segments target).1 = target := by
  induction segments generalizing target obstacle with
  | nil => cases h
  | cons segment rest ih =>
    match target, segment with
    | .map fields, .name key =>
      obtain ⟨ready, hready⟩ := prepare_entry ((Entries.get? fields key).getD .null) rest
      rw [store_entry hready] at h ⊢
      obtain ⟨rfl, hslot⟩ := container_of_obstructed hbounds.tail hready h
      rw [ih hbounds.tail h]
      -- A container stands under the key, so the key is there, and the insertion is none.
      cases hget : Entries.get? fields key with
      | none =>
        rw [hget] at hslot
        cases hslot
      | some child => rw [Option.getD_some, Entries.insert_of_get? hget]
    | .map fields, .index position => rw [store_index_on_map]
    | .list items, segment =>
      cases hposition : segment.position? with
      | none => rw [store_name_on_list hposition]
      | some position =>
        by_cases hmax : maxPosition < position.toNat
        · rw [store_beyond_max hposition hmax]
        have hmax := Nat.le_of_not_lt hmax
        cases hready : prepare true (items[position.toNat]?.getD .null) rest with
        | error obstacle => rw [store_scalar_item hposition hmax hready]
        | ok ready =>
          rw [store_item hposition hmax hready] at h ⊢
          obtain ⟨rfl, hslot⟩ := container_of_obstructed hbounds.tail hready h
          rw [ih hbounds.tail h]
          -- A container stands at the position, so the list was long enough.
          cases hget : items[position.toNat]? with
          | none =>
            rw [hget] at hslot
            cases hslot
          | some child =>
            obtain ⟨hlt, rfl⟩ := List.getElem?_eq_some_iff.1 hget
            rw [extend_of_lt hlt, Option.getD_some, List.set_getElem_self]
    | .null, _ | .bool _, _ | .int _, _ | .float _, _ | .string _, _ | .binary _, _
    | .date _, _ | .time _, _ | .timestamp _, _ => rw [store_scalar rfl]

/-! ### Sets -/

theorem storeAt_atomic {d : Document} {path : FieldPath} {value : Value} {e : Error}
    (hbounds : WithinBounds path.segments) (h : (d.storeAt path value).error = some e) :
    (d.storeAt path value).document = d := by
  obtain ⟨obstacle, hobstacle, -⟩ := Option.map_eq_some_iff.1 h
  have htarget := store_obstructed hbounds hobstacle
  show (⟨(store value path.segments (.map d.root)).1.map?.getD d.root⟩ : Document) = d
  rw [htarget]
  rfl

theorem setIdentity_atomic {d : Document} {identity : Value} {e : Error}
    (h : (d.setIdentity identity).error = some e) : (d.setIdentity identity).document = d := by
  unfold setIdentity at h ⊢
  cases hid : requireIdentity identity with
  | ok =>
    rw [hid] at h
    cases h
  | error => rfl

theorem setRoot_atomic {d : Document} {path : FieldPath} {value : Value} {e : Error}
    (h : (d.setRoot path value).error = some e) : (d.setRoot path value).document = d := by
  cases value with
  | map fields =>
    unfold setRoot at h ⊢
    cases hget : Entries.get? fields FieldPath.identityKey with
    | none =>
      simp only [hget] at h
      cases h
    | some identity =>
      simp only [hget] at h ⊢
      cases hid : requireIdentity identity with
      | ok =>
        simp only [hid] at h
        cases h
      | error => rfl
  | _ => rfl

/-- **A set that fails leaves the document exactly as it was**, whatever made it fail. -/
theorem set_atomic {d : Document} {path : String} {value : Value} {e : Error}
    (h : (d.set path value).error = some e) : (d.set path value).document = d := by
  unfold set at h ⊢
  cases hparse : FieldPath.parse path with
  | error => rfl
  | ok parsed =>
    simp only [hparse, setAt] at h ⊢
    by_cases hid : parsed.isIdentity = true
    · rw [if_pos hid] at h ⊢
      exact setIdentity_atomic h
    rw [if_neg hid] at h ⊢
    by_cases hempty : parsed.isEmpty = true
    · rw [if_pos hempty] at h ⊢
      exact setRoot_atomic h
    rw [if_neg hempty] at h ⊢
    cases hbounds : oversized? parsed with
    | some position => rfl
    | none =>
      simp only [hbounds] at h ⊢
      exact storeAt_atomic (withinBounds_of_oversized? hbounds) h

/-- The path goes on below an item of a list that is a number, which is not replaced. -/
theorem set_atomic_scalarItem :
    ∃ e, (set ⟨[("l", .list [.null, .int 7])]⟩ "l.1.a" (.int 1)).error = some e ∧
      (set ⟨[("l", .list [.null, .int 7])]⟩ "l.1.a" (.int 1)).document =
        ⟨[("l", .list [.null, .int 7])]⟩ := by
  have hparse : FieldPath.parse "l.1.a" = .ok ⟨[.name "l", .name "1", .name "a"]⟩ := by
    cbv
  have herror : (set ⟨[("l", .list [.null, .int 7])]⟩ "l.1.a" (.int 1)).error =
      some (obstructed ⟨[.name "l", .name "1", .name "a"]⟩ (.scalarItem "integer")) := by
    rw [set, hparse]
    rfl
  exact ⟨_, herror, set_atomic herror⟩

end DocumentModel.Document

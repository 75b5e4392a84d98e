import DocumentModel.Document.Edit

/-! Storing a value, one step at a time.

What `store` does at a step is decided by the value at hand, the step, and what the slot that
the step leads to is made ready as. Each case is an equation here, and `ready_cases` says what
a slot can be made ready as: itself, or a fresh container for the next step. -/
namespace DocumentModel.Document

/-! ### Slots -/

theorem prepare_container (inList : Bool) {slot : Value} (h : slot.isContainer = true)
    (rest : List Segment) : prepare inList slot rest = .ok slot := by
  cases rest with
  | nil => rfl
  | cons next rest => exact if_pos h

/-- A scalar of a map makes room for a container. -/
theorem prepare_entry_scalar {slot : Value} (h : slot.isContainer = false) (next : Segment)
    (rest : List Segment) : prepare false slot (next :: rest) = .ok (emptyFor next) := by
  simp [prepare, h]

/-- A slot is made ready as itself, or as a fresh container for the next step. -/
theorem ready_cases {inList : Bool} {slot ready : Value} {rest : List Segment}
    (h : prepare inList slot rest = .ok ready) :
    ready = slot ∧ (rest = [] ∨ slot.isContainer = true) ∨
      ∃ next rest', rest = next :: rest' ∧ slot.isContainer = false ∧ ready = emptyFor next := by
  cases rest with
  | nil =>
    cases h
    exact .inl ⟨rfl, .inl rfl⟩
  | cons next rest =>
    cases hslot : slot.isContainer with
    | true =>
      rw [prepare_container inList hslot] at h
      cases h
      exact .inl ⟨rfl, .inr rfl⟩
    | false =>
      refine .inr ⟨next, rest, rfl, rfl, ?_⟩
      simp only [prepare, hslot, Bool.false_eq_true, if_false] at h
      split at h <;> cases h
      rfl

/-- An entry of a map can always be made ready. -/
theorem prepare_entry (slot : Value) (rest : List Segment) :
    ∃ ready, prepare false slot rest = .ok ready := by
  cases rest with
  | nil => exact ⟨slot, rfl⟩
  | cons next rest =>
    cases hslot : slot.isContainer with
    | true => exact ⟨slot, prepare_container false hslot _⟩
    | false => exact ⟨_, prepare_entry_scalar hslot next rest⟩

/-- An item of a list cannot be made ready exactly if steps follow and it is a scalar, and not
null. -/
theorem prepare_item_eq_error_iff {slot : Value} {rest : List Segment} {obstacle : Obstacle} :
    prepare true slot rest = .error obstacle ↔
      rest ≠ [] ∧ slot.isContainer = false ∧ slot.isNull = false ∧
        obstacle = .scalarItem slot.kindName := by
  cases rest with
  | nil => simp [prepare]
  | cons next rest =>
    cases hslot : slot.isContainer with
    | true => simp [prepare_container true hslot]
    | false => cases hnull : slot.isNull <;> simp [prepare, hslot, hnull, eq_comm]

/-! ### Lists -/

/-- A list is extended up to a position, and not beyond. -/
theorem length_extend (items : List Value) (position : Nat) :
    (extend items position).length = max items.length (position + 1) := by
  simp only [extend, List.length_append, List.length_replicate]
  omega

theorem extend_of_lt {items : List Value} {position : Nat} (h : position < items.length) :
    extend items position = items := by
  have hzero : position + 1 - items.length = 0 := by omega
  rw [extend, hzero, List.replicate_zero, List.append_nil]

/-- An extended list holds the items that were there, and nulls behind them. -/
theorem getElem?_extend (items : List Value) (position i : Nat) :
    (extend items position)[i]? =
      if i < max items.length (position + 1) then some (items[i]?.getD .null) else none := by
  by_cases h : i < items.length
  · rw [extend, List.getElem?_append_left h, List.getElem?_eq_getElem h, if_pos (by omega)]
    rfl
  · rw [extend, List.getElem?_append_right (Nat.le_of_not_lt h), List.getElem?_replicate,
      List.getElem?_eq_none (Nat.le_of_not_lt h)]
    split <;> split <;> first | rfl | omega

/-- What an extended list holds at its position: the item that was there, or null. -/
theorem getElem?_extend_self (items : List Value) (position : Nat) :
    (extend items position)[position]? = some (items[position]?.getD .null) := by
  rw [getElem?_extend, if_pos (by omega)]

/-! ### Steps -/

variable {value : Value} {rest : List Segment} {ready : Value}

theorem store_entry {fields : Entries Value} {key : String}
    (h : prepare false ((Entries.get? fields key).getD .null) rest = .ok ready) :
    store value (.name key :: rest) (.map fields) =
      (.map (Entries.insert fields key (store value rest ready).1),
        (store value rest ready).2) := by
  simp only [store, h]

theorem store_item {items : List Value} {segment : Segment} {position : UInt64}
    (hposition : segment.position? = some position) (hmax : position.toNat ≤ maxPosition)
    (h : prepare true (items[position.toNat]?.getD .null) rest = .ok ready) :
    store value (segment :: rest) (.list items) =
      (.list ((extend items position.toNat).set position.toNat (store value rest ready).1),
        (store value rest ready).2) := by
  simp only [store, hposition, if_neg (Nat.not_lt.2 hmax), getElem?_extend_self, Option.getD_some,
    h]

/-- An item that is a scalar is an obstacle, and the list stays as it is. -/
theorem store_scalar_item {items : List Value} {segment : Segment} {position : UInt64}
    {obstacle : Obstacle} (hposition : segment.position? = some position)
    (hmax : position.toNat ≤ maxPosition)
    (h : prepare true (items[position.toNat]?.getD .null) rest = .error obstacle) :
    store value (segment :: rest) (.list items) = (.list items, some obstacle) := by
  have hlt : position.toNat < items.length := by
    refine Nat.lt_of_not_le fun hle => ?_
    rw [List.getElem?_eq_none hle] at h
    cases (prepare_item_eq_error_iff.1 h).2.2.1
  simp only [store, hposition, if_neg (Nat.not_lt.2 hmax), extend_of_lt hlt, h]

theorem store_index_on_map (fields : Entries Value) (position : UInt64) :
    store value (.index position :: rest) (.map fields) = (.map fields, some .indexOnMap) := by
  simp only [store]

theorem store_name_on_list {items : List Value} {segment : Segment}
    (h : segment.position? = none) :
    store value (segment :: rest) (.list items) = (.list items, some .nameOnList) := by
  simp only [store, h]

theorem store_beyond_max {items : List Value} {segment : Segment} {position : UInt64}
    (hposition : segment.position? = some position) (hmax : maxPosition < position.toNat) :
    store value (segment :: rest) (.list items) =
      (.list items, some (.positionTooLarge position)) := by
  simp only [store, hposition, if_pos hmax]

theorem store_scalar {target : Value} (h : target.isContainer = false) (segment : Segment) :
    store value (segment :: rest) target = (target, some (.scalar target.kindName)) := by
  cases target with
  | list => cases h
  | map => cases h
  | _ => simp only [store]

end DocumentModel.Document

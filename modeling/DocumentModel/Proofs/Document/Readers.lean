import DocumentModel.Document.Basic

/-! What the readers of a document tell.

The readers for values of one kind find their way as `get` does, and so fail as it does. Where it
gives a value, they give the content of the value if it is of their kind (`getAs_eq`,
`getMap_eq`). The whole document is a case apart: to the steps below the root it is as if nothing
were there, which makes no difference to a reader of scalars or lists, since the root is a map. It
makes one to `isNull`, which takes the whole document for null: `readers_agree`. -/
namespace DocumentModel.Document

variable {α : Type} {d : Document} {path : String} {p : FieldPath}

/-! ### Reads of a parsed path -/

theorem get_of_parse (hparse : FieldPath.parse path = .ok p) :
    d.get path = if p.isEmpty then .ok (.map d.root) else (d.lookup p).map (·.getD .null) := by
  rw [get, hparse]
  show (if p.isEmpty then _ else _) = _
  cases p.isEmpty with
  | true => rfl
  | false => cases d.lookup p <;> rfl

theorem get_of_parse_error {e : Error} (hparse : FieldPath.parse path = .error e) :
    d.get path = .error e := by
  rw [get, hparse]
  rfl

theorem find_of_parse (hparse : FieldPath.parse path = .ok p) : d.find path = d.lookup p := by
  rw [find, hparse]
  rfl

theorem lookup_of_isEmpty (hempty : p.isEmpty = true) : d.lookup p = .ok none := by
  rw [lookup, if_pos hempty]

/-! ### Readers for values of one kind -/

/-- A reader for values of a kind agrees with a read. It fails as the read does, and it gives a
content exactly where the read gives the value of the kind that has this content. -/
def Agrees (got : Except Error Value) (make : α → Value) (read : Except Error (Option α)) : Prop :=
  (∀ e, read = .error e ↔ got = .error e) ∧ ∀ a, read = .ok (some a) ↔ got = .ok (make a)

variable {view : Value → Option α} {make : α → Value}

theorem agrees_map (hview : ∀ x a, view x = some a ↔ x = make a) (got : Except Error Value) :
    Agrees got make (got.map view) := by
  cases got with
  | error e => simp [Agrees, Except.map]
  | ok x => simp [Agrees, Except.map, hview]

/-- A reader that sees nothing in null or in a map sees what `get` gives. -/
theorem getAs_eq (hnull : view .null = none) (hmap : ∀ fields, view (.map fields) = none)
    (d : Document) (path : String) : getAs view d path = (d.get path).map view := by
  cases hparse : FieldPath.parse path with
  | error e =>
    rw [getAs, get_of_parse_error hparse, find, hparse]
    rfl
  | ok p =>
    rw [getAs, find_of_parse hparse, get_of_parse hparse]
    cases hempty : p.isEmpty with
    | true =>
      rw [lookup_of_isEmpty hempty, if_pos rfl, Except.map, hmap]
      rfl
    | false =>
      cases d.lookup p with
      | error e => rfl
      | ok found =>
        cases found with
        | none => exact congrArg Except.ok hnull.symm
        | some x => rfl

theorem getMap_eq (d : Document) (path : String) :
    d.getMap path = (d.get path).map Value.map? := by
  cases hparse : FieldPath.parse path with
  | error e =>
    rw [getMap, get_of_parse_error hparse, hparse]
    rfl
  | ok p =>
    rw [get_of_parse hparse, getMap, hparse]
    show (if p.isEmpty then _ else _) = _
    cases p.isEmpty with
    | true => rfl
    | false =>
      cases d.lookup p with
      | error e => rfl
      | ok found => cases found <;> rfl

/-- The content that a reader of scalars or lists gives is the content of the value. -/
theorem getAs_agrees (hview : ∀ x a, view x = some a ↔ x = make a)
    (hnull : ∀ a, make a ≠ .null) (hmap : ∀ a fields, make a ≠ .map fields) (d : Document)
    (path : String) : Agrees (d.get path) make (getAs view d path) := by
  have hnone : ∀ x, (∀ a, x ≠ make a) → view x = none := by
    intro x hx
    cases hfound : view x with
    | none => rfl
    | some a => exact absurd ((hview x a).1 hfound) (hx a)
  rw [getAs_eq (hnone _ fun a h => hnull a h.symm) fun fields =>
    hnone _ fun a h => hmap a fields h.symm]
  exact agrees_map hview _

/-! ### Readers of whether something is there -/

/-- Null or nothing is what `get` gives as null; but the whole document is taken for null too. -/
theorem isNull_of_parse (hparse : FieldPath.parse path = .ok p) :
    d.isNull path = if p.isEmpty then .ok true else (d.get path).map Value.isNull := by
  rw [isNull, find_of_parse hparse, get_of_parse hparse]
  cases hempty : p.isEmpty with
  | true =>
    rw [lookup_of_isEmpty hempty]
    rfl
  | false =>
    cases d.lookup p with
    | error e => rfl
    | ok found => cases found <;> rfl

theorem contains_of_parse (hparse : FieldPath.parse path = .ok p) :
    d.contains path = if p.isEmpty then .ok true else (d.lookup p).map Option.isSome := by
  rw [contains, hparse]
  show (if p.isEmpty then _ else _) = _
  cases p.isEmpty with
  | true => rfl
  | false => cases d.lookup p <;> rfl

theorem isNull_eq_error_iff (d : Document) (path : String) (e : Error) :
    d.isNull path = .error e ↔ d.get path = .error e := by
  cases hparse : FieldPath.parse path with
  | error e' =>
    rw [get_of_parse_error hparse, isNull, find, hparse]
    simp [bind, Except.bind]
  | ok p =>
    rw [isNull_of_parse hparse]
    cases hempty : p.isEmpty with
    | true => simp [get_of_parse hparse, hempty]
    | false => cases d.get path <;> simp [Except.map]

theorem isNull_eq_true_iff (d : Document) (path : String) :
    d.isNull path = .ok true ↔
      d.get path = .ok .null ∨ ∃ p, FieldPath.parse path = .ok p ∧ p.isEmpty = true := by
  cases hparse : FieldPath.parse path with
  | error e' =>
    rw [get_of_parse_error hparse, isNull, find, hparse]
    simp [bind, Except.bind]
  | ok p =>
    rw [isNull_of_parse hparse]
    cases hempty : p.isEmpty with
    | true => simp [hempty]
    | false =>
      cases d.get path with
      | error e => simp [Except.map, hempty]
      | ok x => cases x <;> simp [Except.map, hempty, Value.isNull]

theorem contains_eq_error_iff (d : Document) (path : String) (e : Error) :
    d.contains path = .error e ↔ d.get path = .error e := by
  cases hparse : FieldPath.parse path with
  | error e' =>
    rw [get_of_parse_error hparse, contains, hparse]
    simp [bind, Except.bind]
  | ok p =>
    rw [contains_of_parse hparse, get_of_parse hparse]
    cases p.isEmpty with
    | true => simp
    | false => cases d.lookup p <;> simp [Except.map]

theorem get_of_not_contains (h : d.contains path = .ok false) : d.get path = .ok .null := by
  cases hparse : FieldPath.parse path with
  | error e' => rw [contains, hparse] at h; cases h
  | ok p =>
    rw [contains_of_parse hparse] at h
    rw [get_of_parse hparse]
    cases hempty : p.isEmpty with
    | true =>
      rw [hempty] at h
      cases h
    | false =>
      rw [hempty] at h
      cases hlookup : d.lookup p with
      | error e => rw [hlookup] at h; cases h
      | ok found =>
        cases found with
        | none => rfl
        | some x => rw [hlookup] at h; cases h

/-! ### All readers -/

/-- **Every reader tells what `get` gives, but that the whole document is taken for null.** Each
fails exactly as `get` does. The readers for values of one kind give a content exactly where `get`
gives the value of this kind with this content. What is null is where `get` gives null, and the
whole document besides; and where nothing is stored, `get` gives null. -/
theorem readers_agree (d : Document) (path : String) :
    (Agrees (d.get path) .string (d.getString path) ∧
      Agrees (d.get path) .int (d.getInt path) ∧
      Agrees (d.get path) .float (d.getFloat path) ∧
      Agrees (d.get path) .bool (d.getBool path) ∧
      Agrees (d.get path) .binary (d.getBinary path) ∧
      Agrees (d.get path) .date (d.getDate path) ∧
      Agrees (d.get path) .time (d.getTime path) ∧
      Agrees (d.get path) .timestamp (d.getTimestamp path) ∧
      Agrees (d.get path) .list (d.getList path) ∧
      Agrees (d.get path) .map (d.getMap path)) ∧
    ((∀ e, d.isNull path = .error e ↔ d.get path = .error e) ∧
      (d.isNull path = .ok true ↔
        d.get path = .ok .null ∨ ∃ p, FieldPath.parse path = .ok p ∧ p.isEmpty = true)) ∧
    (∀ e, d.contains path = .error e ↔ d.get path = .error e) ∧
    (d.contains path = .ok false → d.get path = .ok .null) := by
  have hgetMap : Agrees (d.get path) .map (d.getMap path) := by
    rw [getMap_eq]
    exact agrees_map (fun x a => by cases x <;> simp [Value.map?]) _
  refine ⟨⟨?_, ?_, ?_, ?_, ?_, ?_, ?_, ?_, ?_, hgetMap⟩,
    ⟨isNull_eq_error_iff d path, isNull_eq_true_iff d path⟩,
    contains_eq_error_iff d path, get_of_not_contains⟩
  · exact getAs_agrees (fun x a => by cases x <;> simp [Value.string?]) (by simp) (by simp) d path
  · exact getAs_agrees (fun x a => by cases x <;> simp [Value.int?]) (by simp) (by simp) d path
  · exact getAs_agrees (fun x a => by cases x <;> simp [Value.float?]) (by simp) (by simp) d path
  · exact getAs_agrees (fun x a => by cases x <;> simp [Value.bool?]) (by simp) (by simp) d path
  · exact getAs_agrees (fun x a => by cases x <;> simp [Value.binary?]) (by simp) (by simp) d path
  · exact getAs_agrees (fun x a => by cases x <;> simp [Value.date?]) (by simp) (by simp) d path
  · exact getAs_agrees (fun x a => by cases x <;> simp [Value.time?]) (by simp) (by simp) d path
  · exact getAs_agrees (fun x a => by cases x <;> simp [Value.timestamp?]) (by simp) (by simp) d path
  · exact getAs_agrees (fun x a => by cases x <;> simp [Value.list?]) (by simp) (by simp) d path

/-- A document with a field, as a whole, is stored and is a map, and is taken for null still. -/
theorem not_isNull_iff_wholeDocument :
    contains ⟨[("a", .int 1)]⟩ "" = .ok true ∧
    ¬ (isNull ⟨[("a", .int 1)]⟩ "" = .ok true ↔ get ⟨[("a", .int 1)]⟩ "" = .ok .null) := by
  have hparse : FieldPath.parse "" = .ok ⟨[]⟩ := by cbv
  have hnull : isNull ⟨[("a", .int 1)]⟩ "" = .ok true := by
    rw [isNull_of_parse hparse]
    rfl
  have hget : get ⟨[("a", .int 1)]⟩ "" = .ok (.map [("a", .int 1)]) := by
    rw [get_of_parse hparse]
    rfl
  have hcontains : contains ⟨[("a", .int 1)]⟩ "" = .ok true := by
    rw [contains_of_parse hparse]
    rfl
  rw [hnull, hget]
  exact ⟨hcontains, by simp⟩

end DocumentModel.Document

import DocumentModel.Value.Basic

/-! What values hold.

A value contains itself, and what its items and the values of its fields contain, so that what
holds of all that a value contains holds of it and throughout its parts
(`forall_contains_list_iff`, `forall_contains_map_iff`). Maps that are built by giving keys
values hold no key twice; a value whose maps are all like that, at any depth, is `Distinct`. -/
namespace DocumentModel.Value

/-! ### Induction -/

/-- What holds of all scalars, of a list if it holds of its items, and of a map if it holds of the
values of its fields, holds of all values. -/
@[elab_as_elim]
theorem induct {motive : Value → Prop} (scalar : ∀ v, v.isContainer = false → motive v)
    (list : ∀ items, (∀ item ∈ items, motive item) → motive (.list items))
    (map : ∀ fields, (∀ field ∈ fields, motive field.2) → motive (.map fields)) (v : Value) :
    motive v := by
  refine @Value.rec motive (fun items => ∀ item ∈ items, motive item)
    (fun fields => ∀ field ∈ fields, motive field.2) (fun field => motive field.2)
    (scalar _ rfl) (fun _ => scalar _ rfl) (fun _ => scalar _ rfl) (fun _ => scalar _ rfl)
    (fun _ => scalar _ rfl) (fun _ => scalar _ rfl) (fun _ => scalar _ rfl) (fun _ => scalar _ rfl)
    (fun _ => scalar _ rfl) list map ?noItems ?item ?noFields ?field (fun _ _ h => h) v
  case noItems => simp
  case item => exact fun _ _ hitem hrest => List.forall_mem_cons.2 ⟨hitem, hrest⟩
  case noFields => simp
  case field => exact fun _ _ hfield hrest => List.forall_mem_cons.2 ⟨hfield, hrest⟩

/-! ### Parts -/

/-- What a value is made of: itself, and what its items and the values of its fields are
made of. -/
inductive Contains : Value → Value → Prop
  | self (v : Value) : Contains v v
  | item {items : List Value} {item u : Value} :
    item ∈ items → Contains item u → Contains (.list items) u
  | field {fields : List (String × Value)} {field : String × Value} {u : Value} :
    field ∈ fields → Contains field.2 u → Contains (.map fields) u

theorem Contains.trans {v u w : Value} (hu : v.Contains u) (hw : u.Contains w) :
    v.Contains w := by
  induction hu with
  | self => exact hw
  | item hmem _ ih => exact .item hmem (ih hw)
  | field hmem _ ih => exact .field hmem (ih hw)

/-! ### What holds throughout a value -/

section
variable {P : Value → Prop}

/-- Something holds throughout a scalar if it holds of it. -/
theorem forall_contains_scalar_iff {v : Value} (h : v.isContainer = false) :
    (∀ u, v.Contains u → P u) ↔ P v := by
  constructor
  · intro hall
    exact hall v (.self v)
  · intro hself u hu
    cases hu with
    | self => exact hself
    | item => cases h
    | field => cases h

/-- Something holds throughout a list if it holds of the list and throughout its items. -/
theorem forall_contains_list_iff {items : List Value} :
    (∀ u, Contains (.list items) u → P u) ↔
      P (.list items) ∧ ∀ item ∈ items, ∀ u, item.Contains u → P u := by
  constructor
  · intro hall
    exact ⟨hall _ (.self _), fun item hmem u hu => hall u (.item hmem hu)⟩
  · intro hgiven u hu
    obtain ⟨hself, hitems⟩ := hgiven
    cases hu with
    | self => exact hself
    | item hmem hu => exact hitems _ hmem u hu

/-- Something holds throughout a map if it holds of the map and throughout its fields. -/
theorem forall_contains_map_iff {fields : List (String × Value)} :
    (∀ u, Contains (.map fields) u → P u) ↔
      P (.map fields) ∧ ∀ field ∈ fields, ∀ u, field.2.Contains u → P u := by
  constructor
  · intro hall
    exact ⟨hall _ (.self _), fun field hmem u hu => hall u (.field hmem hu)⟩
  · intro hgiven u hu
    obtain ⟨hself, hfields⟩ := hgiven
    cases hu with
    | self => exact hself
    | field hmem hu => exact hfields _ hmem u hu

end

/-! ### Values without repeated keys -/

/-- No map in a value holds a key twice, at any depth. -/
def Distinct (v : Value) : Prop :=
  ∀ fields, v.Contains (.map fields) → (Entries.keys fields).Nodup

theorem distinct_list_iff {items : List Value} :
    Distinct (.list items) ↔ ∀ item ∈ items, item.Distinct := by
  constructor
  · intro h item hmem fields hfields
    exact h fields (.item hmem hfields)
  · intro h fields hfields
    cases hfields with
    | item hmem hfields => exact h _ hmem fields hfields

theorem distinct_map_iff {fields : List (String × Value)} :
    Distinct (.map fields) ↔
      (Entries.keys fields).Nodup ∧ ∀ field ∈ fields, field.2.Distinct := by
  constructor
  · intro h
    exact ⟨h fields (.self _), fun field hmem inner hinner => h inner (.field hmem hinner)⟩
  · intro hgiven inner hinner
    obtain ⟨hnodup, hfields⟩ := hgiven
    cases hinner with
    | self => exact hnodup
    | field hmem hinner => exact hfields _ hmem inner hinner

theorem distinct_of_scalar {v : Value} (h : v.isContainer = false) : v.Distinct := by
  intro fields hfields
  cases hfields with
  | self => cases h
  | item => cases h
  | field => cases h

end DocumentModel.Value

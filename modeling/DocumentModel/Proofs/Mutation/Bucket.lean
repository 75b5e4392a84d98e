import DocumentModel.Mutation

/-! Buckets as tables.

A bucket tells a table of paths with values: one entry stands by itself and more stand in a
list. `bundle` makes the bucket of a table, and giving a path a value in a bucket, in whichever
form the bucket has, is giving it the value in the table: `amend_bundle`. -/
namespace DocumentModel.Mutation

/-- What a bucket holds for an entry of its table. A deletion has no value. -/
def item (op : FieldChange) (e : String × Value) : Value :=
  if op = .delete then .string e.1 else entry e.1 e.2

/-- One item by itself, or the list of more. -/
def bundle : List Value → Value
  | [single] => single
  | items => .list items

/-- Gives a path a value in the bucket of an operator. -/
def amend (op : FieldChange) (bucket : Option Value) (path : String) (value : Value) : Value :=
  if op = .delete then putDeletion bucket path else put bucket path value

theorem item_of_ne {op : FieldChange} (h : op ≠ .delete) :
    item op = fun e => entry e.1 e.2 := by
  funext e
  exact if_neg h

/-! ### Entries with values -/

/-- The first item that has the path is changed where it stands. -/
theorem putItem_cons_pos {fields : Entries Value} {path : String}
    (h : Entries.contains fields path = true) (rest : List Value) (value : Value) :
    putItem (.map fields :: rest) path value = .map (fields.insert path value) :: rest := by
  have hfind : (Value.map fields :: rest).findIdx? (isEntryOf path) = some 0 := by
    simp [List.findIdx?_cons, isEntryOf, h]
  simp [putItem, hfind]

theorem putItem_cons_neg {first : Value} {path : String} (h : isEntryOf path first = false)
    (rest : List Value) (value : Value) :
    putItem (first :: rest) path value = first :: putItem rest path value := by
  simp only [putItem, List.findIdx?_cons, h, Bool.false_eq_true, if_false]
  cases rest.findIdx? (isEntryOf path) with
  | none => rfl
  | some i =>
    simp only [Option.map_some, List.getElem?_cons_succ]
    cases rest[i]? with
    | none => rfl
    | some found => cases found <;> rfl

theorem contains_single (key : String) (old : Value) (path : String) :
    Entries.contains [(key, old)] path = decide (key = path) := by
  by_cases h : key = path <;> simp [Entries.contains, Entries.get?, h]

/-- In a list of entries a path has its value changed where it stands, or goes to the end. -/
theorem putItem_entries (table : Entries Value) (path : String) (value : Value) :
    putItem (table.map fun e => entry e.1 e.2) path value =
      (table.insert path value).map fun e => entry e.1 e.2 := by
  induction table with
  | nil => rfl
  | cons e rest ih =>
    obtain ⟨key, old⟩ := e
    rw [List.map_cons, Entries.insert]
    by_cases h : key = path
    · have hcontains : Entries.contains [(key, old)] path = true := by simp [contains_single, h]
      rw [if_pos h, entry, putItem_cons_pos hcontains, Entries.insert, if_pos h]
      rfl
    · have hentry : isEntryOf path (entry key old) = false := by
        simp [isEntryOf, entry, contains_single, h]
      rw [if_neg h, putItem_cons_neg hentry, ih]
      rfl

theorem put_bundle {table : Entries Value} (hne : table ≠ []) (path : String) (value : Value) :
    put (some (bundle (table.map fun e => entry e.1 e.2))) path value =
      bundle ((table.insert path value).map fun e => entry e.1 e.2) := by
  match table with
  | [(key, old)] =>
    show put (some (entry key old)) path value = _
    rw [← putItem_entries]
    simp only [put, entry, contains_single, List.map_cons, List.map_nil]
    by_cases h : key = path
    · rw [if_pos (by simpa using h), putItem_cons_pos (by simpa [contains_single] using h)]
      rfl
    · rw [if_neg (by simpa using h),
        putItem_cons_neg (by simp [isEntryOf, contains_single, h])]
      rfl
  | first :: second :: rest =>
    show Value.list (putItem ((first :: second :: rest).map fun e => entry e.1 e.2) path value) = _
    rw [putItem_entries]
    rw [Entries.insert]
    split
    · rfl
    · rw [Entries.insert]
      split <;> rfl

/-! ### Deletions -/

theorem contains_deletions (table : Entries Value) (path : String) :
    (table.map fun e => Value.string e.1).contains (.string path) =
      decide (path ∈ table.keys) := by
  induction table with
  | nil => rfl
  | cons e rest ih =>
    rw [List.map_cons, List.contains_cons, ih, Entries.keys, Entries.keys, List.map_cons,
      Bool.eq_iff_iff]
    show (path == e.1 || decide _) = true ↔ _
    simp

/-- The paths of deletions are unchanged by a path that is among them, and go on with one that
is not. -/
theorem map_insert_deletions (table : Entries Value) (path : String) (value : Value) :
    (table.insert path value).map (fun e => Value.string e.1) =
      if path ∈ table.keys then table.map fun e => .string e.1
      else table.map (fun e => .string e.1) ++ [.string path] := by
  have hkeys := Entries.keys_insert table path value
  have hmap : ∀ t : Entries Value, t.map (fun e => Value.string e.1) = t.keys.map Value.string := by
    intro t
    simp [Entries.keys]
  rw [hmap, hkeys, hmap]
  split <;> simp

theorem putDeletion_bundle {table : Entries Value} (hne : table ≠ []) (path : String)
    (value : Value) :
    putDeletion (some (bundle (table.map fun e => .string e.1))) path =
      bundle ((table.insert path value).map fun e => .string e.1) := by
  rw [map_insert_deletions]
  match table with
  | [(key, old)] =>
    show (if (key == path) = true then Value.string key else .list [.string key, .string path]) = _
    by_cases h : key = path
    · simp [h, Entries.keys, bundle]
    · simp [h, Ne.symm h, Entries.keys, bundle]
  | first :: second :: rest =>
    show (if ((first :: second :: rest).map fun e => Value.string e.1).contains (.string path) = true
      then _ else _) = _
    rw [contains_deletions]
    simp only [decide_eq_true_eq]
    split <;> rfl

/-! ### Any operator -/

/-- The bucket that a first path makes. -/
theorem amend_none (op : FieldChange) (path : String) (value : Value) :
    amend op none path value = bundle ([(path, value)].map (item op)) := by
  by_cases h : op = .delete
  · subst h
    rfl
  · simp [amend, item, h, put, bundle]

/-- Giving a path a value in the bucket of a table is giving it the value in the table. -/
theorem amend_bundle (op : FieldChange) {table : Entries Value} (hne : table ≠ [])
    (path : String) (value : Value) :
    amend op (some (bundle (table.map (item op)))) path value =
      bundle ((table.insert path value).map (item op)) := by
  by_cases h : op = .delete
  · subst h
    exact putDeletion_bundle hne path value
  · rw [amend, if_neg h, item_of_ne h]
    exact put_bundle hne path value

end DocumentModel.Mutation

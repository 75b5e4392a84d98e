import DocumentModel.Value.Basic

/-! Merging maps and lists.

`overlay` is for documents: what comes in replaces what is there, except that maps under
the same key are merged in turn. `combine` is for expressions, where clauses of separate
calls end up side by side: lists under the same key are merged too. `combineLists` folds a map
into the first map of the list that shares a key with it, and adds anything else at the end
unless an equal item is there. -/
namespace DocumentModel.Merge

mutual

/-- Merges a map into another, as documents are merged. -/
def overlay (base : Entries Value) : List (String × Value) → Entries Value
  | [] => base
  | (key, value) :: rest =>
    overlay (base.insert key (overlayValue (base.get? key) value)) rest

/-- What a key holds after a value came in for it. -/
def overlayValue (existing : Option Value) : Value → Value
  | .map fields =>
    match existing with
    | some (.map base) => .map (overlay base fields)
    | _ => .map fields
  | value => value

end

/-- Whether an item is a map with one of the keys. -/
def sharesKey (keys : List String) : Value → Bool
  | .map fields => keys.any (Entries.contains fields)
  | _ => false

mutual

/-- Merges a map into another, as expressions are assembled. -/
def combine (base : Entries Value) : List (String × Value) → Entries Value
  | [] => base
  | (key, value) :: rest => combine (base.insert key (combineValue (base.get? key) value)) rest

/-- What a key holds after a value came in for it. -/
def combineValue (existing : Option Value) : Value → Value
  | .map fields =>
    match existing with
    | some (.map base) => .map (combine base fields)
    | _ => .map fields
  | .list items =>
    match existing with
    | some (.list base) => .list (combineLists base items)
    | _ => .list items
  | value => value

/-- Merges a list into another, item by item. -/
def combineLists (base : List Value) : List Value → List Value
  | [] => base
  | item :: rest => combineLists (combineItem base item) rest

/-- Merges an item into a list. -/
def combineItem (base : List Value) : Value → List Value
  | .map fields =>
    match base.findIdx? (sharesKey (Entries.keys fields)) with
    | some i =>
      match base[i]? with
      | some (.map existing) => base.set i (.map (combine existing fields))
      | _ => base ++ [.map fields]
    | none => base ++ [.map fields]
  | item => if base.contains item then base else base ++ [item]

end
end DocumentModel.Merge

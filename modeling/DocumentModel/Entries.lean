/-! Entries of a map, in the order in which their keys were first given.

A map is a list of keys with values. Giving a key a new value keeps its place, a new key
goes to the end, and erasing a key leaves the order of the others. Lists that are built with
`insert` and `erase` hold no key twice (`nodup_keys_insert`, `nodup_keys_erase`), and then a
key has the value that it was last given and no other key is touched (`get?_insert`). -/
namespace DocumentModel

/-- Keys with values, in order. -/
abbrev Entries (α : Type) := List (String × α)

namespace Entries
variable {α : Type}

/-- The value of a key. -/
def get? : Entries α → String → Option α
  | [], _ => none
  | (k, v) :: rest, key => if k = key then some v else get? rest key

/-- Whether a key has a value. -/
def contains (entries : Entries α) (key : String) : Bool := (get? entries key).isSome

/-- Gives a key a value, in the place that it has or at the end. -/
def insert : Entries α → String → α → Entries α
  | [], key, value => [(key, value)]
  | (k, v) :: rest, key, value =>
    if k = key then (k, value) :: rest else (k, v) :: insert rest key value

/-- Takes a key and its value away. -/
def erase : Entries α → String → Entries α
  | [], _ => []
  | (k, v) :: rest, key => if k = key then rest else (k, v) :: erase rest key

/-- The entries that come of giving each key its value in turn. -/
def ofList (pairs : List (String × α)) : Entries α :=
  pairs.foldl (fun entries p => insert entries p.1 p.2) []

/-- The keys, in order. -/
def keys (entries : Entries α) : List String := entries.map Prod.fst

/-! ### Values of keys -/

/-- A key has the value that it was given, and the other keys keep theirs. -/
theorem get?_insert (entries : Entries α) (key : String) (value : α) (other : String) :
    get? (insert entries key value) other =
      if key = other then some value else get? entries other := by
  induction entries with
  | nil => rfl
  | cons entry rest ih =>
    obtain ⟨k, v⟩ := entry
    simp only [insert]
    split <;> simp only [get?, ih] <;> grind

/-! ### Keys -/

theorem isSome_get?_iff (entries : Entries α) (key : String) :
    (get? entries key).isSome ↔ key ∈ keys entries := by
  induction entries with
  | nil => simp [keys, get?]
  | cons entry rest ih =>
    obtain ⟨k, v⟩ := entry
    simp only [keys, List.map_cons, List.mem_cons] at ih ⊢
    simp only [get?]
    split <;> grind

/-- A new key goes to the end, and a key that is there stays in its place. -/
theorem keys_insert (entries : Entries α) (key : String) (value : α) :
    keys (insert entries key value) =
      if key ∈ keys entries then keys entries else keys entries ++ [key] := by
  induction entries with
  | nil => simp [insert, keys]
  | cons entry rest ih =>
    obtain ⟨k, v⟩ := entry
    simp only [keys, List.map_cons] at ih ⊢
    simp only [insert]
    split <;> grind

/-- Erasing keeps the order of the keys that stay. -/
theorem keys_erase (entries : Entries α) (key : String) :
    keys (erase entries key) = (keys entries).erase key := by
  induction entries with
  | nil => rfl
  | cons entry rest ih =>
    obtain ⟨k, v⟩ := entry
    simp only [erase, keys, List.map_cons, List.erase_cons] at ih ⊢
    split <;> simp_all

/-- Giving a key a value makes no key stand twice. -/
theorem nodup_keys_insert {entries : Entries α} (h : (keys entries).Nodup) (key : String)
    (value : α) : (keys (insert entries key value)).Nodup := by
  rw [keys_insert]
  split
  · exact h
  · exact List.nodup_append.2 ⟨h, by simp, by grind⟩

/-- Erasing makes no key stand twice. -/
theorem nodup_keys_erase {entries : Entries α} (h : (keys entries).Nodup) (key : String) :
    (keys (erase entries key)).Nodup := by
  rw [keys_erase]
  exact h.erase key

end Entries
end DocumentModel

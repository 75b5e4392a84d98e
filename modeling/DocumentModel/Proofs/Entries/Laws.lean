import DocumentModel.Entries
import Mathlib.Data.List.Induction
import Mathlib.Data.List.Nodup
import Mathlib.Logic.Function.Basic

/-! Laws of entries.

Giving a key the value that it has changes nothing (`insert_of_get?`), and a new key goes to
the end (`insert_of_notMem`). `tabulate name value indices` has one entry for each index, under
the name of the index and in the order of the indices. Where the names tell the indices apart,
giving a name a value changes the value of its index: `insert_tabulate`. -/
namespace DocumentModel.Entries
variable {α : Type}

/-! ### Keys with and without a value -/

theorem get?_of_notMem {entries : Entries α} {key : String} (h : key ∉ keys entries) :
    get? entries key = none := by
  rw [← isSome_get?_iff] at h
  simpa using h

/-- Where no key stands twice, each has the value of its entry. -/
theorem get?_of_mem {entries : Entries α} (h : (keys entries).Nodup) {entry : String × α}
    (hmem : entry ∈ entries) : get? entries entry.1 = some entry.2 := by
  induction entries with
  | nil => cases hmem
  | cons first rest ih =>
    obtain ⟨k, v⟩ := first
    obtain ⟨hfresh, hrest⟩ : k ∉ keys rest ∧ (keys rest).Nodup := List.nodup_cons.1 h
    rw [get?]
    rcases List.mem_cons.1 hmem with rfl | hmem
    · rw [if_pos rfl]
    · have hkey : entry.1 ∈ keys rest := List.mem_map_of_mem hmem
      have hne : k ≠ entry.1 := ne_of_mem_of_not_mem hkey hfresh |>.symm
      rw [if_neg hne, ih hrest hmem]

/-- A key that has a value has an entry. -/
theorem mem_of_get? {entries : Entries α} {key : String} {value : α}
    (h : get? entries key = some value) : (key, value) ∈ entries := by
  induction entries with
  | nil => cases h
  | cons entry rest ih =>
    obtain ⟨k, v⟩ := entry
    rw [get?] at h
    by_cases hk : k = key
    · rw [if_pos hk] at h
      cases h
      rw [hk]
      exact List.mem_cons_self ..
    · rw [if_neg hk] at h
      exact List.mem_cons_of_mem _ (ih h)

/-- Where no key stands twice, a search that looks at one key only looks at its value. -/
theorem findSome?_of_key {β : Type} {entries : Entries α} (h : (keys entries).Nodup) (key : String)
    (f : α → Option β) :
    entries.findSome? (fun entry => if entry.1 = key then f entry.2 else none) =
      (get? entries key).bind f := by
  induction entries with
  | nil => rfl
  | cons first rest ih =>
    obtain ⟨k, v⟩ := first
    obtain ⟨hfresh, hrest⟩ : k ∉ keys rest ∧ (keys rest).Nodup := List.nodup_cons.1 h
    rw [List.findSome?_cons, ih hrest, get?]
    by_cases hk : k = key
    · rw [if_pos hk, if_pos hk, ← hk, get?_of_notMem hfresh]
      cases hf : f v <;> simp [hf]
    · rw [if_neg hk, if_neg hk]

/-- Where no key stands twice, the order of the entries decides no value. -/
theorem get?_of_perm {entries other : Entries α} (h : (keys entries).Nodup)
    (hperm : entries.Perm other) (key : String) : get? entries key = get? other key := by
  have hkeys : (keys entries).Perm (keys other) := hperm.map Prod.fst
  cases hget : get? entries key with
  | some value =>
    have hmem := hperm.mem_iff.1 (mem_of_get? hget)
    exact (get?_of_mem (hkeys.nodup_iff.1 h) hmem).symm
  | none =>
    refine (get?_of_notMem fun hmem => ?_).symm
    rw [← hkeys.mem_iff, ← isSome_get?_iff, hget] at hmem
    cases hmem

/-- Where no key stands twice, keys with the same values have the same entries. -/
theorem perm_of_get? {entries other : Entries α} (h : (keys entries).Nodup)
    (hother : (keys other).Nodup) (hget : ∀ key, get? entries key = get? other key) :
    entries.Perm other := by
  have hentries := List.Nodup.of_map Prod.fst h
  refine (List.perm_ext_iff_of_nodup hentries (List.Nodup.of_map Prod.fst hother)).2 fun entry => ?_
  constructor
  · intro hmem
    exact mem_of_get? ((hget entry.1).symm.trans (get?_of_mem h hmem))
  · intro hmem
    exact mem_of_get? ((hget entry.1).trans (get?_of_mem hother hmem))

/-- Giving a key the value that it has changes nothing. -/
theorem insert_of_get? {entries : Entries α} {key : String} {value : α}
    (h : get? entries key = some value) : insert entries key value = entries := by
  induction entries with
  | nil => cases h
  | cons entry rest ih =>
    obtain ⟨k, v⟩ := entry
    rw [get?] at h
    rw [insert]
    by_cases hk : k = key
    · rw [if_pos hk] at h ⊢
      cases h
      rfl
    · rw [if_neg hk] at h ⊢
      rw [ih h]

/-- An entry that is there after a key was given a value is the entry of the key or was there
before. -/
theorem eq_or_mem_of_mem_insert {entries : Entries α} {key : String} {value : α}
    {entry : String × α} (h : entry ∈ insert entries key value) :
    entry = (key, value) ∨ entry ∈ entries := by
  induction entries with
  | nil => exact .inl (List.mem_singleton.1 h)
  | cons first rest ih =>
    obtain ⟨k, v⟩ := first
    rw [insert] at h
    by_cases hk : k = key
    · rw [if_pos hk, List.mem_cons, hk] at h
      exact h.imp_right (List.mem_cons_of_mem _)
    · rw [if_neg hk, List.mem_cons] at h
      rcases h with rfl | hrest
      · exact .inr (List.mem_cons_self ..)
      · exact (ih hrest).imp_right (List.mem_cons_of_mem _)

/-- Of two values that a key is given, the later stays. -/
theorem insert_insert (entries : Entries α) (key : String) (first second : α) :
    insert (insert entries key first) key second = insert entries key second := by
  induction entries with
  | nil => simp [insert]
  | cons entry rest ih =>
    obtain ⟨k, v⟩ := entry
    by_cases hk : k = key
    · simp [insert, hk]
    · simp [insert, hk, ih]

/-- A new key goes to the end. -/
theorem insert_of_notMem {entries : Entries α} {key : String} (h : key ∉ keys entries)
    (value : α) : insert entries key value = entries ++ [(key, value)] := by
  induction entries with
  | nil => rfl
  | cons entry rest ih =>
    obtain ⟨k, v⟩ := entry
    obtain ⟨hk, hrest⟩ : key ≠ k ∧ key ∉ keys rest := by simpa [keys] using h
    rw [insert, if_neg (Ne.symm hk), ih hrest, List.cons_append]

/-- A key that is not there cannot be erased. -/
theorem erase_of_notMem {entries : Entries α} {key : String} (h : key ∉ keys entries) :
    erase entries key = entries := by
  induction entries with
  | nil => rfl
  | cons entry rest ih =>
    obtain ⟨k, v⟩ := entry
    obtain ⟨hk, hrest⟩ : key ≠ k ∧ key ∉ keys rest := by simpa [keys] using h
    rw [erase, if_neg (Ne.symm hk), ih hrest]

/-- Erasing a key takes no value from another. -/
theorem get?_erase_of_ne (entries : Entries α) {key other : String} (hne : key ≠ other) :
    get? (erase entries key) other = get? entries other := by
  induction entries with
  | nil => rfl
  | cons entry rest ih =>
    obtain ⟨k, v⟩ := entry
    rw [erase, get?]
    by_cases hk : k = key
    · rw [if_pos hk, if_neg (hk ▸ hne)]
    · rw [if_neg hk, get?, ih]

/-- Where no key stands twice, an erased key has no value. -/
theorem get?_erase_self {entries : Entries α} (h : (keys entries).Nodup) (key : String) :
    get? (erase entries key) key = none := by
  refine get?_of_notMem ?_
  rw [keys_erase]
  exact h.not_mem_erase

/-- Where no key stands twice, erasing a key takes away what stands under it and no more. -/
theorem erase_eq_filter {entries : Entries α} (h : (keys entries).Nodup) (key : String) :
    erase entries key = entries.filter (·.1 ≠ key) := by
  induction entries with
  | nil => rfl
  | cons entry rest ih =>
    obtain ⟨k, v⟩ := entry
    obtain ⟨hfresh, hrest⟩ : k ∉ keys rest ∧ (keys rest).Nodup := List.nodup_cons.1 h
    rw [erase]
    by_cases hk : k = key
    · have hstay : rest.filter (·.1 ≠ key) = rest := by
        refine List.filter_eq_self.2 fun entry hmem => decide_eq_true fun heq => hfresh ?_
        rw [hk, ← heq]
        exact List.mem_map_of_mem hmem
      rw [if_pos hk, List.filter_cons_of_neg (by simpa using hk), hstay]
    · rw [if_neg hk, List.filter_cons_of_pos (by simpa using hk), ih hrest]

/-- Two keys can be given their values in either order, up to the order of the entries. -/
theorem insert_perm_comm (entries : Entries α) {key other : String} (hne : key ≠ other)
    (value otherValue : α) :
    (insert (insert entries key value) other otherValue).Perm
      (insert (insert entries other otherValue) key value) := by
  induction entries with
  | nil =>
    rw [insert, insert, insert, insert, insert, insert, if_neg hne, if_neg hne.symm]
    exact .swap ..
  | cons entry rest ih =>
    obtain ⟨k, v⟩ := entry
    by_cases hkey : k = key
    · have hother : k ≠ other := hkey ▸ hne
      simp [insert, hkey, hne]
    by_cases hother : k = other
    · simp [insert, hother, hne.symm]
    · simpa [insert, hkey, hother] using ih

/-- The entry of a key gets one place, whatever its value. -/
theorem insert_eq_append (entries : Entries α) (key : String) :
    ∃ before after, ∀ value, insert entries key value = before ++ (key, value) :: after := by
  induction entries with
  | nil => exact ⟨[], [], fun _ => rfl⟩
  | cons entry rest ih =>
    obtain ⟨k, v⟩ := entry
    by_cases hkey : k = key
    · exact ⟨[], rest, fun value => by rw [insert, if_pos hkey, hkey, List.nil_append]⟩
    · obtain ⟨before, after, h⟩ := ih
      exact ⟨(k, v) :: before, after, fun value => by rw [insert, if_neg hkey, h, List.cons_append]⟩

/-! ### The entry of a key, between those in front of it and those behind it -/

section
variable {before : Entries α} {key : String}

theorem keys_append_cons (before : Entries α) (key : String) (value : α) (after : Entries α) :
    keys (before ++ (key, value) :: after) = keys before ++ key :: keys after := by
  rw [keys, List.map_append, List.map_cons, ← keys, ← keys]

theorem get?_append_cons (h : key ∉ keys before) (value : α) (after : Entries α) :
    get? (before ++ (key, value) :: after) key = some value := by
  induction before with
  | nil => rw [List.nil_append, get?, if_pos rfl]
  | cons entry rest ih =>
    obtain ⟨k, v⟩ := entry
    obtain ⟨hk, hrest⟩ : key ≠ k ∧ key ∉ keys rest := by simpa [keys] using h
    rw [List.cons_append, get?, if_neg (Ne.symm hk), ih hrest]

theorem insert_append_cons (h : key ∉ keys before) (old value : α) (after : Entries α) :
    insert (before ++ (key, old) :: after) key value = before ++ (key, value) :: after := by
  induction before with
  | nil => rw [List.nil_append, insert, if_pos rfl, List.nil_append]
  | cons entry rest ih =>
    obtain ⟨k, v⟩ := entry
    obtain ⟨hk, hrest⟩ : key ≠ k ∧ key ∉ keys rest := by simpa [keys] using h
    rw [List.cons_append, insert, if_neg (Ne.symm hk), ih hrest, List.cons_append]

theorem erase_append_cons (h : key ∉ keys before) (value : α) (after : Entries α) :
    erase (before ++ (key, value) :: after) key = before ++ after := by
  induction before with
  | nil => rw [List.nil_append, erase, if_pos rfl, List.nil_append]
  | cons entry rest ih =>
    obtain ⟨k, v⟩ := entry
    obtain ⟨hk, hrest⟩ : key ≠ k ∧ key ∉ keys rest := by simpa [keys] using h
    rw [List.cons_append, erase, if_neg (Ne.symm hk), ih hrest, List.cons_append]

/-- A key that has a value has an entry, and no entry in front of it has the key. -/
theorem exists_append_of_get? {entries : Entries α} {value : α}
    (h : get? entries key = some value) :
    ∃ before after, entries = before ++ (key, value) :: after ∧ key ∉ keys before := by
  induction entries with
  | nil => cases h
  | cons entry rest ih =>
    obtain ⟨k, v⟩ := entry
    rw [get?] at h
    by_cases hk : k = key
    · rw [if_pos hk] at h
      cases h
      subst hk
      exact ⟨[], rest, rfl, List.not_mem_nil⟩
    · rw [if_neg hk] at h
      obtain ⟨before, after, rfl, hbefore⟩ := ih h
      refine ⟨(k, v) :: before, after, rfl, ?_⟩
      simpa [keys, Ne.symm hk] using hbefore

end

/-- Where the fields that come in have different keys, a key holds what comes of its field and of
what it held, and every other key keeps its value. -/
theorem get?_foldl_insert (f : Option α → α → α) (base : Entries α) {fields : Entries α}
    (hnodup : (keys fields).Nodup) (key : String) :
    get? (fields.foldl (fun entries field =>
        insert entries field.1 (f (get? entries field.1) field.2)) base) key =
      (get? fields key).elim (get? base key) fun value => some (f (get? base key) value) := by
  induction fields generalizing base with
  | nil => rw [List.foldl_nil, get?, Option.elim_none]
  | cons field rest ih =>
    obtain ⟨k, value⟩ := field
    obtain ⟨hfresh, hrest⟩ := List.nodup_cons.1 hnodup
    rw [List.foldl_cons, ih _ hrest, get?_insert, get?]
    by_cases hk : k = key
    · subst hk
      rw [get?_of_notMem hfresh, if_pos rfl, if_pos rfl, Option.elim_none, Option.elim_some]
    · rw [if_neg hk, if_neg hk]

/-! ### First occurrences -/

variable {ι : Type} [DecidableEq ι]

/-- The first occurrences up to a last item: it is one if it did not occur before. -/
theorem eraseDups_concat (indices : List ι) (j : ι) :
    (indices ++ [j]).eraseDups =
      if j ∈ indices.eraseDups then indices.eraseDups else indices.eraseDups ++ [j] := by
  rw [List.eraseDups_append]
  by_cases h : j ∈ indices
  · simp [List.removeAll, h]
  · simp [List.removeAll, h, List.eraseDups_cons]

theorem nodup_eraseDups (indices : List ι) : indices.eraseDups.Nodup := by
  induction indices using List.reverseRecOn with
  | nil => simp
  | append_singleton indices j ih =>
    rw [eraseDups_concat]
    split
    · exact ih
    · rename_i hj
      exact List.nodup_append.2 ⟨ih, by simp, by grind⟩

/-- First occurrences of what is kept are kept first occurrences. -/
theorem eraseDups_filter (p : ι → Bool) (indices : List ι) :
    (indices.filter p).eraseDups = indices.eraseDups.filter p := by
  induction indices using List.reverseRecOn with
  | nil => rfl
  | append_singleton indices j ih =>
    rw [List.filter_append, eraseDups_concat]
    cases hj : p j with
    | true =>
      have hlast : [j].filter p = [j] := by simp [hj]
      rw [hlast, eraseDups_concat, ih]
      by_cases hmem : j ∈ indices.eraseDups
      · rw [if_pos (List.mem_filter.2 ⟨hmem, hj⟩), if_pos hmem]
      · rw [if_neg fun h => hmem (List.mem_filter.1 h).1, if_neg hmem, List.filter_append, hlast]
    | false =>
      have hlast : [j].filter p = [] := by simp [hj]
      rw [hlast, List.append_nil, ih]
      split
      · rfl
      · rw [List.filter_append, hlast, List.append_nil]

/-- Where nothing stands twice, all are first occurrences. -/
theorem eraseDups_of_nodup {indices : List ι} (h : indices.Nodup) :
    indices.eraseDups = indices := by
  induction indices using List.reverseRecOn with
  | nil => rfl
  | append_singleton indices j ih =>
    obtain ⟨hindices, -, hdisjoint⟩ := List.nodup_append.1 h
    have hj : j ∉ indices := fun hmem => hdisjoint j hmem j (List.mem_singleton_self j) rfl
    rw [eraseDups_concat, ih hindices, if_neg hj]

/-- Keys that are there stay in their places, and behind them stand the first occurrences of the
new keys that come in. -/
theorem keys_foldl_insert (f : Entries α → String × α → α) (base fields : Entries α) :
    keys (fields.foldl (fun entries field => insert entries field.1 (f entries field)) base) =
      keys base ++ ((keys fields).filter (· ∉ keys base)).eraseDups := by
  induction fields using List.reverseRecOn with
  | nil => simp [keys]
  | append_singleton fields field ih =>
    have hkeys : keys (fields ++ [field]) = keys fields ++ [field.1] := List.map_append
    rw [List.foldl_append, List.foldl_cons, List.foldl_nil, keys_insert, ih, hkeys,
      List.filter_append]
    by_cases hbase : field.1 ∈ keys base
    · simp [hbase]
    · have hlast : [field.1].filter (· ∉ keys base) = [field.1] := by simp [hbase]
      rw [hlast, eraseDups_concat]
      simp only [List.mem_append, hbase, false_or]
      split
      · rfl
      · rw [List.append_assoc]

/-! ### Tables -/

/-- The entries of indices, each under its name. -/
def tabulate (name : ι → String) (value : ι → α) (indices : List ι) : Entries α :=
  indices.map fun i => (name i, value i)

section
variable {name : ι → String} {value : ι → α} {indices : List ι} {j : ι}

omit [DecidableEq ι] in
theorem keys_tabulate : keys (tabulate name value indices) = indices.map name := by
  simp [keys, tabulate]

omit [DecidableEq ι] in
theorem mem_tabulate_iff {e : String × α} :
    e ∈ tabulate name value indices ↔ ∃ i ∈ indices, (name i, value i) = e := List.mem_map

/-- The value under the name of an index is the value of the index. -/
theorem get?_tabulate (hname : ∀ i ∈ indices, name i = name j → i = j) :
    get? (tabulate name value indices) (name j) =
      if j ∈ indices then some (value j) else none := by
  induction indices with
  | nil => rfl
  | cons i rest ih =>
    have htail := ih fun k hk => hname k (List.mem_cons_of_mem i hk)
    by_cases hi : i = j
    · simp [tabulate, get?, hi]
    · have hne : name i ≠ name j := fun h => hi (hname i (List.mem_cons_self ..) h)
      simpa [tabulate, get?, hne, Ne.symm hi] using htail

/-- Where a value changes at no index of a list, the entries of the list stay. -/
theorem tabulate_update_of_notMem (h : j ∉ indices) (v : α) :
    tabulate name (Function.update value j v) indices = tabulate name value indices := by
  refine List.map_congr_left fun i hi => ?_
  have hne : i ≠ j := fun heq => h (heq ▸ hi)
  rw [Function.update_of_ne hne]

/-- Giving the name of an index a value changes the value of the index, and a new index goes
to the end. -/
theorem insert_tabulate (hname : ∀ i ∈ indices, name i = name j → i = j)
    (hnodup : indices.Nodup) (v : α) :
    insert (tabulate name value indices) (name j) v =
      tabulate name (Function.update value j v)
        (if j ∈ indices then indices else indices ++ [j]) := by
  induction indices with
  | nil => simp [tabulate, insert]
  | cons i rest ih =>
    obtain ⟨hfresh, hrest⟩ := List.nodup_cons.1 hnodup
    by_cases hi : i = j
    · subst hi
      have hstay : tabulate name (Function.update value i v) rest = tabulate name value rest :=
        tabulate_update_of_notMem hfresh v
      simp only [tabulate] at hstay
      simp [tabulate, insert, hstay]
    · have hne : name i ≠ name j := fun h => hi (hname i (List.mem_cons_self ..) h)
      have htail := ih (fun k hk => hname k (List.mem_cons_of_mem i hk)) hrest
      show insert ((name i, value i) :: tabulate name value rest) (name j) v = _
      rw [insert, if_neg hne, htail]
      by_cases hj : j ∈ rest <;> simp [tabulate, hj, Ne.symm hi, Function.update_of_ne hi]

/-- Where the indices stand in the order of first occurrence, giving a name a value goes on by
its index. -/
theorem insert_tabulate_eraseDups (hname : ∀ i ∈ indices, name i = name j → i = j) (v : α) :
    insert (tabulate name value indices.eraseDups) (name j) v =
      tabulate name (Function.update value j v) (indices ++ [j]).eraseDups := by
  have hname' : ∀ i ∈ indices.eraseDups, name i = name j → i = j :=
    fun i hi => hname i (List.mem_eraseDups.1 hi)
  rw [eraseDups_concat, insert_tabulate hname' (nodup_eraseDups indices)]

/-- Leaving out the name of an index leaves the other indices. -/
theorem filter_tabulate (hname : ∀ i ∈ indices, name i = name j → i = j) :
    (tabulate name value indices).filter (·.1 ≠ name j) =
      tabulate name value (indices.filter (· ≠ j)) := by
  rw [tabulate, List.filter_map, tabulate]
  refine congrArg _ (List.filter_congr fun i hi => decide_eq_decide.2 (not_congr ⟨hname i hi, ?_⟩))
  intro h
  rw [h]

end

end DocumentModel.Entries

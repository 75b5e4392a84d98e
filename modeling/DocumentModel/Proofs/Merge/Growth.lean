import DocumentModel.Proofs.Merge.Combine
import DocumentModel.Proofs.Merge.Paths

/-! What merges of expressions keep.

Combining maps and lists takes nothing out of a list and no key out of a map. Every item that is
taken in leaves each position of the list what it was, but that a map there may have got more keys
(`extends_combineItem`); a whole list does the same, since what is kept once is kept again
(`Extends.trans`). So what came of an incoming item is not undone by those behind it
(`exists_extends_of_mem`), which gives the main statement: `combine_keeps`. -/
namespace DocumentModel.Merge
open Value (Distinct)

variable {base result items : List Value} {item : Value}

theorem fieldwise_combine : Fieldwise combineValue combine where
  new := combineValue_none
  map_of_not_map := by
    intro held h incoming
    cases held with
    | map => cases h
    | _ => simp only [combineValue]
  map_of_map _ _ := by simp only [combineValue]
  eq_foldl := combine_eq_foldl

/-! ### Lists that go on from others -/

/-- A list has the positions of another, and what stands there. A map may have more keys behind
those that it had. -/
structure Extends (base result : List Value) : Prop where
  item : ∀ {i : Nat} {held : Value}, base[i]? = some held → held.isMap = false →
    result[i]? = some held
  map : ∀ {i : Nat} {fields : Entries Value}, base[i]? = some (.map fields) →
    ∃ fields' : Entries Value, result[i]? = some (.map fields') ∧ fields.keys <+: fields'.keys

namespace Extends

theorem refl (base : List Value) : Extends base base where
  item h _ := h
  map h := ⟨_, h, List.prefix_refl _⟩

theorem trans {next : List Value} (h : Extends base next) (h' : Extends next result) :
    Extends base result where
  item hheld hmap := h'.item (h.item hheld hmap) hmap
  map hheld := by
    obtain ⟨fields', hnext, hkeys⟩ := h.map hheld
    obtain ⟨fields'', hresult, hkeys'⟩ := h'.map hnext
    exact ⟨fields'', hresult, hkeys.trans hkeys'⟩

theorem append (base added : List Value) : Extends base (base ++ added) := by
  have hstay : ∀ {i : Nat} {held : Value}, base[i]? = some held →
      (base ++ added)[i]? = some held := by
    intro i held h
    obtain ⟨hlt, -⟩ := List.getElem?_eq_some_iff.1 h
    rw [List.getElem?_append_left hlt, h]
  exact ⟨fun h _ => hstay h, fun h => ⟨_, hstay h, List.prefix_refl _⟩⟩

/-- A map in a list gets more keys. -/
theorem set {i : Nat} {existing fields : Entries Value} (h : base[i]? = some (.map existing))
    (hkeys : existing.keys <+: fields.keys) : Extends base (base.set i (.map fields)) := by
  obtain ⟨hlt, -⟩ := List.getElem?_eq_some_iff.1 h
  constructor
  · intro j held hheld hmap
    have hne : i ≠ j := by
      rintro rfl
      rw [h] at hheld
      cases hheld
      cases hmap
    rw [List.getElem?_set_ne hne, hheld]
  · intro j held hheld
    by_cases hj : i = j
    · subst hj
      rw [h] at hheld
      cases hheld
      exact ⟨fields, List.getElem?_set_self hlt, hkeys⟩
    · exact ⟨held, by rw [List.getElem?_set_ne hj, hheld], List.prefix_refl _⟩

theorem mem (h : Extends base result) (hmem : item ∈ base) (hmap : item.isMap = false) :
    item ∈ result := by
  obtain ⟨i, hget⟩ := List.mem_iff_getElem?.1 hmem
  exact List.mem_of_getElem? (h.item hget hmap)

theorem exists_map_mem (h : Extends base result) {fields : Entries Value}
    (hmem : Value.map fields ∈ base) :
    ∃ fields' : Entries Value, Value.map fields' ∈ result ∧ fields.keys <+: fields'.keys := by
  obtain ⟨i, hget⟩ := List.mem_iff_getElem?.1 hmem
  obtain ⟨fields', hget', hkeys⟩ := h.map hget
  exact ⟨fields', List.mem_of_getElem? hget', hkeys⟩

end Extends

/-! ### Combining lists -/

theorem keys_prefix_keys_combine (base fields : Entries Value) :
    base.keys <+: (combine base fields).keys := by
  rw [fieldwise_combine.keys]
  exact List.prefix_append ..

/-- Taking an item in keeps every position. -/
theorem extends_combineItem (base : List Value) (item : Value) :
    Extends base (combineItem base item) := by
  cases hmap : item.isMap with
  | false =>
    rw [combineItem_of_not_isMap hmap]
    split
    · exact .refl base
    · exact .append base [item]
  | true =>
    cases item with
    | map fields =>
      rcases combineItem_map_cases base fields with ⟨-, hitem⟩ | ⟨i, existing, hget, hitem⟩
      · rw [hitem]
        exact .append base _
      · rw [hitem]
        exact .set hget (keys_prefix_keys_combine existing fields)
    | _ => cases hmap

/-- So does taking in all items of a list. -/
theorem extends_combineLists (base items : List Value) : Extends base (combineLists base items) := by
  induction items generalizing base with
  | nil =>
    rw [combineLists]
    exact .refl base
  | cons item rest ih =>
    rw [combineLists]
    exact (extends_combineItem base item).trans (ih _)

/-- What taking an item in has left is kept by what comes behind it. -/
theorem exists_extends_of_mem (h : item ∈ items) (base : List Value) :
    ∃ before, Extends (combineItem before item) (combineLists base items) := by
  induction items generalizing base with
  | nil => cases h
  | cons first rest ih =>
    rw [combineLists]
    rcases List.mem_cons.1 h with rfl | hrest
    · exact ⟨base, extends_combineLists _ rest⟩
    · exact ih hrest _

theorem beq_map_of_not_isMap (h : item.isMap = false) (fields : Entries Value) :
    (item == Value.map fields) = false := by
  cases item with
  | map => cases h
  | _ =>
    change Value.equals _ _ = false
    simp only [Value.equals]

/-- An item that is no map is there, or else one that equals it. -/
theorem mem_or_beq_of_combineItem (h : item.isMap = false) (base : List Value) :
    item ∈ combineItem base item ∨
      ∃ held ∈ combineItem base item, held.isMap = false ∧ (item == held) = true := by
  rw [combineItem_of_not_isMap h, ← contains_eq_any_takes h]
  split
  case isTrue hcontains =>
    obtain ⟨held, hmem, heq⟩ := List.contains_iff_exists_mem_beq.1 hcontains
    refine .inr ⟨held, hmem, ?_, heq⟩
    cases held with
    | map fields =>
      rw [beq_map_of_not_isMap h] at heq
      cases heq
    | _ => rfl
  case isFalse => exact .inl (List.mem_append_right base (List.mem_singleton_self item))

/-- A map is in a map that has all of its keys. -/
theorem exists_map_of_combineItem (base : List Value) (fields : Entries Value) :
    ∃ held : Entries Value, Value.map held ∈ combineItem base (.map fields) ∧
      ∀ key ∈ fields.keys, key ∈ held.keys := by
  rcases combineItem_map_cases base fields with ⟨-, hitem⟩ | ⟨i, existing, hget, hitem⟩
  · rw [hitem]
    exact ⟨fields, List.mem_append_right base (List.mem_singleton_self _), fun _ hkey => hkey⟩
  · obtain ⟨hlt, -⟩ := List.getElem?_eq_some_iff.1 hget
    rw [hitem]
    refine ⟨combine existing fields, List.mem_set hlt _, fun key hkey => ?_⟩
    rw [fieldwise_combine.keys, List.mem_append, List.mem_eraseDups, List.mem_filter]
    by_cases hold : key ∈ existing.keys
    · exact .inl hold
    · exact .inr ⟨hkey, by simpa using hold⟩

/-- Items that are no maps come in behind the base, each once and unless the base has it. -/
theorem combineLists_of_no_maps (h : ∀ item ∈ items, item.isMap = false) (base : List Value) :
    combineLists base items = base ++ (items.filter (!base.contains ·)).eraseDups := by
  induction items generalizing base with
  | nil => rw [combineLists, List.filter_nil, List.eraseDups_nil, List.append_nil]
  | cons item rest ih =>
    obtain ⟨hitem, hrest⟩ := List.forall_mem_cons.1 h
    rw [combineLists, combineItem_of_not_isMap hitem, ← contains_eq_any_takes hitem]
    cases hcontains : base.contains item with
    | true => rw [if_pos rfl, ih hrest, List.filter_cons_of_neg (by rw [hcontains]; simp)]
    | false =>
      -- What equals the item is not new any more to those behind it.
      have hnew : ∀ later : Value, (!(base ++ [item]).contains later) =
          (!later == item && !base.contains later) := by
        intro later
        rw [List.contains_append, List.contains_cons, List.contains_nil, Bool.or_false,
          Bool.not_or, Bool.and_comm]
      rw [if_neg (by simp), ih hrest, List.filter_cons_of_pos (by rw [hcontains]; rfl),
        List.eraseDups_cons, List.filter_filter, List.append_assoc, List.singleton_append]
      simp only [hnew]

/-! ### The main statement -/

/-- **Merging expressions drops nothing.** Wherever both sides hold a map under the same names, its
keys in order are followed by the keys that are new; wherever both hold a list, the two are
combined. Combining lists keeps each position: what is no map is as it was, and a map is a map
still, whose keys start with those that it had. An item that comes in and is no map is in the list
afterwards, or one that equals it; and a map that comes in has all of its keys in some map there.
Where no map comes in, the list is followed by the items that it has not, each once. -/
theorem combine_keeps (base : Entries Value) {fields : Entries Value}
    (hdistinct : Distinct (.map fields)) (list items : List Value) :
    (∀ names,
      (∀ b m, Value.under? (.map base) names = some (.map b) →
        Value.under? (.map fields) names = some (.map m) →
        ∃ r, Value.under? (.map (combine base fields)) names = some (.map r) ∧
          Entries.keys r = Entries.keys b ++ (Entries.keys m).filter (· ∉ Entries.keys b)) ∧
      (∀ b m, Value.under? (.map base) names = some (.list b) →
        Value.under? (.map fields) names = some (.list m) →
        Value.under? (.map (combine base fields)) names = some (.list (combineLists b m)))) ∧
    (∀ (i : Nat) held, list[i]? = some held → held.isMap = false →
      (combineLists list items)[i]? = some held) ∧
    (∀ (i : Nat) held, list[i]? = some (.map held) →
      ∃ held', (combineLists list items)[i]? = some (.map held') ∧
        Entries.keys held <+: Entries.keys held') ∧
    (∀ item ∈ items, item.isMap = false →
      item ∈ combineLists list items ∨ ∃ held ∈ combineLists list items, (item == held) = true) ∧
    (∀ m, .map m ∈ items → ∃ held, .map held ∈ combineLists list items ∧
      ∀ key ∈ Entries.keys m, key ∈ Entries.keys held) ∧
    ((∀ item ∈ items, item.isMap = false) →
      combineLists list items = list ++ (items.filter (!list.contains ·)).eraseDups) := by
  have hsome : ∀ names v, Value.under? (.map fields) names = some v →
      Value.under? (.map (combine base fields)) names =
        some (combineValue (Value.under? (.map base) names) v) := by
    intro names v hv
    have hunder := fieldwise_combine.under?_of_some hdistinct hv (some (.map base))
    rwa [combineValue, Option.bind_some] at hunder
  have hextends := extends_combineLists list items
  refine ⟨fun names => ⟨fun b m hb hm => ?_, fun b m hb hm => ?_⟩, fun i held => hextends.item,
    fun i held => hextends.map, fun item hmem hmap => ?_, fun m hmem => ?_,
    fun hmaps => combineLists_of_no_maps hmaps list⟩
  · refine ⟨combine b m, ?_, fieldwise_combine.keys_of_nodup b (hdistinct.of_under? hm).nodup_keys⟩
    rw [hsome names _ hm, hb, combineValue]
  · rw [hsome names _ hm, hb, combineValue]
  · obtain ⟨before, hkept⟩ := exists_extends_of_mem hmem list
    rcases mem_or_beq_of_combineItem hmap before with hitem | ⟨held, hheld, hheldMap, heq⟩
    · exact .inl (hkept.mem hitem hmap)
    · exact .inr ⟨held, hkept.mem hheld hheldMap, heq⟩
  · obtain ⟨before, hkept⟩ := exists_extends_of_mem hmem list
    obtain ⟨held, hheld, hkeys⟩ := exists_map_of_combineItem before m
    obtain ⟨held', hheld', hgrown⟩ := hkept.exists_map_mem hheld
    exact ⟨held', hheld', fun key hkey => hgrown.subset (hkeys key hkey)⟩

/-- A number, a map and a text. -/
def row : List Value := [.int 1, .map [("k", .int 1)], .string "x"]

/-- The text again, a map that shares a key with the map, and one that shares a key with that. -/
def additions : List Value :=
  [.string "x", .map [("k", .int 2), ("l", .int 3)], .map [("l", .int 4), ("m", .int 5)]]

/-- The maps grow and so do the lists, and a number that comes in twice comes in once. -/
theorem combine_keeps_arriving :
    Distinct (.map arriving) ∧
    (∃ r, Value.under? (.map (combine stored arriving)) ["a"] = some (.map r) ∧
      Entries.keys r = ["b", "c", "e"]) ∧
    Value.under? (.map (combine stored arriving)) ["a", "c"] =
      some (.list [.int 1, .int 2, .int 3]) ∧
    (combineLists row additions)[0]? = some (.int 1) ∧
    (∃ held, (combineLists row additions)[1]? = some (.map held) ∧ ["k"] <+: Entries.keys held) ∧
    (∃ held, .map held ∈ combineLists row additions ∧
      ∀ key ∈ ["l", "m"], key ∈ Entries.keys held) ∧
    combineLists row [.int 2, .int 1, .int 2] = row ++ [.int 2] := by
  obtain ⟨hunder, hitems, hmaps, -, hcoming, -⟩ := combine_keeps stored distinct_arriving row additions
  obtain ⟨-, -, -, -, -, hnew⟩ :=
    combine_keeps stored distinct_arriving row [.int 2, .int 1, .int 2]
  refine ⟨distinct_arriving, (hunder ["a"]).1 _ _ rfl rfl, (hunder ["a", "c"]).2 _ _ rfl rfl,
    hitems 0 _ rfl rfl, hmaps 1 _ rfl, hcoming [("l", .int 4), ("m", .int 5)] (by simp [additions]),
    hnew (by simp [Value.isMap])⟩

end DocumentModel.Merge

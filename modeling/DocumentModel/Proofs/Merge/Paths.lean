import DocumentModel.Document.Edit
import DocumentModel.Proofs.Merge.Overlay

/-! Merges of maps, followed along names.

Both ways to merge maps go through the fields that come in and give each key what comes of its
value and of what the key held, and both merge in turn where two maps meet (`Fieldwise`). So a
merge can be followed down along names. Where something comes in under the names, what comes of it
and of what was there stands there (`Fieldwise.under?_of_some`); where nothing comes in and
nothing is in the way, what was there stays (`Fieldwise.under?_of_none`). For maps of documents,
`overlay_under` says this case by case. -/
namespace DocumentModel.Value

/-- What a value holds under names. Each name is a key of a map, and nothing else than a map holds
something under a name. -/
def under? : Value → List String → Option Value
  | value, [] => some value
  | .map fields, name :: rest => (Entries.get? fields name).bind fun value => under? value rest
  | _, _ :: _ => none

variable {value : Value}

theorem under?_of_not_map (h : value.isMap = false) (name : String) (rest : List String) :
    value.under? (name :: rest) = none := by
  cases value with
  | map => cases h
  | _ => rfl

theorem under?_single (fields : Entries Value) (name : String) :
    under? (.map fields) [name] = fields.get? name := by
  rw [under?]
  cases fields.get? name <;> rfl

theorem under?_append (value : Value) (before after : List String) :
    value.under? (before ++ after) = (value.under? before).bind fun held => held.under? after := by
  induction before generalizing value with
  | nil => rfl
  | cons name rest ih =>
    cases hmap : value.isMap with
    | false => rw [List.cons_append, under?_of_not_map hmap, under?_of_not_map hmap, Option.bind_none]
    | true =>
      cases value with
      | map fields =>
        rw [List.cons_append, under?, under?, Option.bind_assoc]
        exact congrArg _ (funext fun held => ih held)
      | _ => cases hmap

theorem Distinct.of_get? {fields : Entries Value} (h : Distinct (.map fields)) {key : String}
    (hget : fields.get? key = some value) : value.Distinct := by
  obtain ⟨before, after, rfl, -⟩ := Entries.exists_append_of_get? hget
  exact (distinct_map_iff.1 h).2 (key, value) (List.mem_append_right before (List.mem_cons_self ..))

theorem Distinct.of_under? {names : List String} {held : Value} (h : value.Distinct)
    (hheld : value.under? names = some held) : held.Distinct := by
  induction names generalizing value with
  | nil =>
    cases hheld
    exact h
  | cons name rest ih =>
    cases value with
    | map fields =>
      obtain ⟨inner, hinner, hheld⟩ := Option.bind_eq_some_iff.1 hheld
      exact ih (h.of_get? hinner) hheld
    | _ => cases hheld

theorem Distinct.nodup_keys {fields : Entries Value} (h : Distinct (.map fields)) :
    fields.keys.Nodup := (distinct_map_iff.1 h).1

end DocumentModel.Value

namespace DocumentModel.Merge
open Value (Distinct under?_of_not_map under?_single under?_append)

/-! ### Merges that go field by field -/

/-- A way `fields` to merge maps, and `value` to merge what a key holds with what comes in for it.
A value that comes in for nothing, and a map that comes in for no map, stays as it is; a map that
comes in for a map is merged into it, and each of its fields comes in for what its key holds. -/
structure Fieldwise (value : Option Value → Value → Value)
    (fields : Entries Value → List (String × Value) → Entries Value) : Prop where
  new : ∀ incoming, value none incoming = incoming
  map_of_not_map : ∀ {held : Value}, held.isMap = false →
    ∀ incoming, value (some held) (.map incoming) = .map incoming
  map_of_map : ∀ base incoming, value (some (.map base)) (.map incoming) = .map (fields base incoming)
  eq_foldl : ∀ base incoming, fields base incoming = incoming.foldl (fun entries field =>
    Entries.insert entries field.1 (value (Entries.get? entries field.1) field.2)) base

theorem fieldwise_overlay : Fieldwise overlayValue overlay where
  new := overlayValue_none
  map_of_not_map := by
    intro held h incoming
    cases held with
    | map => cases h
    | _ => simp only [overlayValue]
  map_of_map _ _ := by simp only [overlayValue]
  eq_foldl := overlay_eq_foldl

variable {f : Option Value → Value → Value}
  {g : Entries Value → List (String × Value) → Entries Value} {incoming value v : Value}
  {existing : Option Value} {fields : Entries Value} {names : List String}

namespace Fieldwise

/-- The keys of the base stay in their places, and the new keys stand behind them. -/
theorem keys (h : Fieldwise f g) (base fields : Entries Value) :
    (g base fields).keys = base.keys ++ (fields.keys.filter (· ∉ base.keys)).eraseDups := by
  rw [h.eq_foldl]
  exact Entries.keys_foldl_insert (fun entries field => f (entries.get? field.1) field.2) base fields

theorem keys_of_nodup (h : Fieldwise f g) (base : Entries Value) (hnodup : fields.keys.Nodup) :
    (g base fields).keys = base.keys ++ fields.keys.filter (· ∉ base.keys) := by
  rw [h.keys, Entries.eraseDups_of_nodup (hnodup.filter _)]

/-- Merging makes no key stand twice. -/
theorem nodup_keys (h : Fieldwise f g) {base : Entries Value} (hbase : base.keys.Nodup)
    (fields : Entries Value) : (g base fields).keys.Nodup := by
  rw [h.keys, List.nodup_append]
  refine ⟨hbase, Entries.nodup_eraseDups _, fun key hold new hnew heq => ?_⟩
  rw [List.mem_eraseDups, List.mem_filter, ← heq] at hnew
  simp [hold] at hnew

/-- One name further down stands what comes of the value for it and of what stood there. -/
theorem under?_cons (h : Fieldwise f g) (existing : Option Value) (hnodup : fields.keys.Nodup)
    (name : String) (rest : List String) :
    (f existing (.map fields)).under? (name :: rest) =
      (fields.get? name).elim (existing.bind fun held => held.under? (name :: rest)) fun value =>
        (f (existing.bind fun held => held.under? [name]) value).under? rest := by
  -- A map that comes in for no map comes in for nothing, as far as names go.
  have hstored : Value.under? (.map fields) (name :: rest) =
      (fields.get? name).elim none fun value => (f none value).under? rest := by
    rw [Value.under?]
    cases fields.get? name with
    | none => rfl
    | some value => rw [Option.bind_some, Option.elim_some, h.new]
  cases existing with
  | none => rw [h.new, hstored]; rfl
  | some held =>
    cases hmap : held.isMap with
    | false =>
      rw [h.map_of_not_map hmap, hstored, Option.bind_some, Option.bind_some,
        under?_of_not_map hmap, under?_of_not_map hmap]
    | true =>
      cases held with
      | map base =>
        rw [h.map_of_map, h.eq_foldl, Value.under?, Entries.get?_foldl_insert f base hnodup]
        cases fields.get? name with
        | none => rfl
        | some value =>
          rw [Option.elim_some, Option.elim_some, Option.bind_some, Option.bind_some, under?_single]
      | _ => cases hmap

/-- Under names that the incoming value holds something under stands what comes of that and of what
was there. -/
theorem under?_of_some (h : Fieldwise f g) (hdistinct : value.Distinct)
    (hheld : value.under? names = some v) (existing : Option Value) :
    (f existing value).under? names = some (f (existing.bind fun held => held.under? names) v) := by
  induction names generalizing existing value with
  | nil =>
    cases hheld
    cases existing <;> rfl
  | cons name rest ih =>
    cases hmap : value.isMap with
    | false =>
      rw [under?_of_not_map hmap] at hheld
      cases hheld
    | true =>
      cases value with
      | map fields =>
        obtain ⟨inner, hinner, hheld⟩ := Option.bind_eq_some_iff.1 hheld
        rw [h.under?_cons existing hdistinct.nodup_keys, hinner, Option.elim_some,
          ih (hdistinct.of_get? hinner) hheld, Option.bind_assoc]
        simp only [← under?_append, List.singleton_append]
      | _ => cases hmap

/-- Under names that the incoming value holds nothing under, what was there stays, if nothing but
maps comes in on the way. -/
theorem under?_of_none (h : Fieldwise f g) (hdistinct : value.Distinct)
    (hnone : value.under? names = none)
    (hmaps : ∀ before after, names = before ++ after → after ≠ [] → ∀ held,
      value.under? before = some held → held.isMap = true) (existing : Option Value) :
    (f existing value).under? names = existing.bind fun held => held.under? names := by
  induction names generalizing existing value with
  | nil => cases hnone
  | cons name rest ih =>
    have hmap : value.isMap = true := hmaps [] _ rfl (by simp) value rfl
    cases value with
    | map fields =>
      rw [h.under?_cons existing hdistinct.nodup_keys]
      cases hinner : Entries.get? fields name with
      | none => rw [Option.elim_none]
      | some inner =>
        rw [Value.under?, hinner, Option.bind_some] at hnone
        have hrest : ∀ before after, rest = before ++ after → after ≠ [] → ∀ held,
            inner.under? before = some held → held.isMap = true := by
          intro before after heq hne held hheld
          refine hmaps (name :: before) after (by rw [heq, List.cons_append]) hne held ?_
          rw [Value.under?, hinner, Option.bind_some, hheld]
        rw [Option.elim_some, ih (hdistinct.of_get? hinner) hnone hrest, Option.bind_assoc]
        simp only [← under?_append, List.singleton_append]
    | _ => cases hmap

end Fieldwise

/-! ### Maps of documents -/

theorem overlayValue_of_not_map (h : value.isMap = false) (existing : Option Value) :
    overlayValue existing value = value := by
  cases value with
  | map => cases h
  | _ => simp only [overlayValue]

/-- A map that comes in for anything but a map stays as it is. -/
theorem overlayValue_map_of_no_map (h : ∀ base, existing ≠ some (.map base))
    (fields : Entries Value) : overlayValue existing (.map fields) = .map fields := by
  cases existing with
  | none => exact overlayValue_none _
  | some held =>
    refine fieldwise_overlay.map_of_not_map ?_ fields
    cases held with
    | map base => exact absurd rfl (h base)
    | _ => rfl

/-- A map comes in again without a change. -/
theorem overlay_overlay (base : Entries Value) (hdistinct : Distinct (.map fields)) :
    overlay (overlay base fields) fields = overlay base fields := by
  have hagain := overlayValue_overlayValue (some (.map base)) hdistinct
  simpa only [overlayValue, Value.map.injEq] using hagain

/-- A map that comes in for itself changes nothing. -/
theorem overlay_self (hdistinct : Distinct (.map fields)) : overlay fields fields = fields := by
  have hagain := overlayValue_overlayValue none hdistinct
  simpa only [overlayValue, Value.map.injEq] using hagain

/-- **Merging documents, path by path.** Where both sides hold a map, its keys in order are followed
by the keys that are new. What comes in and is no map stands in its place afterwards, with nothing
under it. A map that comes in is merged into the map in its place, or stands there as it came. What
is under no incoming value, and not in the way of one, stays. So a second merge of the same map
changes nothing, nor does a merge of a document into itself. -/
theorem overlay_under (base : Entries Value) {fields : Entries Value}
    (hdistinct : Distinct (.map fields)) :
    (∀ names b m, Value.under? (.map base) names = some (.map b) →
      Value.under? (.map fields) names = some (.map m) →
      ∃ r, Value.under? (.map (overlay base fields)) names = some (.map r) ∧
        Entries.keys r = Entries.keys b ++ (Entries.keys m).filter (· ∉ Entries.keys b)) ∧
    (∀ names,
      (∀ v, v.isMap = false → Value.under? (.map fields) names = some v →
        Value.under? (.map (overlay base fields)) names = some v) ∧
      (∀ before after v, names = before ++ after → after ≠ [] → v.isMap = false →
        Value.under? (.map fields) before = some v →
        Value.under? (.map (overlay base fields)) names = none) ∧
      (∀ m, Value.under? (.map fields) names = some (.map m) →
        (∀ b, Value.under? (.map base) names = some (.map b) →
          Value.under? (.map (overlay base fields)) names = some (.map (overlay b m))) ∧
        ((∀ b, Value.under? (.map base) names ≠ some (.map b)) →
          Value.under? (.map (overlay base fields)) names = some (.map m))) ∧
      (Value.under? (.map fields) names = none →
        (∀ before after, names = before ++ after → after ≠ [] → ∀ v,
          Value.under? (.map fields) before = some v → v.isMap = true) →
        Value.under? (.map (overlay base fields)) names = Value.under? (.map base) names)) ∧
    overlay (overlay base fields) fields = overlay base fields ∧
    Document.merge ⟨fields⟩ ⟨fields⟩ = ⟨fields⟩ := by
  have hsome : ∀ names v, Value.under? (.map fields) names = some v →
      Value.under? (.map (overlay base fields)) names =
        some (overlayValue (Value.under? (.map base) names) v) := by
    intro names v hv
    have hunder := fieldwise_overlay.under?_of_some hdistinct hv (some (.map base))
    rwa [overlayValue, Option.bind_some] at hunder
  refine ⟨fun names b m hb hm => ?_, fun names => ⟨fun v hv hheld => ?_,
    fun before after v hnames hafter hv hheld => ?_, fun m hm => ⟨fun b hb => ?_, fun hb => ?_⟩,
    fun hnone hmaps => ?_⟩, overlay_overlay base hdistinct, ?_⟩
  · refine ⟨overlay b m, ?_, fieldwise_overlay.keys_of_nodup b (hdistinct.of_under? hm).nodup_keys⟩
    rw [hsome names _ hm, hb, overlayValue]
  · rw [hsome names v hheld, overlayValue_of_not_map hv]
  · obtain ⟨name, rest, rfl⟩ := List.exists_cons_of_ne_nil hafter
    rw [hnames, under?_append, hsome before v hheld, overlayValue_of_not_map hv, Option.bind_some,
      under?_of_not_map hv]
  · rw [hsome names _ hm, hb, overlayValue]
  · rw [hsome names _ hm, overlayValue_map_of_no_map hb]
  · have hunder := fieldwise_overlay.under?_of_none hdistinct hnone hmaps (some (.map base))
    rwa [overlayValue, Option.bind_some] at hunder
  · exact congrArg Document.mk (overlay_self hdistinct)

/-- A map with a map, which holds a list, and with a number. -/
def stored : Entries Value :=
  [("a", .map [("b", .int 1), ("c", .list [.int 1, .int 2])]), ("d", .int 4)]

/-- A map with another list in the place of the list, and with a map in the place of the number. -/
def arriving : Entries Value :=
  [("a", .map [("c", .list [.int 3]), ("e", .int 5)]), ("d", .map [("x", .null)])]

theorem distinct_arriving : Distinct (.map arriving) := by
  simp [arriving, Value.distinct_map_iff, Value.distinct_list_iff, Value.distinct_of_scalar,
    Entries.keys, Value.isContainer, Value.isMap, Value.isList]

/-- The maps are merged, the list and the number give way, and the number beside the list stays. -/
theorem overlay_under_arriving :
    Distinct (.map arriving) ∧
    (∃ r, Value.under? (.map (overlay stored arriving)) ["a"] = some (.map r) ∧
      Entries.keys r = ["b", "c", "e"]) ∧
    Value.under? (.map (overlay stored arriving)) ["a", "c"] = some (.list [.int 3]) ∧
    Value.under? (.map (overlay stored arriving)) ["d"] = some (.map [("x", .null)]) ∧
    Value.under? (.map (overlay stored arriving)) ["a", "b"] = some (.int 1) ∧
    overlay (overlay stored arriving) arriving = overlay stored arriving := by
  obtain ⟨hkeys, hunder, hagain, -⟩ := overlay_under stored distinct_arriving
  have hb : Value.under? (.map stored) ["d"] = some (.int 4) := rfl
  refine ⟨distinct_arriving, hkeys ["a"] _ _ rfl rfl, (hunder ["a", "c"]).1 _ rfl rfl,
    ((hunder ["d"]).2.2.1 _ rfl).2 (by simp [hb]), (hunder ["a", "b"]).2.2.2 rfl ?_, hagain⟩
  intro before after hnames hafter v hv
  rcases before with _ | ⟨a, _ | ⟨b, rest⟩⟩
  · cases hv
    rfl
  · cases hnames
    cases hv
    rfl
  · simp only [List.cons_append, List.cons.injEq, List.nil_eq_append_iff] at hnames
    exact absurd hnames.2.2.2 hafter

end DocumentModel.Merge

import DocumentModel.Proofs.Document.Frame

/-! What a delete takes away.

A delete finds its way down as a read does, but it never fails on the way: where the read meets an
obstacle or finds nothing, it leaves everything as it is (`eraseFrom_of_absent`). Otherwise the
container in front of the last step loses the entry of this step (`Drops`), and the document has
the smaller container in the place of the container and is the same everywhere else (`Replaced`).
With the slot laws maps and lists are one case of this (`replaced_cons_iff`), so that what stands
on a path that parts from the way stays: `delete_removes`. -/
namespace DocumentModel.Document

variable {container container' target result inner v v' w : Value} {segment : Segment} {slot : Slot}
  {rest before steps : List Segment}

/-! ### Values that differ in one place -/

/-- Two values that are alike but for what the steps lead to, which is `v` in one of them and `v'`
in the other. -/
inductive Replaced (v v' : Value) : List Segment → Value → Value → Prop
  | here : Replaced v v' [] v v'
  | field {before after : List (String × Value)} {key : String} {inner inner' : Value}
      {rest : List Segment} :
    key ∉ Entries.keys before → Replaced v v' rest inner inner' →
      Replaced v v' (.name key :: rest) (.map (before ++ (key, inner) :: after))
        (.map (before ++ (key, inner') :: after))
  | item {before after : List Value} {segment : Segment} {position : UInt64} {inner inner' : Value}
      {rest : List Segment} :
    segment.position? = some position → before.length = position.toNat →
      Replaced v v' rest inner inner' →
        Replaced v v' (segment :: rest) (.list (before ++ inner :: after))
          (.list (before ++ inner' :: after))

/-- A container that loses the entry of a step, which holds `w`. -/
inductive Drops (w : Value) : Segment → Value → Value → Prop
  | field {before after : List (String × Value)} {key : String} :
    key ∉ Entries.keys before →
      Drops w (.name key) (.map (before ++ (key, w) :: after)) (.map (before ++ after))
  | item {before after : List Value} {segment : Segment} {position : UInt64} :
    segment.position? = some position → before.length = position.toNat →
      Drops w segment (.list (before ++ w :: after)) (.list (before ++ after))

/-- The items of a list around one of them. -/
theorem take_append_drop_of_getElem? {items : List Value} {i : Nat}
    (h : items[i]? = some inner) :
    items = items.take i ++ inner :: items.drop (i + 1) ∧ (items.take i).length = i := by
  obtain ⟨hlt, rfl⟩ := List.getElem?_eq_some_iff.1 h
  refine ⟨?_, List.length_take_of_le (Nat.le_of_lt hlt)⟩
  rw [← List.drop_eq_getElem_cons hlt, List.take_append_drop]

theorem replaced_nil_iff : Replaced v v' [] target result ↔ target = v ∧ result = v' := by
  refine ⟨fun h => ?_, ?_⟩
  · cases h
    exact ⟨rfl, rfl⟩
  · rintro ⟨rfl, rfl⟩
    exact .here

/-- A slot that holds something is a place in its container. -/
theorem replaced_put {inner' : Value} (hslot : slot? container segment = some slot)
    (hcontent : slot.content container = some inner) (hrest : Replaced v v' rest inner inner') :
    Replaced v v' (segment :: rest) container (slot.put inner' container) := by
  rcases slot?_cases hslot with ⟨fields, key, rfl, rfl, rfl⟩ | ⟨items, position, rfl, hposition, rfl⟩
  · obtain ⟨before, after, rfl, hbefore⟩ := Entries.exists_append_of_get? hcontent
    rw [Slot.put, Entries.insert_append_cons hbefore]
    exact .field hbefore hrest
  · obtain ⟨hitems, hlength⟩ := take_append_drop_of_getElem? hcontent
    obtain ⟨hlt, -⟩ := List.getElem?_eq_some_iff.1 hcontent
    rw [Slot.put, extend_of_lt hlt, List.set_eq_take_append_cons_drop, if_pos hlt]
    nth_rewrite 1 [hitems]
    exact .item hposition hlength hrest

/-- Two values differ behind a step if what stands in its slot differs there. -/
theorem replaced_cons_iff :
    Replaced v v' (segment :: rest) target result ↔
      ∃ slot inner inner', slot? target segment = some slot ∧ slot.content target = some inner ∧
        Replaced v v' rest inner inner' ∧ result = slot.put inner' target := by
  refine ⟨fun h => ?_, ?_⟩
  · cases h with
    | @field before after key inner inner' _ hbefore hrest =>
      refine ⟨.entry key, inner, inner', rfl, Entries.get?_append_cons hbefore inner after, hrest, ?_⟩
      rw [Slot.put, Entries.insert_append_cons hbefore]
    | @item before after _ position inner inner' _ hposition hlength hrest =>
      have hslot : slot? (.list (before ++ inner :: after)) segment = some (.item position) := by
        rw [slot?, hposition, Option.map_some]
      have hlt : position.toNat < (before ++ inner :: after).length := by
        rw [List.length_append, List.length_cons]
        omega
      refine ⟨.item position, inner, inner', hslot, ?_, hrest, ?_⟩
      · rw [Slot.content, ← hlength, List.getElem?_append_right (Nat.le_refl _), Nat.sub_self]
        rfl
      · rw [Slot.put, extend_of_lt hlt, ← hlength, List.set_append_right _ _ (Nat.le_refl _),
          Nat.sub_self]
        rfl
  · rintro ⟨slot, inner, inner', hslot, hcontent, hrest, rfl⟩
    exact replaced_put hslot hcontent hrest

/-- The steps lead to the place where the values differ. -/
theorem Replaced.descend_eq (h : Replaced v v' steps target result) :
    descend (some target) steps = .ok (some v) ∧ descend (some result) steps = .ok (some v') := by
  induction steps generalizing target result with
  | nil =>
    obtain ⟨rfl, rfl⟩ := replaced_nil_iff.1 h
    exact ⟨rfl, rfl⟩
  | cons segment rest ih =>
    obtain ⟨slot, inner, inner', hslot, hcontent, hrest, rfl⟩ := replaced_cons_iff.1 h
    rw [descend_of_slot? hslot, hcontent, descend_put hslot]
    exact ih hrest

/-- What stands on a path that parts from the steps stands there in both; and so does what stands
on a path that goes on with them and parts behind them, if it stands there in `v` and `v'`. -/
theorem Replaced.descend_of_diverge {last q : List Segment} {u : Value}
    (h : Replaced v v' steps target result)
    (hlast : ∀ {q : List Segment}, Diverge v last q → descend (some v) q = .ok (some u) →
      descend (some v') q = .ok (some u))
    (hdiverge : Diverge target (steps ++ last) q) (hq : descend (some target) q = .ok (some u)) :
    descend (some result) q = .ok (some u) := by
  induction steps generalizing target result q with
  | nil =>
    obtain ⟨rfl, rfl⟩ := replaced_nil_iff.1 h
    exact hlast hdiverge hq
  | cons segment rest ih =>
    obtain ⟨slot, inner, inner', hslot, hcontent, hrest, rfl⟩ := replaced_cons_iff.1 h
    cases hdiverge with
    | @here _ _ t _ other _ q hs ht hne =>
      cases hslot.symm.trans hs
      have hput : slot? (slot.put inner' target) t = some other := by rw [slot?_put, ht]
      rw [descend_of_slot? ht] at hq
      rw [descend_of_slot? hput]
      cases hother : other.content target with
      | none =>
        rw [hother, descend_none] at hq
        cases hq
      | some held => rwa [content_put_of_ne hne.symm hother, ← hother]
    | deeper hs ht hcontent' hinner =>
      cases hslot.symm.trans hs
      cases hcontent.symm.trans hcontent'
      rw [descend_of_slot? ht, hcontent] at hq
      rw [descend_put ht]
      exact ih hrest hinner hq

/-! ### Maps that lose an entry -/

/-- The other entries hold what they held. -/
theorem Drops.descend_of_diverge {fields : Entries Value} {q : List Segment} {u : Value}
    (h : Drops w segment (.map fields) result) (hdiverge : Diverge (.map fields) [segment] q)
    (hq : descend (some (.map fields)) q = .ok (some u)) :
    descend (some result) q = .ok (some u) := by
  cases h with
  | @field before after key hbefore =>
    cases hdiverge with
    | deeper _ _ _ hinner => cases hinner
    | @here _ _ t _ other _ q hs ht hne =>
      cases hs
      rcases slot?_cases ht with ⟨_, key', -, rfl, rfl⟩ | ⟨_, _, hlist, -, -⟩
      · have hkey : key ≠ key' := fun heq => hne (by rw [heq])
        rw [descend, child] at hq ⊢
        rwa [← Entries.erase_append_cons hbefore w after, Entries.get?_erase_of_ne _ hkey]
      · cases hlist

/-- There is no second entry of the key. -/
theorem Drops.child_eq_none {fields : Entries Value} (h : Drops w segment (.map fields) result)
    (hnodup : fields.keys.Nodup) : child result segment = .ok none := by
  cases h with
  | @field before after key hbefore =>
    rw [Entries.keys_append_cons] at hnodup
    have hafter : key ∉ Entries.keys after := (List.nodup_cons.1 (List.nodup_append.1 hnodup).2.1).1
    have hkey : key ∉ Entries.keys (before ++ after) := by
      rw [Entries.keys, List.map_append]
      exact List.not_mem_append hbefore hafter
    rw [child, Entries.get?_of_notMem hkey]

/-! ### Steps of a read -/

/-- Something is found behind a step if the slot of the step holds something in which it is
found. -/
theorem descend_cons_eq_some_iff :
    descend (some container) (segment :: rest) = .ok (some w) ↔
      ∃ slot inner, slot? container segment = some slot ∧ slot.content container = some inner ∧
        descend (some inner) rest = .ok (some w) := by
  refine ⟨fun h => ?_, ?_⟩
  · cases hslot : slot? container segment with
    | some slot =>
      rw [descend_of_slot? hslot] at h
      cases hcontent : slot.content container with
      | some inner =>
        rw [hcontent] at h
        exact ⟨slot, inner, rfl, hcontent, h⟩
      | none =>
        rw [hcontent, descend_none] at h
        cases h
    | none =>
      -- Without a slot the step is an obstacle, or leads on from null.
      cases container with
      | map fields =>
        cases segment with
        | name key => cases hslot
        | index position => cases h
      | list items =>
        have hposition : segment.position? = none := Option.map_eq_none_iff.1 hslot
        simp only [descend, child, hposition] at h
        cases h
      | null =>
        simp only [descend, child, descend_none] at h
        cases h
      | _ => cases h
  · rintro ⟨slot, inner, hslot, hcontent, hrest⟩
    rw [descend_of_slot? hslot, hcontent, hrest]

/-- What leads to a container is one itself. -/
theorem isContainer_of_descend (h : descend (some inner) steps = .ok (some container))
    (hcontainer : container.isContainer = true) : inner.isContainer = true := by
  cases steps with
  | nil =>
    cases h
    exact hcontainer
  | cons segment rest =>
    obtain ⟨slot, next, hslot, -, -⟩ := descend_cons_eq_some_iff.1 h
    exact isContainer_of_slot? hslot

theorem descend_append (found : Option Value) (steps after : List Segment) :
    descend found (steps ++ after) = (descend found steps).bind fun found => descend found after := by
  induction steps generalizing found with
  | nil => rfl
  | cons segment rest ih =>
    cases found with
    | none =>
      rw [descend_none, descend_none]
      exact (descend_none after).symm
    | some value =>
      rw [List.cons_append, descend, descend]
      cases child value segment with
      | ok found => exact ih found
      | error obstacle => rfl

/-- What a slot holds is a part of the container. -/
theorem contains_of_content (h : slot.content container = some inner) :
    container.Contains inner := by
  cases slot with
  | entry key =>
    cases container with
    | map fields => exact .field (Entries.mem_of_get? h) (.self inner)
    | _ => cases h
  | item position =>
    cases container with
    | list items => exact .item (List.mem_of_getElem? h) (.self inner)
    | _ => cases h

/-- What is found behind steps is a part of the value. -/
theorem contains_of_descend (h : descend (some target) steps = .ok (some inner)) :
    target.Contains inner := by
  induction steps generalizing target with
  | nil =>
    cases h
    exact .self _
  | cons segment rest ih =>
    obtain ⟨slot, next, -, hcontent, hrest⟩ := descend_cons_eq_some_iff.1 h
    exact (contains_of_content hcontent).trans (ih hrest)

/-! ### Steps of a delete -/

/-- What stands in a slot can be put there. -/
theorem put_of_content (h : slot.content container = some inner) :
    slot.put inner container = container := by
  cases slot with
  | entry key =>
    cases container with
    | map fields => rw [Slot.put, Entries.insert_of_get? h]
    | _ => rfl
  | item position =>
    cases container with
    | list items =>
      obtain ⟨hlt, rfl⟩ := List.getElem?_eq_some_iff.1 h
      rw [Slot.put, extend_of_lt hlt, List.set_getElem_self]
    | _ => rfl

/-- A step whose slot holds nothing, or that has no slot, changes nothing. -/
theorem eraseFrom_of_no_content
    (h : ∀ slot, slot? container segment = some slot → slot.content container = none)
    (rest : List Segment) : eraseFrom (segment :: rest) container = container := by
  cases container with
  | map fields =>
    cases segment with
    | index position => simp only [eraseFrom]
    | name key =>
      have hget : Entries.get? fields key = none := h (.entry key) rfl
      have hkey : key ∉ Entries.keys fields := by simp [← Entries.isSome_get?_iff, hget]
      cases rest with
      | nil => simp only [eraseFrom, Entries.erase_of_notMem hkey]
      | cons next rest => simp only [eraseFrom, hget]
  | list items =>
    cases hposition : segment.position? with
    | none => simp only [eraseFrom, hposition]
    | some position =>
      have hslot : slot? (.list items) segment = some (.item position) := by
        rw [slot?, hposition, Option.map_some]
      have hget : items[position.toNat]? = none := h _ hslot
      cases rest with
      | nil =>
        simp only [eraseFrom, hposition]
        rw [List.eraseIdx_of_length_le (List.getElem?_eq_none_iff.1 hget)]
      | cons next rest => simp only [eraseFrom, hposition, hget]
  | _ => rfl

/-- A step that is not the last goes on in its slot. -/
theorem eraseFrom_slot (hslot : slot? container segment = some slot)
    (hcontent : slot.content container = some inner) (hne : rest ≠ []) :
    eraseFrom (segment :: rest) container = slot.put (eraseFrom rest inner) container := by
  obtain ⟨next, rest, rfl⟩ := List.exists_cons_of_ne_nil hne
  rcases slot?_cases hslot with ⟨fields, key, rfl, rfl, rfl⟩ | ⟨items, position, rfl, hposition, rfl⟩
  · have hget : Entries.get? fields key = some inner := hcontent
    simp only [eraseFrom, hget, Slot.put]
  · have hget : items[position.toNat]? = some inner := hcontent
    obtain ⟨hlt, -⟩ := List.getElem?_eq_some_iff.1 hget
    simp only [eraseFrom, hposition, hget, Slot.put, extend_of_lt hlt]

/-- The last step takes the entry of its slot away. -/
theorem drops_eraseFrom (hslot : slot? container segment = some slot)
    (hcontent : slot.content container = some inner) :
    Drops inner segment container (eraseFrom [segment] container) := by
  rcases slot?_cases hslot with ⟨fields, key, rfl, rfl, rfl⟩ | ⟨items, position, rfl, hposition, rfl⟩
  · obtain ⟨before, after, rfl, hbefore⟩ := Entries.exists_append_of_get? hcontent
    simp only [eraseFrom, Entries.erase_append_cons hbefore]
    exact .field hbefore
  · obtain ⟨hitems, hlength⟩ := take_append_drop_of_getElem? hcontent
    simp only [eraseFrom, hposition, List.eraseIdx_eq_take_drop_succ]
    nth_rewrite 1 [hitems]
    exact .item hposition hlength

/-! ### All steps of a delete -/

/-- Where nothing is found, nothing is taken away. -/
theorem eraseFrom_of_absent (h : ∀ w, descend (some target) steps ≠ .ok (some w)) :
    eraseFrom steps target = target := by
  induction steps generalizing target with
  | nil => rfl
  | cons segment rest ih =>
    by_cases hcontent : ∃ slot inner, slot? target segment = some slot ∧
        slot.content target = some inner
    · obtain ⟨slot, inner, hslot, hcontent⟩ := hcontent
      have habsent : ∀ w, descend (some inner) rest ≠ .ok (some w) := fun w hw =>
        h w (descend_cons_eq_some_iff.2 ⟨slot, inner, hslot, hcontent, hw⟩)
      have hne : rest ≠ [] := by
        rintro rfl
        exact habsent inner rfl
      rw [eraseFrom_slot hslot hcontent hne, ih habsent, put_of_content hcontent]
    · refine eraseFrom_of_no_content (fun slot hslot => ?_) rest
      by_contra hsome
      obtain ⟨inner, hinner⟩ := Option.ne_none_iff_exists'.1 hsome
      exact hcontent ⟨slot, inner, hslot, hinner⟩

/-- What is found is taken out of its container, and nothing else changes. -/
theorem replaced_eraseFrom (h : descend (some target) (before ++ [segment]) = .ok (some w)) :
    ∃ container container', Drops w segment container container' ∧
      Replaced container container' before target (eraseFrom (before ++ [segment]) target) := by
  induction before generalizing target with
  | nil =>
    obtain ⟨slot, inner, hslot, hcontent, hinner⟩ := descend_cons_eq_some_iff.1 h
    cases hinner
    exact ⟨target, _, drops_eraseFrom hslot hcontent, .here⟩
  | cons first before ih =>
    obtain ⟨slot, inner, hslot, hcontent, hinner⟩ := descend_cons_eq_some_iff.1 h
    obtain ⟨container, container', hdrops, hreplaced⟩ := ih hinner
    refine ⟨container, container', hdrops, ?_⟩
    rw [List.cons_append, eraseFrom_slot hslot hcontent (by simp)]
    exact replaced_put hslot hcontent hreplaced

/-- Steps from a map leave a map: as it was, or without the entry of a key, or with less in it. -/
theorem eraseFrom_map (steps : List Segment) (fields : Entries Value) :
    ∃ fields', eraseFrom steps (.map fields) = .map fields' ∧
      (fields' = fields ∨ (∃ key, fields' = Entries.erase fields key) ∨
        ∃ key child rest, Entries.get? fields key = some child ∧
          fields' = Entries.insert fields key (eraseFrom rest child)) := by
  cases steps with
  | nil => exact ⟨fields, rfl, .inl rfl⟩
  | cons segment rest =>
    cases segment with
    | index position => exact ⟨fields, by simp only [eraseFrom], .inl rfl⟩
    | name key =>
      cases rest with
      | nil => exact ⟨_, by simp only [eraseFrom], .inr (.inl ⟨key, rfl⟩)⟩
      | cons next rest =>
        simp only [eraseFrom]
        cases hget : Entries.get? fields key with
        | none => exact ⟨fields, rfl, .inl rfl⟩
        | some child => exact ⟨_, rfl, .inr (.inr ⟨key, child, next :: rest, hget, rfl⟩)⟩

/-- Steps from a list leave a list. -/
theorem eraseFrom_list (steps : List Segment) (items : List Value) :
    ∃ items', eraseFrom steps (.list items) = .list items' := by
  cases steps with
  | nil => exact ⟨items, rfl⟩
  | cons segment rest =>
    cases hposition : segment.position? with
    | none => exact ⟨items, by simp only [eraseFrom, hposition]⟩
    | some position =>
      cases rest with
      | nil => exact ⟨items.eraseIdx position.toNat, by simp only [eraseFrom, hposition]⟩
      | cons next rest =>
        simp only [eraseFrom, hposition]
        cases items[position.toNat]? <;> exact ⟨_, rfl⟩

/-! ### Deletes -/

variable {d : Document} {path : String} {p : FieldPath}

theorem map_root_deleteAt (d : Document) (p : FieldPath) :
    .map (d.deleteAt p).root = eraseFrom p.segments (.map d.root) := by
  obtain ⟨fields, hfields, -⟩ := eraseFrom_map p.segments d.root
  rw [deleteAt, hfields]
  rfl

/-- A delete leaves the document whose root is what the steps leave of the root. -/
theorem deleteAt_eq_iff {d' : Document} :
    d.deleteAt p = d' ↔ eraseFrom p.segments (.map d.root) = .map d'.root := by
  rw [← map_root_deleteAt, Value.map.injEq]
  exact ⟨congrArg Document.root, congrArg Document.mk⟩

theorem deleteAt_of_absent (h : ∀ w, d.lookup p ≠ .ok (some w)) : d.deleteAt p = d := by
  rw [deleteAt_eq_iff]
  cases hempty : p.isEmpty with
  | true => rw [FieldPath.isEmpty_iff.1 hempty, eraseFrom]
  | false => exact eraseFrom_of_absent fun w hw => h w (lookup_eq_some_iff.2 ⟨hempty, hw⟩)

/-- A delete takes what is found at its path out of the container in front of the last step. -/
theorem replaced_deleteAt (h : d.lookup p = .ok (some w)) :
    ∃ before segment container container', p.segments = before ++ [segment] ∧
      Drops w segment container container' ∧
      Replaced container container' before (.map d.root) (.map (d.deleteAt p).root) := by
  obtain ⟨hempty, hfound⟩ := lookup_eq_some_iff.1 h
  rcases List.eq_nil_or_concat p.segments with hnil | ⟨before, segment, hsegments⟩
  · rw [FieldPath.isEmpty_iff.2 hnil] at hempty
    cases hempty
  · rw [List.concat_eq_append] at hsegments
    rw [hsegments] at hfound
    obtain ⟨container, container', hdrops, hreplaced⟩ := replaced_eraseFrom hfound
    rw [map_root_deleteAt, hsegments]
    exact ⟨before, segment, container, container', rfl, hdrops, hreplaced⟩

theorem delete_of_parse (hparse : FieldPath.parse path = .ok p) :
    d.delete path = ⟨d.deleteAt p, none⟩ := by
  rw [delete, hparse]

theorem exists_error_delete_iff :
    (∃ e, (d.delete path).error = some e) ↔ ∃ e, FieldPath.parse path = .error e := by
  rw [delete]
  cases FieldPath.parse path with
  | error e => simp
  | ok p => simp

theorem document_delete_of_error (h : ∃ e, (d.delete path).error = some e) :
    (d.delete path).document = d := by
  obtain ⟨e, hparse⟩ := exists_error_delete_iff.1 h
  rw [delete, hparse]

/-- A delete from a map leaves its path leading to nothing. -/
theorem contains_of_drops {d d' : Document} (hparse : FieldPath.parse path = .ok p)
    (hsegments : p.segments = before ++ [segment]) (hdrops : Drops w segment container container')
    (hreplaced : Replaced container container' before (.map d.root) (.map d'.root))
    (hdistinct : Value.Distinct (.map d.root)) (hmap : container.isMap = true) :
    d'.contains path = .ok false := by
  cases container with
  | map fields =>
    obtain ⟨hfields, hresult⟩ := hreplaced.descend_eq
    have hfound : descend (some (.map d'.root)) p.segments = .ok none := by
      rw [hsegments, descend_append, hresult]
      show descend (some container') [segment] = .ok none
      rw [descend, hdrops.child_eq_none (hdistinct fields (contains_of_descend hfields))]
      rfl
    have hempty : p.isEmpty = false := by
      rw [← Bool.not_eq_true, FieldPath.isEmpty_iff, hsegments]
      simp
    rw [contains_of_parse hparse, hempty, lookup, hempty, hfound]
    rfl
  | _ => cases hmap

/-- Whether a document stores nothing at a path that could be taken away: the path addresses the
whole document, it cannot be followed, or nothing is found at its end. -/
def HoldsNothing (d : Document) (path : String) (p : FieldPath) : Prop :=
  p.isEmpty = true ∨ (∃ e, d.get path = .error e) ∨ d.lookup p = .ok none

theorem holdsNothing_iff (hparse : FieldPath.parse path = .ok p) :
    d.HoldsNothing path p ↔ ∀ w, d.lookup p ≠ .ok (some w) := by
  rw [HoldsNothing, get_of_parse hparse]
  cases hempty : p.isEmpty with
  | true => simp [lookup, hempty]
  | false =>
    cases d.lookup p with
    | error e => simp [Except.map]
    | ok found => cases found <;> simp [Except.map]

/-- **A delete takes away what its path addresses, and nothing else.** It fails exactly if the
path cannot be read, and then changes nothing, as where nothing is stored at the path. Otherwise
the container in front of the last step loses the entry that the step selects: a map the entry of
a key, whereupon the path leads to nothing, or a list an item, behind which the others move up.
Outside of this container the document is what it was. So what is found on a path that parts from
the way to the container stays, and what stands in other entries of a map. -/
theorem delete_removes (hdistinct : Value.Distinct (.map d.root)) (path : String) :
    ((∃ e, (d.delete path).error = some e) ↔ ∃ e, FieldPath.parse path = .error e) ∧
    ((∃ e, (d.delete path).error = some e) → (d.delete path).document = d) ∧
    ∀ p, FieldPath.parse path = .ok p →
      (d.HoldsNothing path p → (d.delete path).document = d) ∧
      (¬ d.HoldsNothing path p →
        ∃ before segment container container' w,
          p.segments = before ++ [segment] ∧ d.lookup p = .ok (some w) ∧
          Drops w segment container container' ∧
          Replaced container container' before (.map d.root) (.map (d.delete path).document.root) ∧
          (container.isMap = true → (d.delete path).document.contains path = .ok false) ∧
          ∀ q u, d.lookup q = .ok (some u) →
            (Diverge (.map d.root) before q.segments ∨
              container.isMap = true ∧ Diverge (.map d.root) p.segments q.segments) →
            (d.delete path).document.lookup q = .ok (some u)) := by
  refine ⟨exists_error_delete_iff, document_delete_of_error, fun p hparse => ?_⟩
  rw [delete_of_parse hparse, holdsNothing_iff hparse]
  refine ⟨deleteAt_of_absent, fun hheld => ?_⟩
  obtain ⟨w, hw⟩ : ∃ w, d.lookup p = .ok (some w) := by simpa using hheld
  obtain ⟨before, segment, container, container', hsegments, hdrops, hreplaced⟩ :=
    replaced_deleteAt hw
  refine ⟨before, segment, container, container', w, hsegments, hw, hdrops, hreplaced,
    contains_of_drops hparse hsegments hdrops hreplaced hdistinct, fun q u hq hdiverge => ?_⟩
  obtain ⟨hempty, hfound⟩ := lookup_eq_some_iff.1 hq
  refine lookup_eq_some_iff.2 ⟨hempty, ?_⟩
  rcases hdiverge with hdiverge | ⟨hmap, hdiverge⟩
  · rw [← List.append_nil before] at hdiverge
    exact hreplaced.descend_of_diverge (fun hnil _ => by cases hnil) hdiverge hfound
  · rw [hsegments] at hdiverge
    cases container with
    | map fields => exact hreplaced.descend_of_diverge hdrops.descend_of_diverge hdiverge hfound
    | _ => cases hmap

/-- The first entry of a map in a list is deleted, with a zero too many in the position. The second
entry stands where it stood, and the path leads to nothing. -/
theorem delete_removes_row :
    Value.Distinct (.map (row [.map [("x", .int 1), ("y", .int 2)], .int 3]).root) ∧
    ¬ HoldsNothing (row [.map [("x", .int 1), ("y", .int 2)], .int 3]) "l.00.x"
        ⟨[.name "l", .name "00", .name "x"]⟩ ∧
    lookup (delete (row [.map [("x", .int 1), ("y", .int 2)], .int 3]) "l.00.x").document
      ⟨[.name "l", .name "0", .name "y"]⟩ = .ok (some (.int 2)) ∧
    contains (delete (row [.map [("x", .int 1), ("y", .int 2)], .int 3]) "l.00.x").document
      "l.00.x" = .ok false := by
  have hparse : FieldPath.parse "l.00.x" = .ok ⟨[.name "l", .name "00", .name "x"]⟩ := by cbv
  have hdistinct : Value.Distinct
      (.map (row [.map [("x", .int 1), ("y", .int 2)], .int 3]).root) := by
    simp [row, Value.distinct_map_iff, Value.distinct_list_iff, Value.distinct_of_scalar,
      Entries.keys, Value.isContainer, Value.isMap, Value.isList]
  have hheld : ¬ HoldsNothing (row [.map [("x", .int 1), ("y", .int 2)], .int 3]) "l.00.x"
      ⟨[.name "l", .name "00", .name "x"]⟩ :=
    fun hnothing => (holdsNothing_iff hparse).1 hnothing (.int 1) rfl
  obtain ⟨before, segment, container, _, _, hsegments, -, -, hreplaced, hgone, hframe⟩ :=
    ((delete_removes hdistinct "l.00.x").2.2 _ hparse).2 hheld
  have hbefore : [Segment.name "l", .name "00"] = before :=
    List.append_inj_left' (show [Segment.name "l", .name "00"] ++ [.name "x"] = _ from hsegments) rfl
  have hfound := hreplaced.descend_eq.1
  rw [← hbefore] at hfound
  have hmap : container.isMap = true := by
    cases hfound
    rfl
  have hslot : slot? (.map (row [.map [("x", .int 1), ("y", .int 2)], .int 3]).root) (.name "l") =
      some (.entry "l") := rfl
  have hitem : ∀ name, name = "00" ∨ name = "0" →
      slot? (.list [.map [("x", .int 1), ("y", .int 2)], .int 3]) (.name name) =
        some (.item 0) := by
    rintro _ (rfl | rfl) <;> rfl
  have hdiverge : Diverge (.map (row [.map [("x", .int 1), ("y", .int 2)], .int 3]).root)
      [.name "l", .name "00", .name "x"] [.name "l", .name "0", .name "y"] :=
    .deeper hslot hslot rfl
      (.deeper (hitem _ (.inl rfl)) (hitem _ (.inr rfl)) rfl (.here rfl rfl (by decide)))
  exact ⟨hdistinct, hheld, hframe ⟨[.name "l", .name "0", .name "y"]⟩ _ rfl (.inr ⟨hmap, hdiverge⟩),
    hgone hmap⟩

end DocumentModel.Document

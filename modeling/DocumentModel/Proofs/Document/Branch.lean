import DocumentModel.Proofs.Document.Frame

/-! Sets as merges.

A value under a chain of names is a branch: a map with one key that holds a map with one key, and
so on down to the value. Setting a value at a path of names makes the document into what comes of
overlaying the branch on the root, as long as the path goes through no list: `set_eq_set_branch`.
The two walk down differently. A set makes each slot on the way ready before it goes on, and an
overlay goes on as far as there are maps and puts the rest of the branch there at once. What they
share is that a slot without a map is as good as one with the empty map
(`fill_branch_empty`). -/
namespace DocumentModel.Document
open Merge (overlay overlayValue_none)

variable {target value : Value} {name : String} {names before after : List String}
  {fields : Entries Value}

/-! ### Branches -/

/-- A value under a chain of names, each the single key of its map. -/
def branch : List String → Value → Value
  | [], value => value
  | name :: rest, value => .map [(name, branch rest value)]

theorem fill_null (value : Value) : fill .null value = value := by cases value <;> rfl

/-- A map takes a branch in by the field of its first name. -/
theorem fill_branch_map (fields : Entries Value) (name : String) (names : List String)
    (value : Value) :
    fill (.map fields) (branch (name :: names) value) =
      .map (fields.insert name (fill ((fields.get? name).getD .null) (branch names value))) := by
  rw [branch, fill, overlay, overlay]
  cases fields.get? name with
  | none => rw [overlayValue_none, Option.getD_none, fill_null]
  | some held => rw [Option.getD_some, fill_eq_overlayValue]

/-- Whatever is no map gives way to a branch with a name. -/
theorem fill_branch_of_not_map (h : target.isMap = false) (name : String) (names : List String)
    (value : Value) :
    fill target (branch (name :: names) value) = branch (name :: names) value := by
  cases target with
  | map => cases h
  | _ => rfl

/-- So does the empty map. -/
theorem fill_branch_empty (name : String) (names : List String) (value : Value) :
    fill (.map []) (branch (name :: names) value) = branch (name :: names) value := by
  rw [fill_branch_map, Entries.get?, Option.getD_none, fill_null, Entries.insert, branch]

/-! ### Ways without lists -/

/-- No list stands on the way along names; one may stand at its end. -/
def Unlisted (target : Value) (names : List String) : Prop :=
  ∀ before after, names = before ++ after → after ≠ [] →
    (held target (before.map .name)).isList = false

/-- A name goes on from its field. -/
theorem held_name (fields : Entries Value) (name : String) (rest : List Segment) :
    held (.map fields) (.name name :: rest) = held ((fields.get? name).getD .null) rest := by
  have hslot : slot? (.map fields) (.name name) = some (.entry name) := rfl
  exact held_cons hslot rest

theorem Unlisted.start (h : Unlisted target (name :: names)) : target.isList = false :=
  h [] (name :: names) rfl (by simp)

theorem Unlisted.tail (h : Unlisted (.map fields) (name :: names)) :
    Unlisted ((fields.get? name).getD .null) names := by
  intro before after hnames hafter
  have hheld := h (name :: before) after (by rw [hnames, List.cons_append]) hafter
  rwa [List.map_cons, held_name] at hheld

theorem Unlisted.left (h : Unlisted target (before ++ after)) : Unlisted target before := by
  intro first rest hbefore hrest
  refine h first (rest ++ after) (by rw [hbefore, List.append_assoc]) ?_
  exact List.append_ne_nil_of_left_ne_nil hrest after

theorem unlisted_null (names : List String) : Unlisted .null names := by
  intro before after _ _
  rw [held_null]
  rfl

theorem unlisted_empty (names : List String) : Unlisted (.map []) names := by
  intro before after _ _
  cases before with
  | nil => rfl
  | cons name before =>
    rw [List.map_cons, held_name, Entries.get?, Option.getD_none, held_null]
    rfl

/-- On a way without lists, what is no map holds nothing. -/
theorem Unlisted.isContainer_eq_false (h : Unlisted target (name :: names))
    (hmap : target.isMap = false) : target.isContainer = false := by
  rw [Value.isContainer, hmap, h.start]
  rfl

/-! ### Storing along names -/

/-- Storing a value along names, from a map and through no list, overlays the branch. -/
theorem changed_branch (value : Value) (h : Unlisted (.map fields) names) :
    Changed (fill · value) (names.map .name) (.map fields)
      (fill (.map fields) (branch names value)) := by
  induction names generalizing fields with
  | nil => exact .here _
  | cons name names ih =>
    have hslot : slot? (.map fields) (.name name) = some (.entry name) := rfl
    have htail := h.tail
    rw [fill_branch_map]
    cases names with
    | nil => exact changed_field_iff.2 rfl
    | cons next names =>
      generalize hcontent : (fields.get? name).getD .null = content at htail ⊢
      cases hmap : content.isMap with
      | true =>
        -- A map under the name is the one that the path goes on in.
        cases content with
        | map inner =>
          refine .step hslot trivial ?_ (ih htail)
          show prepare false ((fields.get? name).getD .null) _ = _
          rw [hcontent, prepare_container _ rfl]
        | _ => cases hmap
      | false =>
        -- Anything else gives way to an empty map.
        rw [fill_branch_of_not_map hmap, ← fill_branch_empty]
        refine .step hslot trivial ?_ (ih (unlisted_empty _))
        show prepare false ((fields.get? name).getD .null) _ = _
        rw [hcontent]
        exact prepare_entry_scalar (htail.isContainer_eq_false hmap) (.name next) _

/-- At each name on the way stands what comes of the rest of the branch and what stood there. -/
theorem descend_branch (h : Unlisted target before) (after : List String) (value : Value) :
    descend (some (fill target (branch (before ++ after) value))) (before.map .name) =
      .ok (some (fill (held target (before.map .name)) (branch after value))) := by
  induction before generalizing target with
  | nil => rfl
  | cons name before ih =>
    rw [List.cons_append, List.map_cons]
    cases hmap : target.isMap with
    | true =>
      cases target with
      | map fields =>
        rw [fill_branch_map, descend, child, Entries.get?_insert, if_pos rfl, held_name]
        exact ih h.tail
      | _ => cases hmap
    | false =>
      have hunder := ih (unlisted_null before)
      rw [fill_null, held_null] at hunder
      rw [fill_branch_of_not_map hmap, branch, descend, child, Entries.get?, if_pos rfl,
        held_scalar (h.isContainer_eq_false hmap)]
      exact hunder

/-! ### Sets -/

variable {d : Document} {path : String}

theorem oversized?_names (names : List String) : oversized? ⟨names.map .name⟩ = none := by
  simp [oversized?]

theorem isEmpty_names (hne : names ≠ []) : FieldPath.isEmpty ⟨names.map .name⟩ = false := by
  cases names with
  | nil => exact absurd rfl hne
  | cons => rfl

theorem isIdentity_names (h : names ≠ [FieldPath.identityKey]) :
    FieldPath.isIdentity ⟨names.map .name⟩ = false := by
  rw [Bool.eq_false_iff, ne_eq, FieldPath.isIdentity_iff]
  intro hidentity
  obtain ⟨name, rfl, hname⟩ := List.map_eq_singleton_iff.1 hidentity
  cases hname
  exact h rfl

/-- What paths of names find tells whether a list stands on the way. -/
theorem unlisted_of_lookup (h : ∀ before after, names = before ++ after → before ≠ [] →
      after ≠ [] → ∀ items, d.lookup ⟨before.map .name⟩ ≠ .ok (some (.list items))) :
    Unlisted (.map d.root) names := by
  intro before after hnames hafter
  by_cases hbefore : before = []
  · rw [hbefore]
    rfl
  · have hlookup := h before after hnames hbefore hafter
    simp only [ne_eq, lookup_eq_some_iff, isEmpty_names hbefore, true_and] at hlookup
    rw [held]
    split
    · next found hfound =>
      cases found with
      | list items => exact absurd hfound (hlookup items)
      | _ => rfl
    · rfl

/-- The root takes any branch in but one that would replace the identity. -/
theorem admits_branch (hne : names ≠ []) (h : names ≠ [FieldPath.identityKey]) (value : Value) :
    Admits ⟨[]⟩ (branch names value) := by
  rw [Admits, if_neg (by decide), if_pos (FieldPath.isEmpty_iff.2 rfl)]
  cases names with
  | nil => exact absurd rfl hne
  | cons name rest =>
    refine ⟨_, rfl, fun identity hget => ?_⟩
    rw [Entries.get?, Entries.get?] at hget
    split at hget
    · next hname =>
      cases hget
      cases rest with
      | nil => exact absurd (by rw [hname]) h
      | cons => rfl
    · cases hget

/-- **Setting along names is merging a branch.** Where no list stands on the way, a set at names
succeeds and leaves the document that comes of setting the branch at the root. Each name on the
way then holds the rest of the branch, merged into the map that stood there or in the place of
anything else. -/
theorem set_eq_set_branch (hparse : FieldPath.parse path = .ok ⟨names.map .name⟩)
    (hne : names ≠ []) (hidentity : names ≠ [FieldPath.identityKey])
    (hlists : ∀ before after, names = before ++ after → before ≠ [] → after ≠ [] →
      ∀ items, d.lookup ⟨before.map .name⟩ ≠ .ok (some (.list items))) (value : Value) :
    ∃ d', d.set path value = ⟨d', none⟩ ∧ d.set "" (branch names value) = ⟨d', none⟩ ∧
      ∀ before after, names = before ++ after → before ≠ [] →
        d'.lookup ⟨before.map .name⟩ = .ok (some
          (merged (d.lookup ⟨before.map .name⟩) (branch after value))) := by
  have hroot : FieldPath.parse "" = .ok ⟨[]⟩ := by cbv
  have hunlisted := unlisted_of_lookup hlists
  obtain ⟨fields, hfields⟩ : ∃ fields, fill (.map d.root) (branch names value) = .map fields := by
    cases names with
    | nil => exact absurd rfl hne
    | cons => exact ⟨_, fill_branch_map ..⟩
  have hadmits : Admits ⟨names.map .name⟩ value := by
    rw [Admits, isIdentity_names hidentity, isEmpty_names hne]
    exact oversized?_names names
  refine ⟨⟨fields⟩, (set_eq_iff hparse).2 ⟨hadmits, ?_⟩,
    (set_eq_iff hroot).2 ⟨admits_branch hne hidentity value, ?_⟩, ?_⟩
  · rw [settle, isIdentity_names hidentity, if_neg Bool.false_ne_true, ← hfields]
    exact changed_branch value hunlisted
  · exact changed_nil_iff.2 hfields.symm
  · intro before after hnames hbefore
    rw [lookup_eq_some_iff, merged_lookup (isEmpty_names hbefore), ← hfields, hnames]
    rw [hnames] at hunlisted
    exact ⟨isEmpty_names hbefore, descend_branch hunlisted.left after value⟩

/-- A document with a number, a null and a map on two levels. -/
def nested (x : Value) : Document := ⟨[("a", .map [("x", x), ("y", .null)]), ("b", .null)]⟩

/-- A map takes the branch in, and the number under it gives way. -/
theorem set_eq_set_branch_nested :
    (nested (.int 1)).set "a.x.z" (.map [("k", .null)]) =
      ⟨nested (.map [("z", .map [("k", .null)])]), none⟩ ∧
    (nested (.int 1)).set "" (branch ["a", "x", "z"] (.map [("k", .null)])) =
      ⟨nested (.map [("z", .map [("k", .null)])]), none⟩ := by
  have hparse : FieldPath.parse "a.x.z" = .ok ⟨["a", "x", "z"].map .name⟩ := by cbv
  have hlists : ∀ before after, ["a", "x", "z"] = before ++ after → before ≠ [] → after ≠ [] →
      ∀ items, (nested (.int 1)).lookup ⟨before.map .name⟩ ≠ .ok (some (.list items)) := by
    intro before after hnames hbefore hafter items hlookup
    rcases before with _ | ⟨a, _ | ⟨x, _ | ⟨z, rest⟩⟩⟩
    · exact hbefore rfl
    · cases hnames
      cases hlookup
    · cases hnames
      cases hlookup
    · simp only [List.cons_append, List.cons.injEq, List.nil_eq_append_iff] at hnames
      exact hafter hnames.2.2.2.2
  have hset : (nested (.int 1)).set "a.x.z" (.map [("k", .null)]) =
      ⟨nested (.map [("z", .map [("k", .null)])]), none⟩ := by
    rw [set, hparse]
    rfl
  obtain ⟨d', hpath, hroot, -⟩ :=
    set_eq_set_branch hparse (by simp) (by simp) hlists (.map [("k", .null)])
  rw [hset] at hpath
  cases hpath
  exact ⟨hset, hroot⟩

end DocumentModel.Document

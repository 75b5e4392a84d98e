import DocumentModel.Proofs.Document.Reached

/-! The identity, set at its own path and with the root.

The identity is a field of the root, so it can be set at its own path, or as the one field of a map
that is set as the root. Either set checks the value first and refuses an empty identity. A valid one
then comes to stand under the key as it is if it was set at the path; set with the root, it is merged
into what stands there, as any other field is (`set_of_valid_identity`). The documents are the same
unless a map comes to a map of which it does not tell everything: that map is lost in the first case
and kept in the second. `set_identity_concurs_iff` says just when the sets come to the same. -/
namespace DocumentModel.Document
open Merge (overlay overlayValue)

variable {value : Value}

/-! ### Checks of the identity -/

theorem kind_of_requireIdentity_error {e : Error} (h : requireIdentity value = .error e) :
    e.kind = .emptyIdentity := by
  rw [requireIdentity.eq_def] at h
  split at h <;> cases h <;> rfl

theorem exists_requireIdentity_error_iff :
    (∃ e, requireIdentity value = .error e) ↔ value = .string "" ∨ value = .binary [] := by
  rw [requireIdentity.eq_def]
  split <;> simp_all

/-! ### Both sets -/

theorem set_identity_eq (d : Document) (value : Value) :
    d.set "_id" value = d.setIdentity value := by
  have hparse : FieldPath.parse "_id" = .ok ⟨[.name "_id"]⟩ := by cbv
  rw [set, hparse]
  rfl

theorem set_root_eq (d : Document) (value : Value) : d.set "" value = d.setRoot ⟨[]⟩ value := by
  have hparse : FieldPath.parse "" = .ok ⟨[]⟩ := by cbv
  rw [set, hparse]
  rfl

/-- Either set refuses an empty identity, for the same reason. -/
theorem set_of_empty_identity {e : Error} (h : requireIdentity value = .error e) (d : Document) :
    d.set "_id" value = ⟨d, some e⟩ ∧ d.set "" (.map [("_id", value)]) = ⟨d, some e⟩ := by
  have hfield : Entries.get? [("_id", value)] FieldPath.identityKey = some value := rfl
  rw [set_identity_eq, set_root_eq]
  simp only [setIdentity, setRoot, hfield, h, and_self]

/-- A valid identity replaces the one that is there, or is merged into it. -/
theorem set_of_valid_identity (h : requireIdentity value = .ok ()) (d : Document) :
    d.set "_id" value = ⟨⟨d.root.insert "_id" value⟩, none⟩ ∧
      d.set "" (.map [("_id", value)]) =
        ⟨⟨d.root.insert "_id" (overlayValue d.identity? value)⟩, none⟩ := by
  have hfield : Entries.get? [("_id", value)] FieldPath.identityKey = some value := rfl
  have hmerged : overlay d.root [("_id", value)] =
      d.root.insert "_id" (overlayValue d.identity? value) := by
    rw [overlay, overlay]
    rfl
  constructor
  · rw [set_identity_eq, setIdentity, h]
    rfl
  · rw [set_root_eq, ← hmerged]
    simp only [setRoot, hfield, h]

/-- What comes in stands there as it is, unless it is a map and merging it into the map that was
there makes more of it. -/
theorem overlayValue_eq_self_iff {existing : Option Value} :
    overlayValue existing value = value ↔
      ∀ base fields, existing = some (.map base) → value = .map fields →
        overlay base fields = fields := by
  cases value with
  | map fields =>
    cases existing with
    | none => simp [overlayValue]
    | some held => cases held <;> simp [overlayValue]
  | _ => simp [overlayValue]

/-! ### When they come to the same -/

/-- Two ways to give a document an identity come to the same: both refuse it as empty and leave the
document as it was, or both succeed and leave one document. -/
def Concur (d : Document) (edit other : Edit) : Prop :=
  (∃ e e', edit = ⟨d, some e⟩ ∧ other = ⟨d, some e'⟩ ∧
    e.kind = .emptyIdentity ∧ e'.kind = .emptyIdentity) ∨
  ∃ d', edit = ⟨d', none⟩ ∧ other = ⟨d', none⟩

/-- **Setting the identity replaces it, and setting it with the root merges it.** Both sets refuse an
empty identity and then change nothing. Any other value the first puts in the place of what is there,
and the second merges into it. So they come to the same exactly if no map is stored, or no map
arrives, or merging the map that arrives into the one that is stored gives just what arrives. -/
theorem set_identity_concurs_iff (d : Document) (value : Value) :
    (value = .string "" ∨ value = .binary [] → ∃ e, e.kind = .emptyIdentity ∧
      d.set "_id" value = ⟨d, some e⟩ ∧ d.set "" (.map [("_id", value)]) = ⟨d, some e⟩) ∧
    (value ≠ .string "" → value ≠ .binary [] →
      d.set "_id" value = ⟨⟨d.root.insert "_id" value⟩, none⟩ ∧
      d.set "" (.map [("_id", value)]) =
        ⟨⟨d.root.insert "_id" (overlayValue d.identity? value)⟩, none⟩) ∧
    (Concur d (d.set "_id" value) (d.set "" (.map [("_id", value)])) ↔
      ∀ base fields, d.identity? = some (.map base) → value = .map fields →
        overlay base fields = fields) := by
  refine ⟨fun hempty => ?_, fun hstring hbinary =>
    set_of_valid_identity (requireIdentity_eq_ok_iff.2 ⟨hstring, hbinary⟩) d, ?_⟩
  · obtain ⟨e, he⟩ := exists_requireIdentity_error_iff.2 hempty
    exact ⟨e, kind_of_requireIdentity_error he, set_of_empty_identity he d⟩
  rw [← overlayValue_eq_self_iff]
  cases hrequire : requireIdentity value with
  | error e =>
    obtain ⟨hpath, hroot⟩ := set_of_empty_identity hrequire d
    have hkind := kind_of_requireIdentity_error hrequire
    rw [hpath, hroot]
    refine iff_of_true (.inl ⟨e, e, rfl, rfl, hkind, hkind⟩) (overlayValue_eq_self_iff.2 ?_)
    intro base fields _ hmap
    rw [hmap] at hrequire
    cases hrequire
  | ok =>
    obtain ⟨hpath, hroot⟩ := set_of_valid_identity hrequire d
    rw [hpath, hroot]
    constructor
    · intro hconcur
      rcases hconcur with ⟨e, -, hfails, -⟩ | ⟨d', hd', hsame⟩
      · cases congrArg Edit.error hfails
      · have hidentity := congrArg (fun edit : Edit => edit.document.identity?)
          (hsame.trans hd'.symm)
        simpa [identity?, FieldPath.identityKey, Entries.get?_insert] using hidentity
    · intro hself
      rw [hself]
      exact .inr ⟨_, rfl, rfl⟩

/-- An identity that is a map loses its field when another map is set in its place, and keeps it when
that map is set with the root. -/
theorem not_concur_nestedIdentity :
    set ⟨[("_id", .map [("u", .int 1)])]⟩ "_id" (.map [("v", .int 2)]) =
      ⟨⟨[("_id", .map [("v", .int 2)])]⟩, none⟩ ∧
    set ⟨[("_id", .map [("u", .int 1)])]⟩ "" (.map [("_id", .map [("v", .int 2)])]) =
      ⟨⟨[("_id", .map [("u", .int 1), ("v", .int 2)])]⟩, none⟩ ∧
    ((⟨[("_id", .map [("v", .int 2)])]⟩ : Document) ==
      ⟨[("_id", .map [("u", .int 1), ("v", .int 2)])]⟩) = false ∧
    ¬ Concur ⟨[("_id", .map [("u", .int 1)])]⟩
      (set ⟨[("_id", .map [("u", .int 1)])]⟩ "_id" (.map [("v", .int 2)]))
      (set ⟨[("_id", .map [("u", .int 1)])]⟩ "" (.map [("_id", .map [("v", .int 2)])])) := by
  have hpath : set ⟨[("_id", .map [("u", .int 1)])]⟩ "_id" (.map [("v", .int 2)]) =
      ⟨⟨[("_id", .map [("v", .int 2)])]⟩, none⟩ := by
    rw [set_identity_eq]
    rfl
  have hroot : set ⟨[("_id", .map [("u", .int 1)])]⟩ "" (.map [("_id", .map [("v", .int 2)])]) =
      ⟨⟨[("_id", .map [("u", .int 1), ("v", .int 2)])]⟩, none⟩ := by
    rw [set_root_eq]
    rfl
  refine ⟨hpath, hroot, rfl, ?_⟩
  rw [hpath, hroot]
  intro hconcur
  rcases hconcur with ⟨e, -, hfails, -⟩ | ⟨d', hd', hsame⟩
  · cases congrArg Edit.error hfails
  · simpa using hd'.trans hsame.symm

end DocumentModel.Document

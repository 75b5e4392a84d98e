import DocumentModel.Proofs.Document.Atomicity
import DocumentModel.Proofs.Document.Removal

/-! The documents that edits lead to.

`Reached` is closed under every edit, those that fail included, and under merges of documents that
are reached themselves. What holds of all such documents is shown edit by edit. A set either
changes the root along its path or leaves it as it is (`document_set_cases`), a delete takes an
entry of the root away or something out of it (`root_deleteAt_cases`), and a merge goes key by key.

So the identity can be watched at all the places where it comes about. What is put under its key is
checked, was there before, or is a container, and containers are never empty identities: whatever
is done to a document, `Reached.identity_ne_empty`. -/
namespace DocumentModel.Document
open Merge (overlay overlayValue)

/-- The documents that come of edits, where the values that are set are such as allowed. An edit
that fails counts too, with what it leaves. -/
inductive Reached (allowed : Value → Prop) : Document → Prop
  | empty : Reached allowed empty
  | set {d : Document} {value : Value} (path : String) :
    Reached allowed d → allowed value → Reached allowed (d.set path value).document
  | setIdentityString {d : Document} (identity : String) :
    Reached allowed d → Reached allowed (d.setIdentityString identity).document
  | setIdentityBinary {d : Document} (identity : List UInt8) :
    Reached allowed d → Reached allowed (d.setIdentityBinary identity).document
  | delete {d : Document} (path : String) :
    Reached allowed d → Reached allowed (d.delete path).document
  | clear {d : Document} : Reached allowed d → Reached allowed d.clear
  | merge {d other : Document} :
    Reached allowed d → Reached allowed other → Reached allowed (d.merge other)

variable {d other : Document} {p : FieldPath} {path : String} {value : Value}

/-! ### What an edit can leave -/

/-- An edit that changes nothing when it fails changes nothing or succeeds. -/
theorem edit_cases {edit : Edit} (h : ∀ {e}, edit.error = some e → edit.document = d) :
    edit.document = d ∨ edit = ⟨edit.document, none⟩ := by
  obtain ⟨document, error⟩ := edit
  cases error with
  | none => exact .inr rfl
  | some e => exact .inl (h rfl)

theorem setAt_cases (d : Document) (p : FieldPath) (value : Value) :
    (d.setAt p value).document = d ∨
      d.setAt p value = ⟨(d.setAt p value).document, none⟩ := by
  rw [setAt]
  split
  · exact edit_cases setIdentity_atomic
  split
  · exact edit_cases setRoot_atomic
  cases hbounds : oversized? p with
  | some position => exact .inl rfl
  | none => exact edit_cases (storeAt_atomic (withinBounds_of_oversized? hbounds))

theorem set_cases (d : Document) (path : String) (value : Value) :
    (d.set path value).document = d ∨
      d.set path value = ⟨(d.set path value).document, none⟩ := by
  rw [set]
  cases FieldPath.parse path with
  | error e => exact .inl rfl
  | ok p => exact setAt_cases d p value

/-- A set leaves the root as it was, or changed along the path. -/
theorem document_set_cases (d : Document) (path : String) (value : Value) :
    (d.set path value).document = d ∨
      ∃ p, Admits p value ∧
        Changed (settle p value) p.segments (.map d.root) (.map (d.set path value).document.root) := by
  rcases set_cases d path value with hsame | hdone
  · exact .inl hsame
  · cases hparse : FieldPath.parse path with
    | error e =>
      rw [set, hparse] at hdone
      cases hdone
    | ok p => exact .inr ⟨p, (set_eq_iff hparse).1 hdone⟩

/-- A delete leaves the root as it was, or without the entry of a key, or with less in it. -/
theorem root_deleteAt_cases (d : Document) (p : FieldPath) :
    (d.deleteAt p).root = d.root ∨
      (∃ key, (d.deleteAt p).root = Entries.erase d.root key) ∨
        ∃ key child rest, Entries.get? d.root key = some child ∧
          (d.deleteAt p).root = Entries.insert d.root key (eraseFrom rest child) := by
  obtain ⟨fields, hfields, hcases⟩ := eraseFrom_map p.segments d.root
  rw [← map_root_deleteAt, Value.map.injEq] at hfields
  rwa [hfields]

/-- A change that takes a step from a map gives the key of the step what comes of the change of
what it held. -/
theorem Changed.exists_insert {f : Value → Value} {segment : Segment} {rest : List Segment}
    {fields fields' : Entries Value} (h : Changed f (segment :: rest) (.map fields) (.map fields')) :
    ∃ key ready inner, segment = .name key ∧
      prepare false ((Entries.get? fields key).getD .null) rest = .ok ready ∧
      Changed f rest ready inner ∧ fields' = Entries.insert fields key inner := by
  generalize hresult : Value.map fields' = result at h
  cases h with
  | @step _ _ _ slot ready inner hslot _ hready hrest =>
    rcases slot?_cases hslot with ⟨_, key, htarget, rfl, rfl⟩ | ⟨_, _, hlist, -, -⟩
    · exact ⟨key, ready, inner, rfl, hready, hrest, Value.map.inj hresult⟩
    · cases hlist

/-! ### Valid identities -/

theorem requireIdentity_eq_ok_iff :
    requireIdentity value = .ok () ↔ value ≠ .string "" ∧ value ≠ .binary [] := by
  rw [requireIdentity.eq_def]
  split <;> simp_all

theorem requireIdentity_of_isContainer (h : value.isContainer = true) :
    requireIdentity value = .ok () := by
  cases value with
  | list | map => rfl
  | _ => cases h

/-- A valid identity stays valid when something in it is deleted. -/
theorem requireIdentity_eraseFrom (rest : List Segment) (h : requireIdentity value = .ok ()) :
    requireIdentity (eraseFrom rest value) = .ok () := by
  cases value with
  | map fields =>
    obtain ⟨fields', hfields', -⟩ := eraseFrom_map rest fields
    rw [hfields']
    rfl
  | list items =>
    obtain ⟨items', hitems'⟩ := eraseFrom_list rest items
    rw [hitems']
    rfl
  | _ => cases rest <;> exact h

/-- A valid identity stays valid when it is merged into what is there. -/
theorem requireIdentity_overlayValue (existing : Option Value)
    (h : requireIdentity value = .ok ()) :
    requireIdentity (overlayValue existing value) = .ok () := by
  cases value with
  | map fields =>
    simp only [overlayValue]
    split <;> rfl
  | _ => simpa only [overlayValue] using h

/-- A document whose keys are different and whose identity, if there is one, is valid. -/
structure Sound (d : Document) : Prop where
  nodup : d.root.keys.Nodup
  identity : ∀ value, d.identity? = some value → requireIdentity value = .ok ()

namespace Sound

theorem empty : Sound empty := ⟨List.nodup_nil, fun _ h => by cases h⟩

/-- Any key but that of the identity can be given any value. -/
theorem insert (h : d.Sound) {key : String}
    (hvalue : key = FieldPath.identityKey → requireIdentity value = .ok ()) :
    Sound ⟨Entries.insert d.root key value⟩ := by
  refine ⟨Entries.nodup_keys_insert h.nodup key value, fun identity hidentity => ?_⟩
  rw [identity?, Entries.get?_insert] at hidentity
  split at hidentity
  · cases hidentity
    exact hvalue ‹_›
  · exact h.identity identity hidentity

theorem erase (h : d.Sound) (key : String) : Sound ⟨Entries.erase d.root key⟩ := by
  refine ⟨Entries.nodup_keys_erase h.nodup key, fun identity hidentity => ?_⟩
  rw [identity?] at hidentity
  by_cases hkey : key = FieldPath.identityKey
  · rw [hkey, Entries.get?_erase_self h.nodup] at hidentity
    cases hidentity
  · rw [Entries.get?_erase_of_ne _ hkey] at hidentity
    exact h.identity identity hidentity

theorem overlay (h : d.Sound) {fields : Entries Value} (hfields : Sound ⟨fields⟩) :
    Sound ⟨Merge.overlay d.root fields⟩ := by
  refine ⟨Merge.nodup_keys_overlay h.nodup fields, fun identity hidentity => ?_⟩
  rw [identity?, Merge.get?_overlay d.root hfields.nodup] at hidentity
  cases hget : fields.get? FieldPath.identityKey with
  | none =>
    rw [hget] at hidentity
    exact h.identity identity hidentity
  | some incoming =>
    rw [hget] at hidentity
    cases hidentity
    exact requireIdentity_overlayValue _ (hfields.identity incoming hget)

/-! ### Edits -/

theorem setIdentity (h : d.Sound) (identity : Value) : (d.setIdentity identity).document.Sound := by
  rw [Document.setIdentity]
  cases hrequire : requireIdentity identity with
  | ok => exact h.insert fun _ => hrequire
  | error e => exact h

/-- A change along a path gives the key of the identity a value that was checked, if the path is
that of the identity, or makes it hold a container. -/
theorem changed {d' : Document} (h : d.Sound) (hdistinct : value.Distinct) (hadmits : Admits p value)
    (hchanged : Changed (settle p value) p.segments (.map d.root) (.map d'.root)) : d'.Sound := by
  cases hsegments : p.segments with
  | nil =>
    have hidentity : p.isIdentity = false := by simp [FieldPath.isIdentity, hsegments]
    have hempty : p.isEmpty = true := FieldPath.isEmpty_iff.2 hsegments
    rw [Admits, if_neg (by simp [hidentity]), if_pos hempty] at hadmits
    obtain ⟨fields, rfl, hfields⟩ := hadmits
    rw [hsegments, settle, if_neg (by simp [hidentity]), changed_nil_iff] at hchanged
    have hd' : d' = ⟨Merge.overlay d.root fields⟩ := congrArg Document.mk (Value.map.inj hchanged)
    rw [hd']
    exact h.overlay ⟨hdistinct fields (.self _), hfields⟩
  | cons segment rest =>
    rw [hsegments] at hchanged
    obtain ⟨key, ready, inner, rfl, -, hrest, hroot⟩ := hchanged.exists_insert
    have hd' : d' = ⟨Entries.insert d.root key inner⟩ := congrArg Document.mk hroot
    rw [hd']
    refine h.insert fun hkey => ?_
    cases rest with
    | nil =>
      -- The path is that of the identity itself, however it was spelled.
      have hidentity : p.isIdentity = true := by rw [FieldPath.isIdentity_iff, hsegments, hkey]
      rw [Admits, if_pos hidentity] at hadmits
      rw [settle, if_pos hidentity, changed_nil_iff] at hrest
      rwa [hrest]
    | cons =>
      -- The path goes on, so that a container stands under the key now.
      exact requireIdentity_of_isContainer (hrest.isContainer (List.cons_ne_nil _ _))

theorem set (h : d.Sound) (path : String) (hdistinct : value.Distinct) :
    (d.set path value).document.Sound := by
  rcases document_set_cases d path value with hsame | ⟨p, hadmits, hchanged⟩
  · rwa [hsame]
  · exact h.changed hdistinct hadmits hchanged

theorem deleteAt (h : d.Sound) (p : FieldPath) : (d.deleteAt p).Sound := by
  have hd : d.deleteAt p = ⟨(d.deleteAt p).root⟩ := rfl
  rw [hd]
  rcases root_deleteAt_cases d p with hroot | ⟨key, hroot⟩ | ⟨key, child, rest, hget, hroot⟩
  · rwa [hroot]
  · rw [hroot]
    exact h.erase key
  · rw [hroot]
    refine h.insert fun hkey => requireIdentity_eraseFrom rest (h.identity child ?_)
    rw [identity?, ← hkey, hget]

theorem delete (h : d.Sound) (path : String) : (d.delete path).document.Sound := by
  rw [Document.delete]
  cases FieldPath.parse path with
  | error e => exact h
  | ok p => exact h.deleteAt p

/-- Every document that is reached is sound, whatever is set. -/
theorem of_reached (h : Reached Value.Distinct d) : d.Sound := by
  induction h with
  | empty => exact empty
  | set path _ hdistinct ih => exact ih.set path hdistinct
  | setIdentityString _ _ ih | setIdentityBinary _ _ ih => exact ih.setIdentity _
  | delete path _ ih => exact ih.delete path
  | clear => exact empty
  | merge _ _ ih ih' => exact ih.overlay ih'

end Sound

/-- **The identity of a document is never empty.** No edits, and no merges with documents that come
of edits themselves, lead to a document with an empty string or an empty byte sequence for its
identity, whatever the paths are, whatever is set there, and whichever edits fail. -/
theorem Reached.identity_ne_empty (h : Reached Value.Distinct d) :
    d.identity? ≠ some (.string "") ∧ d.identity? ≠ some (.binary []) := by
  have hidentity := (Sound.of_reached h).identity
  exact ⟨fun hstring => (requireIdentity_eq_ok_iff.1 (hidentity _ hstring)).1 rfl,
    fun hbinary => (requireIdentity_eq_ok_iff.1 (hidentity _ hbinary)).2 rfl⟩

/-- A document whose identity is set, and then tried to be made empty under another spelling, by a
merge and as a field of a new root. -/
def respelled : Document :=
  ((((empty.set "'_id'" (.string "k")).document.set " _id " (.string "")).document.merge
    (empty.setIdentityBinary []).document).set "" (.map [("_id", .binary [])])).document

/-- The identity is what it was set to. -/
theorem identity_ne_empty_respelled :
    Reached Value.Distinct respelled ∧ respelled.identity? = some (.string "k") ∧
      respelled.identity? ≠ some (.string "") ∧ respelled.identity? ≠ some (.binary []) := by
  have hquoted : FieldPath.parse "'_id'" = .ok ⟨[.name "_id"]⟩ := by cbv
  have hspaced : FieldPath.parse " _id " = .ok ⟨[.name "_id"]⟩ := by cbv
  have hempty : FieldPath.parse "" = .ok ⟨[]⟩ := by cbv
  have hdistinct : Value.Distinct (.map [("_id", .binary [])]) := by
    simp [Value.distinct_map_iff, Value.distinct_of_scalar, Entries.keys, Value.isContainer,
      Value.isMap, Value.isList]
  have hscalar : ∀ text, Value.Distinct (.string text) := fun _ => Value.distinct_of_scalar rfl
  have hreached : Reached Value.Distinct respelled :=
    (Reached.empty.set "'_id'" (hscalar "k")).set " _id " (hscalar "")
      |>.merge (.setIdentityBinary [] .empty) |>.set "" hdistinct
  refine ⟨hreached, ?_, hreached.identity_ne_empty⟩
  rw [respelled, set, set, set, hquoted, hspaced, hempty]
  rfl

end DocumentModel.Document

import DocumentModel.Proofs.Document.Reached

/-! How long the lists of a document get.

Only a set makes lists longer, and it does so by putting a value into a slot that the list is
extended for, which goes no further than the greatest position (`listsWithin_put`). A merge takes
lists over as they are, and a delete makes one of them shorter. So a bound beyond the greatest
position, if it holds for the lists of all values that are set, holds for the lists of all
documents that are reached, at any depth (`Reached.listsWithin`). `Reached.length_le_of_contains`
is the least case: no path asks for more, whether it gives its positions as indices or as names of
digits. -/
namespace DocumentModel

/-! ### Values with bounded lists -/

namespace Value

/-- No list in a value has more items than the bound, at any depth. -/
def ListsWithin (bound : Nat) (v : Value) : Prop :=
  ∀ items, v.Contains (.list items) → items.length ≤ bound

variable {bound : Nat} {v u : Value}

/-- What is asked of a value is asked of each of its parts. -/
theorem listsWithin_iff :
    v.ListsWithin bound ↔
      ∀ u, v.Contains u → ∀ items, u = .list items → items.length ≤ bound := by
  constructor
  · rintro h _ hu items rfl
    exact h items hu
  · intro h items hitems
    exact h _ hitems items rfl

theorem listsWithin_of_scalar (h : v.isContainer = false) : v.ListsWithin bound := by
  rw [listsWithin_iff, forall_contains_scalar_iff h]
  rintro items rfl
  cases h

theorem listsWithin_list_iff {items : List Value} :
    ListsWithin bound (.list items) ↔
      items.length ≤ bound ∧ ∀ item ∈ items, item.ListsWithin bound := by
  simp only [listsWithin_iff, forall_contains_list_iff, Value.list.injEq, forall_eq']

theorem listsWithin_map_iff {fields : List (String × Value)} :
    ListsWithin bound (.map fields) ↔ ∀ field ∈ fields, field.2.ListsWithin bound := by
  simp [listsWithin_iff, forall_contains_map_iff]

theorem listsWithin_empty_map : ListsWithin bound (.map []) := by simp [listsWithin_map_iff]

theorem ListsWithin.of_contains (h : v.ListsWithin bound) (hu : v.Contains u) :
    u.ListsWithin bound := fun items hitems => h items (hu.trans hitems)

/-- A key of a map can be given any value within the bound. -/
theorem ListsWithin.insert {fields : Entries Value} (h : ListsWithin bound (.map fields))
    (key : String) (hv : v.ListsWithin bound) :
    ListsWithin bound (.map (Entries.insert fields key v)) := by
  refine listsWithin_map_iff.2 fun field hmem => ?_
  rcases Entries.eq_or_mem_of_mem_insert hmem with rfl | hmem
  · exact hv
  · exact listsWithin_map_iff.1 h field hmem

end Value

namespace Document
open Value (ListsWithin listsWithin_of_scalar listsWithin_list_iff listsWithin_map_iff
  listsWithin_empty_map)
open Merge (overlay overlayValue)

variable {bound : Nat} {value container target result : Value} {slot : Slot}

/-! ### Merges -/

/-- The fields of a map come in one after the other. -/
theorem listsWithin_overlay_of {base fields : Entries Value} (hbase : ListsWithin bound (.map base))
    (hfields : ∀ field ∈ fields, ∀ existing : Option Value,
      (∀ held ∈ existing, held.ListsWithin bound) →
        (overlayValue existing field.2).ListsWithin bound) :
    ListsWithin bound (.map (overlay base fields)) := by
  induction fields generalizing base with
  | nil => rwa [overlay]
  | cons field rest ih =>
    obtain ⟨hfield, hrest⟩ := List.forall_mem_cons.1 hfields
    have hheld : ∀ held ∈ base.get? field.1, held.ListsWithin bound :=
      fun held hget => listsWithin_map_iff.1 hbase _ (Entries.mem_of_get? hget)
    rw [overlay]
    exact ih (hbase.insert field.1 (hfield _ hheld)) hrest

/-- A list that comes in takes the place of another, so that lists stay as they are. -/
theorem listsWithin_overlayValue (hvalue : value.ListsWithin bound) {existing : Option Value}
    (hexisting : ∀ held ∈ existing, held.ListsWithin bound) :
    (overlayValue existing value).ListsWithin bound := by
  induction value using Value.induct generalizing existing with
  | scalar v hscalar =>
    cases v with
    | list | map => cases hscalar
    | _ => simpa only [overlayValue] using hvalue
  | list items => simpa only [overlayValue] using hvalue
  | map fields ih =>
    have hfields := listsWithin_map_iff.1 hvalue
    simp only [overlayValue]
    -- A map goes into a map field by field, and takes the place of anything else.
    split
    · exact listsWithin_overlay_of (hexisting _ rfl)
        fun field hmem _ hheld => ih field hmem (hfields field hmem) hheld
    · exact hvalue

theorem listsWithin_overlay {base fields : Entries Value} (hbase : ListsWithin bound (.map base))
    (hfields : ListsWithin bound (.map fields)) :
    ListsWithin bound (.map (overlay base fields)) :=
  listsWithin_overlay_of hbase fun field hmem _ hheld =>
    listsWithin_overlayValue (listsWithin_map_iff.1 hfields field hmem) hheld

/-! ### Sets -/

theorem listsWithin_fill (htarget : target.ListsWithin bound) (hvalue : value.ListsWithin bound) :
    (fill target value).ListsWithin bound := by
  rw [fill_eq_overlayValue]
  refine listsWithin_overlayValue hvalue fun held hheld => ?_
  cases hheld
  exact htarget

/-- What stands in a slot, or the null that is taken for it. -/
theorem listsWithin_content (h : container.ListsWithin bound) (slot : Slot) :
    ((slot.content container).getD .null).ListsWithin bound := by
  cases hcontent : slot.content container with
  | none => exact listsWithin_of_scalar rfl
  | some inner => exact h.of_contains (contains_of_content hcontent)

/-- A slot is made ready without a list that has items. -/
theorem listsWithin_ready {inList : Bool} {held ready : Value} {rest : List Segment}
    (hready : prepare inList held rest = .ok ready) (hheld : held.ListsWithin bound) :
    ready.ListsWithin bound := by
  rcases ready_cases hready with ⟨rfl, -⟩ | ⟨next, _, -, -, rfl⟩
  · exact hheld
  · cases next with
    | name => exact listsWithin_empty_map
    | index => simp [emptyFor, listsWithin_list_iff]

/-- A list that is extended for a slot has the greatest position at most. -/
theorem listsWithin_put (hbound : maxPosition < bound) (hreach : slot.InReach)
    (hcontainer : container.ListsWithin bound) (hvalue : value.ListsWithin bound) :
    (slot.put value container).ListsWithin bound := by
  cases slot with
  | entry key =>
    cases container with
    | map fields => exact hcontainer.insert key hvalue
    | _ => exact hcontainer
  | item position =>
    cases container with
    | list items =>
      obtain ⟨hlength, hitems⟩ := listsWithin_list_iff.1 hcontainer
      have hposition : position.toNat ≤ maxPosition := hreach
      rw [Slot.put, listsWithin_list_iff, List.length_set, length_extend]
      refine ⟨by omega, fun item hmem => ?_⟩
      -- An item was there before, or is a null in front of the slot, or was put there.
      rcases List.mem_or_eq_of_mem_set hmem with hextended | rfl
      · rcases List.mem_append.1 hextended with hitem | hnull
        · exact hitems item hitem
        · rw [List.eq_of_mem_replicate hnull]
          exact listsWithin_of_scalar rfl
      · exact hvalue
    | _ => exact hcontainer

/-- A change keeps lists within the bound if what it does at its end does. -/
theorem Changed.listsWithin {f : Value → Value} {segments : List Segment}
    (hbound : maxPosition < bound) (hf : ∀ v : Value, v.ListsWithin bound → (f v).ListsWithin bound)
    (h : Changed f segments target result) (htarget : target.ListsWithin bound) :
    result.ListsWithin bound := by
  induction h with
  | here => exact hf _ htarget
  | @step _ _ _ slot _ _ _ hreach hready _ ih =>
    have hheld := listsWithin_content htarget slot
    exact listsWithin_put hbound hreach htarget (ih (listsWithin_ready hready hheld))

variable {d : Document}

theorem listsWithin_set (hbound : maxPosition < bound) (hroot : ListsWithin bound (.map d.root))
    (hvalue : value.ListsWithin bound) (path : String) :
    ListsWithin bound (.map (d.set path value).document.root) := by
  rcases document_set_cases d path value with hsame | ⟨p, -, hchanged⟩
  · rwa [hsame]
  · refine hchanged.listsWithin hbound (fun held hheld => ?_) hroot
    rw [settle]
    split
    · exact hvalue
    · exact listsWithin_fill hheld hvalue

/-- An identity is put under its key if it is valid. -/
theorem listsWithin_setIdentity (hroot : ListsWithin bound (.map d.root))
    (hvalue : value.ListsWithin bound) :
    ListsWithin bound (.map (d.setIdentity value).document.root) := by
  rw [setIdentity]
  cases requireIdentity value with
  | ok => exact hroot.insert _ hvalue
  | error => exact hroot

/-! ### Deletes -/

/-- A container that loses an entry has no longer lists than before. -/
theorem Drops.listsWithin {w container' : Value} {segment : Segment}
    (h : Drops w segment container container') (hcontainer : container.ListsWithin bound) :
    container'.ListsWithin bound := by
  cases h with
  | field =>
    rw [listsWithin_map_iff, List.forall_mem_append, List.forall_mem_cons] at hcontainer
    rw [listsWithin_map_iff, List.forall_mem_append]
    exact ⟨hcontainer.1, hcontainer.2.2⟩
  | item =>
    rw [listsWithin_list_iff, List.forall_mem_append, List.forall_mem_cons, List.length_append,
      List.length_cons] at hcontainer
    rw [listsWithin_list_iff, List.forall_mem_append, List.length_append]
    exact ⟨by omega, hcontainer.2.1, hcontainer.2.2.2⟩

/-- What takes the place of a part changes no list around it in length. -/
theorem Replaced.listsWithin {v v' : Value} {steps : List Segment}
    (h : Replaced v v' steps target result) (hv' : v'.ListsWithin bound)
    (htarget : target.ListsWithin bound) : result.ListsWithin bound := by
  induction h with
  | here => exact hv'
  | field _ _ ih =>
    rw [listsWithin_map_iff, List.forall_mem_append, List.forall_mem_cons] at htarget ⊢
    exact ⟨htarget.1, ih htarget.2.1, htarget.2.2⟩
  | item _ _ _ ih =>
    rw [listsWithin_list_iff, List.forall_mem_append, List.forall_mem_cons, List.length_append,
      List.length_cons] at htarget ⊢
    exact ⟨htarget.1, htarget.2.1, ih htarget.2.2.1, htarget.2.2.2⟩

theorem listsWithin_deleteAt (hroot : ListsWithin bound (.map d.root)) (p : FieldPath) :
    ListsWithin bound (.map (d.deleteAt p).root) := by
  by_cases hfound : ∃ w, d.lookup p = .ok (some w)
  · obtain ⟨w, hw⟩ := hfound
    obtain ⟨before, segment, container, container', -, hdrops, hreplaced⟩ := replaced_deleteAt hw
    have hcontainer := hroot.of_contains (contains_of_descend hreplaced.descend_eq.1)
    exact hreplaced.listsWithin (hdrops.listsWithin hcontainer) hroot
  · rw [deleteAt_of_absent fun w hw => hfound ⟨w, hw⟩]
    exact hroot

theorem listsWithin_delete (hroot : ListsWithin bound (.map d.root)) (path : String) :
    ListsWithin bound (.map (d.delete path).document.root) := by
  rw [delete]
  cases FieldPath.parse path with
  | error e => exact hroot
  | ok p => exact listsWithin_deleteAt hroot p

/-! ### Runs -/

/-- A bound beyond the greatest position, if it holds for the lists of all values that are set,
holds for the lists of all documents that are reached. -/
theorem Reached.listsWithin (hbound : maxPosition < bound) (h : Reached (ListsWithin bound) d) :
    ListsWithin bound (.map d.root) := by
  induction h with
  | empty => exact listsWithin_empty_map
  | set path _ hvalue ih => exact listsWithin_set hbound ih hvalue path
  | setIdentityString _ _ ih | setIdentityBinary _ _ ih =>
    exact listsWithin_setIdentity ih (listsWithin_of_scalar rfl)
  | delete path _ ih => exact listsWithin_delete ih path
  | clear => exact listsWithin_empty_map
  | merge _ _ ih ih' => exact listsWithin_overlay ih ih'

/-- **Lists do not outgrow the greatest position.** Where the lists in the values that are set have
no more items than there are positions up to the greatest one, no list in a document that comes of
edits, and of merges with such documents, has more: at any depth, whatever the paths ask for, as
an index or as a name of digits, of a list that is there, of null or of nothing. -/
theorem Reached.length_le_of_contains {items : List Value}
    (h : Reached (ListsWithin (maxPosition + 1)) d)
    (hitems : (Value.map d.root).Contains (.list items)) : items.length ≤ maxPosition + 1 :=
  h.listsWithin (Nat.lt_succ_self maxPosition) items hitems

/-- A list that is extended as far as it goes, and asked to go one item further. -/
def brimful : Document :=
  (((empty.set "l" (.list [])).document.set "l.1048576" (.int 7)).document.set "l.1048577"
    .null).document

/-- The bound is met, and not passed. -/
theorem length_le_of_contains_brimful :
    Reached (ListsWithin (maxPosition + 1)) brimful ∧
      ∃ items, (Value.map brimful.root).Contains (.list items) ∧
        items.length = maxPosition + 1 ∧ items.length ≤ maxPosition + 1 := by
  have hlist : FieldPath.parse "l" = .ok ⟨[.name "l"]⟩ := by cbv
  have hlast : FieldPath.parse "l.1048576" = .ok ⟨[.name "l", .name "1048576"]⟩ := by cbv
  have hbeyond : FieldPath.parse "l.1048577" = .ok ⟨[.name "l", .name "1048577"]⟩ := by cbv
  have hposition : (Segment.name "1048576").position? = some 1048576 := rfl
  have hposition' : (Segment.name "1048577").position? = some 1048577 := rfl
  have hreached : Reached (ListsWithin (maxPosition + 1)) brimful :=
    (((Reached.empty.set "l" (by simp [listsWithin_list_iff])).set "l.1048576"
      (listsWithin_of_scalar rfl)).set "l.1048577" (listsWithin_of_scalar rfl))
  -- The items are not written out, since there are too many of them.
  obtain ⟨items, hitems⟩ : ∃ items, items = (extend [] 1048576).set 1048576 (.int 7) := ⟨_, rfl⟩
  have hlength : items.length = maxPosition + 1 := by
    rw [hitems, List.length_set, length_extend]
    rfl
  have hempty : empty.set "l" (.list []) = ⟨⟨[("l", .list [])]⟩, none⟩ := by
    rw [set, hlist]
    rfl
  have hextended : set ⟨[("l", .list [])]⟩ "l.1048576" (.int 7) =
      ⟨⟨[("l", .list items)]⟩, none⟩ := by
    have hentry : slot? (.map [("l", .list [])]) (.name "l") = some (.entry "l") := rfl
    have hslot : slot? (.list []) (.name "1048576") = some (.item 1048576) := by
      rw [slot?, hposition, Option.map_some]
    have hreach : (Slot.item 1048576).InReach := Nat.le_refl _
    refine (set_eq_iff hlast).2 ⟨rfl, .step hentry trivial rfl ?_⟩
    rw [hitems]
    exact .step hslot hreach rfl (.here _)
  have hrefused : (set ⟨[("l", .list items)]⟩ "l.1048577" .null).document =
      ⟨[("l", .list items)]⟩ := by
    have hstore : setAt ⟨[("l", .list items)]⟩ ⟨[.name "l", .name "1048577"]⟩ .null =
        storeAt ⟨[("l", .list items)]⟩ ⟨[.name "l", .name "1048577"]⟩ .null := rfl
    have hready : prepare false ((Entries.get? [("l", .list items)] "l").getD .null)
        [.name "1048577"] = .ok (.list items) := rfl
    simp only [set, hbeyond, hstore]
    rw [storeAt, store_entry hready, store_beyond_max hposition' (Nat.lt_succ_self _)]
    rfl
  have hbrimful : brimful = ⟨[("l", .list items)]⟩ := by
    rw [brimful, hempty, hextended, hrefused]
  have hcontains : (Value.map brimful.root).Contains (.list items) := by
    rw [hbrimful]
    exact .field (List.mem_singleton_self _) (.self _)
  exact ⟨hreached, items, hcontains, hlength, hreached.length_le_of_contains hcontains⟩

end Document
end DocumentModel

import DocumentModel.Proofs.Document.Slot

/-! Sets as changes at the end of a path.

`Changed f segments target result` says what a set does as a relation: `result` is `target` with
`f` applied to what stands at the end of the steps, and with the slots on the way made ready.
There are two cases, the end of the steps and one step more, so that what sets do is shown by
induction on the relation. Storing a value without an obstacle is such a change
(`store_eq_iff`), and a set that succeeds is a change of the root, together with conditions that
do not look at the document: `set_eq_iff`. -/
namespace DocumentModel.Document

/-- What comes of a target when what stands at the end of the steps is changed by `f`. -/
inductive Changed (f : Value → Value) : List Segment → Value → Value → Prop
  | here (target : Value) : Changed f [] target (f target)
  | step {target : Value} {segment : Segment} {rest : List Segment} {slot : Slot}
    {ready changed : Value} :
    slot? target segment = some slot → slot.InReach →
      prepare target.isList ((slot.content target).getD .null) rest = .ok ready →
      Changed f rest ready changed → Changed f (segment :: rest) target (slot.put changed target)

variable {f : Value → Value} {value target result ready : Value} {segment : Segment}
  {rest : List Segment} {slot : Slot}

/-! ### Single changes -/

theorem changed_nil_iff : Changed f [] target result ↔ result = f target := by
  constructor
  · intro h
    cases h
    rfl
  · intro h
    rw [h]
    exact .here target

/-- The field of a root is changed where it stands. -/
theorem changed_field_iff {fields : Entries Value} {key : String} :
    Changed f [.name key] (.map fields) result ↔
      result = .map (Entries.insert fields key (f ((Entries.get? fields key).getD .null))) := by
  constructor
  · intro h
    cases h with
    | step hslot _ hready hchanged =>
      cases hslot
      cases hready
      rw [changed_nil_iff.1 hchanged]
      rfl
  · intro h
    have hslot : slot? (.map fields) (.name key) = some (.entry key) := rfl
    rw [h]
    exact .step hslot trivial rfl (.here _)

/-- Where a slot holds a container, a change behind it is one of that container. -/
theorem changed_slot_iff {inner : Value} (hslot : slot? target segment = some slot)
    (hcontent : slot.content target = some inner) (hinner : inner.isContainer = true) :
    Changed f (segment :: rest) target result ↔
      slot.InReach ∧ ∃ changed, Changed f rest inner changed ∧ result = slot.put changed target := by
  have hready : prepare target.isList ((slot.content target).getD .null) rest = .ok inner := by
    rw [hcontent, Option.getD_some, prepare_container _ hinner]
  constructor
  · intro h
    cases h with
    | @step _ _ _ _ ready changed hslot' hreach hready' hchanged =>
      cases hslot.symm.trans hslot'
      cases hready.symm.trans hready'
      exact ⟨hreach, changed, hchanged, rfl⟩
  · rintro ⟨hreach, changed, hchanged, rfl⟩
    exact .step hslot hreach hready hchanged

/-- Steps from a map leave a map. -/
theorem Changed.map_of_ne_nil {fields : Entries Value} {segments : List Segment}
    (h : Changed f segments (.map fields) result) (hne : segments ≠ []) :
    ∃ fields', result = .map fields' := by
  cases h with
  | here => exact absurd rfl hne
  | step hslot =>
    rcases slot?_cases hslot with ⟨_, _, _, _, rfl⟩ | ⟨_, _, hlist, _, _⟩
    · exact ⟨_, rfl⟩
    · cases hlist

/-! ### Storing -/

/-- A step that can be taken goes on in its slot. -/
theorem store_slot (hslot : slot? target segment = some slot) (hreach : slot.InReach)
    (hready : prepare target.isList ((slot.content target).getD .null) rest = .ok ready) :
    store value (segment :: rest) target =
      (slot.put (store value rest ready).1 target, (store value rest ready).2) := by
  rcases slot?_cases hslot with ⟨fields, key, rfl, rfl, rfl⟩ | ⟨items, position, rfl, hposition, rfl⟩
  · exact store_entry hready
  · exact store_item hposition hreach hready

/-- The obstacle that a container is to a step, which may have others behind it. A map takes no
index, and a list no name that counts no position; beyond the greatest position a list is not
extended, and a scalar item of a list gives no way to a container. -/
inductive Blocks : Value → Segment → List Segment → Obstacle → Prop
  | indexOnMap (fields : Entries Value) (position : UInt64) (rest : List Segment) :
    Blocks (.map fields) (.index position) rest .indexOnMap
  | nameOnList {segment : Segment} (items : List Value) (rest : List Segment) :
    segment.position? = none → Blocks (.list items) segment rest .nameOnList
  | positionTooLarge {segment : Segment} {position : UInt64} (items : List Value)
      (rest : List Segment) :
    segment.position? = some position → maxPosition < position.toNat →
      Blocks (.list items) segment rest (.positionTooLarge position)
  | scalarItem {segment : Segment} {position : UInt64} {items : List Value} {item : Value}
      {rest : List Segment} :
    segment.position? = some position → position.toNat ≤ maxPosition →
      items[position.toNat]? = some item → item.isContainer = false → item.isNull = false →
      rest ≠ [] → Blocks (.list items) segment rest (.scalarItem item.kindName)

/-- A container is an obstacle to a step, or has a slot for it that can be made ready. -/
theorem step_cases (htarget : target.isContainer = true) (segment : Segment)
    (rest : List Segment) :
    (∃ slot ready, slot? target segment = some slot ∧ slot.InReach ∧
      prepare target.isList ((slot.content target).getD .null) rest = .ok ready) ∨
    ∃ obstacle, Blocks target segment rest obstacle := by
  cases target with
  | map fields =>
    cases segment with
    | index position => exact .inr ⟨_, .indexOnMap fields position rest⟩
    | name key =>
      obtain ⟨ready, hready⟩ := prepare_entry ((Entries.get? fields key).getD .null) rest
      exact .inl ⟨.entry key, ready, rfl, trivial, hready⟩
  | list items =>
    cases hposition : segment.position? with
    | none => exact .inr ⟨_, .nameOnList items rest hposition⟩
    | some position =>
      by_cases hmax : maxPosition < position.toNat
      · exact .inr ⟨_, .positionTooLarge items rest hposition hmax⟩
      have hreach := Nat.le_of_not_lt hmax
      cases hready : prepare true (items[position.toNat]?.getD .null) rest with
      | ok ready =>
        have hslot : slot? (.list items) segment = some (.item position) := by
          rw [slot?, hposition, Option.map_some]
        exact .inl ⟨.item position, ready, hslot, hreach, hready⟩
      | error obstacle =>
        obtain ⟨hne, hscalar, hnull, rfl⟩ := prepare_item_eq_error_iff.1 hready
        -- Nothing in the slot would be as good as null, so an item stands there.
        cases hitem : items[position.toNat]? with
        | none =>
          rw [hitem] at hnull
          cases hnull
        | some item =>
          rw [hitem] at hscalar hnull
          exact .inr ⟨_, .scalarItem hposition hreach hitem hscalar hnull hne⟩
  | _ => cases htarget

/-- At an obstacle the target stays as it is. -/
theorem store_of_blocks {obstacle : Obstacle} (h : Blocks target segment rest obstacle)
    (value : Value) : store value (segment :: rest) target = (target, some obstacle) := by
  cases h with
  | indexOnMap => exact store_index_on_map ..
  | nameOnList _ _ hposition => exact store_name_on_list hposition
  | positionTooLarge _ _ hposition hmax => exact store_beyond_max hposition hmax
  | scalarItem hposition hreach hitem hscalar hnull hne =>
    refine store_scalar_item hposition hreach (prepare_item_eq_error_iff.2 ?_)
    rw [hitem]
    exact ⟨hne, hscalar, hnull, rfl⟩

/-- The first step can be taken, or it is an obstacle and leaves the target as it is. -/
theorem store_cases (value : Value) (segment : Segment) (rest : List Segment) (target : Value) :
    (∃ slot ready, slot? target segment = some slot ∧ slot.InReach ∧
      prepare target.isList ((slot.content target).getD .null) rest = .ok ready) ∨
    ∃ obstacle, store value (segment :: rest) target = (target, some obstacle) := by
  cases htarget : target.isContainer with
  | false => exact .inr ⟨_, store_scalar htarget segment⟩
  | true =>
    rcases step_cases htarget segment rest with hslot | ⟨obstacle, hblocks⟩
    · exact .inl hslot
    · exact .inr ⟨obstacle, store_of_blocks hblocks value⟩

/-- Storing without an obstacle is changing what stands at the end of the steps. -/
theorem store_eq_iff {segments : List Segment} :
    store value segments target = (result, none) ↔
      Changed (fill · value) segments target result := by
  constructor
  · intro h
    induction segments generalizing target result with
    | nil =>
      rw [store] at h
      cases h
      exact .here target
    | cons segment rest ih =>
      rcases store_cases value segment rest target with
        ⟨slot, ready, hslot, hreach, hready⟩ | ⟨obstacle, hobstacle⟩
      · rw [store_slot hslot hreach hready] at h
        cases hstored : store value rest ready with
        | mk stored obstacle =>
          rw [hstored] at h
          cases h
          exact .step hslot hreach hready (ih hstored)
      · rw [hobstacle] at h
        cases h
  · intro h
    induction h with
    | here target => rw [store]
    | step hslot hreach hready _ ih => rw [store_slot hslot hreach hready, ih]

/-! ### Sets -/

variable {d d' : Document} {p : FieldPath}

theorem storeAt_eq_iff (hne : p.isEmpty = false) :
    d.storeAt p value = ⟨d', none⟩ ↔
      Changed (fill · value) p.segments (.map d.root) (.map d'.root) := by
  rw [← store_eq_iff, storeAt]
  cases hstored : store value p.segments (.map d.root) with
  | mk stored obstacle =>
    cases obstacle with
    | some obstacle => exact iff_of_false nofun nofun
    | none =>
      -- The target is a map, since steps from a map leave a map.
      have hchanged := store_eq_iff.1 hstored
      have hsegments : p.segments ≠ [] := by
        rwa [ne_eq, ← FieldPath.isEmpty_iff, Bool.not_eq_true]
      obtain ⟨fields, rfl⟩ := hchanged.map_of_ne_nil hsegments
      cases d'
      simp [Value.map?]

/-- What a path asks of a value that is set there, whatever the document holds. -/
def Admits (p : FieldPath) (value : Value) : Prop :=
  if p.isIdentity then requireIdentity value = .ok ()
  else if p.isEmpty then
    ∃ fields, value = .map fields ∧ ∀ identity,
      Entries.get? fields FieldPath.identityKey = some identity → requireIdentity identity = .ok ()
  else oversized? p = none

/-- What a set makes of what stands at a path: an identity is replaced, anything else filled. -/
def settle (p : FieldPath) (value : Value) : Value → Value :=
  if p.isIdentity then fun _ => value else (fill · value)

theorem setIdentity_eq_iff :
    d.setIdentity value = ⟨d', none⟩ ↔
      requireIdentity value = .ok () ∧
        d'.root = Entries.insert d.root FieldPath.identityKey value := by
  rw [setIdentity]
  cases d'
  cases requireIdentity value with
  | ok => simp [eq_comm]
  | error e => simp

theorem setRoot_eq_iff :
    d.setRoot p value = ⟨d', none⟩ ↔
      (∃ fields, value = .map fields ∧ ∀ identity,
        Entries.get? fields FieldPath.identityKey = some identity →
          requireIdentity identity = .ok ()) ∧
        Changed (fill · value) [] (.map d.root) (.map d'.root) := by
  rw [changed_nil_iff]
  cases d'
  cases value with
  | map fields =>
    cases hget : Entries.get? fields FieldPath.identityKey with
    | none => simp [setRoot, hget, fill, eq_comm]
    | some identity =>
      cases hrequire : requireIdentity identity <;>
        simp [setRoot, hget, hrequire, fill, eq_comm]
  | _ => simp [setRoot]

/-- A set succeeds exactly if its path admits the value and the root can be changed along the
path, and it leaves the changed root. -/
theorem set_eq_iff {path : String} (hparse : FieldPath.parse path = .ok p) :
    d.set path value = ⟨d', none⟩ ↔
      Admits p value ∧ Changed (settle p value) p.segments (.map d.root) (.map d'.root) := by
  rw [set, hparse]
  show d.setAt p value = _ ↔ _
  rw [setAt, Admits, settle]
  by_cases hidentity : p.isIdentity = true
  · rw [if_pos hidentity, if_pos hidentity, if_pos hidentity, setIdentity_eq_iff,
      FieldPath.isIdentity_iff.1 hidentity, changed_field_iff, Value.map.injEq]
  rw [if_neg hidentity, if_neg hidentity, if_neg hidentity]
  cases hempty : p.isEmpty with
  | true =>
    rw [if_pos rfl, if_pos rfl, FieldPath.isEmpty_iff.1 hempty]
    exact setRoot_eq_iff
  | false =>
    rw [if_neg Bool.false_ne_true, if_neg Bool.false_ne_true]
    cases hbounds : oversized? p with
    | some position => simp
    | none => simpa using storeAt_eq_iff hempty

end DocumentModel.Document

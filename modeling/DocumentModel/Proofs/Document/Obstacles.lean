import DocumentModel.Proofs.Document.Atomicity
import DocumentModel.Proofs.Document.Removal

/-! What stops a set.

A set can be stopped only by what stood there before it, since no obstacle is met in the
containers that it makes (`store_fresh`). So it is stopped by the first container on its way that
is an obstacle to its step (`store_obstacle_iff`), whatever value is to be stored. A read follows
the same steps and is stopped by containers as a set is, but not by positions, behind which it
finds nothing; and it is stopped by every scalar, where a set is stopped by the items of lists
only and replaces what stands in a map. `set_fails_iff` says when a set fails and how that
compares with the read of its path. -/
namespace DocumentModel.Document

variable {target inner container value : Value} {segment : Segment}
  {rest segments before : List Segment} {slot : Slot} {obstacle : Obstacle}

/-! ### The obstacle on a way -/

/-- Steps from a value are stopped by an obstacle: steps into what the containers hold lead to a
container that is an obstacle to the next. -/
inductive Stopped : Value → List Segment → Obstacle → Prop
  | here {target : Value} {segment : Segment} {rest : List Segment} {obstacle : Obstacle} :
    Blocks target segment rest obstacle → Stopped target (segment :: rest) obstacle
  | deeper {target inner : Value} {segment : Segment} {rest : List Segment} {slot : Slot}
      {obstacle : Obstacle} :
    slot? target segment = some slot → slot.InReach → slot.content target = some inner →
      Stopped inner rest obstacle → Stopped target (segment :: rest) obstacle

theorem Blocks.isContainer (h : Blocks target segment rest obstacle) :
    target.isContainer = true := by
  cases h <;> rfl

theorem Stopped.isContainer (h : Stopped target segments obstacle) :
    target.isContainer = true := by
  cases h with
  | here hblocks => exact hblocks.isContainer
  | deeper hslot => exact isContainer_of_slot? hslot

/-- Storing meets the obstacle that stops its steps, whatever the value is. -/
theorem store_obstacle_iff (hbounds : WithinBounds segments)
    (htarget : target.isContainer = true) :
    (store value segments target).2 = some obstacle ↔ Stopped target segments obstacle := by
  constructor
  · intro h
    induction segments generalizing target with
    | nil => cases h
    | cons segment rest ih =>
      rcases step_cases htarget segment rest with
        ⟨slot, ready, hslot, hreach, hready⟩ | ⟨obstacle', hblocks⟩
      · rw [store_slot hslot hreach hready] at h
        obtain ⟨rfl, hcontainer⟩ := container_of_obstructed hbounds.tail hready h
        have hstopped := ih hbounds.tail hcontainer h
        cases hcontent : slot.content target with
        | none =>
          rw [hcontent] at hcontainer
          cases hcontainer
        | some inner =>
          rw [hcontent] at hstopped
          exact .deeper hslot hreach hcontent hstopped
      · rw [store_of_blocks hblocks] at h
        cases h
        exact .here hblocks
  · intro h
    induction h with
    | here hblocks => rw [store_of_blocks hblocks]
    | @deeper target inner _ rest slot _ hslot hreach hcontent hstopped ih =>
      have hready : prepare target.isList ((slot.content target).getD .null) rest = .ok inner := by
        rw [hcontent, Option.getD_some, prepare_container _ hstopped.isContainer]
      rw [store_slot hslot hreach hready]
      exact ih hbounds.tail hstopped.isContainer

/-- Some container on the way, that the steps in front of it lead to, is an obstacle to its
step. -/
def Hindered (target : Value) (segments : List Segment) : Prop :=
  ∃ before step after container obstacle, segments = before ++ step :: after ∧
    descend (some target) before = .ok (some container) ∧ Blocks container step after obstacle

theorem exists_stopped_iff :
    (∃ obstacle, Stopped target segments obstacle) ↔ Hindered target segments := by
  constructor
  · rintro ⟨obstacle, h⟩
    induction h with
    | here hblocks => exact ⟨[], _, _, _, _, rfl, rfl, hblocks⟩
    | @deeper _ _ segment _ _ _ hslot _ hcontent _ ih =>
      obtain ⟨before, step, after, container, obstacle, rfl, hfound, hblocks⟩ := ih
      refine ⟨segment :: before, step, after, container, obstacle, rfl, ?_, hblocks⟩
      rw [descend_of_slot? hslot, hcontent, hfound]
  · rintro ⟨before, step, after, container, obstacle, rfl, hfound, hblocks⟩
    induction before generalizing target with
    | nil =>
      cases hfound
      exact ⟨obstacle, .here hblocks⟩
    | cons first before ih =>
      obtain ⟨slot, inner, hslot, hcontent, hinner⟩ := descend_cons_eq_some_iff.1 hfound
      obtain ⟨obstacle, hstopped⟩ := ih hinner
      by_cases hreach : slot.InReach
      · exact ⟨obstacle, .deeper hslot hreach hcontent hstopped⟩
      · -- The way goes on, but the position is too large for a set already.
        rcases slot?_cases hslot with ⟨_, _, -, -, rfl⟩ | ⟨items, position, rfl, hposition, rfl⟩
        · exact absurd trivial hreach
        · exact ⟨_, .here (.positionTooLarge items _ hposition (Nat.lt_of_not_le hreach))⟩

/-! ### Obstacles to reads -/

/-- A step cannot be read: an index in a map, a name that counts no position in a list, or any
step in a scalar that is not null. -/
theorem child_eq_error_iff :
    child value segment = .error obstacle ↔
      (∃ fields position, value = .map fields ∧ segment = .index position ∧
        obstacle = .indexOnMap) ∨
      (∃ items, value = .list items ∧ segment.position? = none ∧ obstacle = .nameOnList) ∨
      (value.isContainer = false ∧ value.isNull = false ∧ obstacle = .scalar value.kindName) := by
  cases value with
  | map fields =>
    cases segment with
    | name key => simp [child, Value.isContainer, Value.isMap]
    | index position =>
      simpa [child, Value.isContainer, Value.isMap] using eq_comm
  | list items =>
    cases hposition : segment.position? with
    | none =>
      simpa [child, hposition, Value.isContainer, Value.isMap, Value.isList] using eq_comm
    | some position => simp [child, hposition, Value.isContainer, Value.isMap, Value.isList]
  | _ => simp [child, Value.isContainer, Value.isMap, Value.isList, Value.isNull, eq_comm]

/-- A read is stopped where the steps lead to a value in which the next cannot be read. -/
theorem descend_eq_error_iff :
    descend (some target) segments = .error obstacle ↔
      ∃ before step after inner, segments = before ++ step :: after ∧
        descend (some target) before = .ok (some inner) ∧ child inner step = .error obstacle := by
  constructor
  · intro h
    induction segments generalizing target with
    | nil => cases h
    | cons segment rest ih =>
      rw [descend] at h
      cases hchild : child target segment with
      | error obstacle' =>
        rw [hchild] at h
        cases h
        exact ⟨[], segment, rest, target, rfl, rfl, hchild⟩
      | ok found =>
        rw [hchild] at h
        cases found with
        | none => cases (descend_none rest).symm.trans h
        | some next =>
          obtain ⟨before, step, after, inner, rfl, hinner, hstep⟩ := ih h
          refine ⟨segment :: before, step, after, inner, rfl, ?_, hstep⟩
          rw [descend, hchild]
          exact hinner
  · rintro ⟨before, step, after, inner, rfl, hinner, hstep⟩
    rw [descend_append, hinner]
    show descend (some inner) (step :: after) = _
    rw [descend, hstep]

/-- What is found behind steps stands in a slot of the container that all but the last of them
lead to. -/
theorem descend_concat_eq_some
    (h : descend (some target) (before ++ [segment]) = .ok (some inner)) :
    ∃ container slot, descend (some target) before = .ok (some container) ∧
      slot? container segment = some slot ∧ slot.content container = some inner := by
  rw [descend_append] at h
  cases hbefore : descend (some target) before with
  | error obstacle =>
    rw [hbefore] at h
    cases h
  | ok found =>
    rw [hbefore] at h
    cases found with
    | none => cases h
    | some container =>
      obtain ⟨slot, held, hslot, hcontent, hheld⟩ := descend_cons_eq_some_iff.1 h
      cases hheld
      exact ⟨container, slot, rfl, hslot, hcontent⟩

/-! ### Obstacles to sets and to reads -/

/-- Steps give a position in a list: an index does so wherever it stands, and a name of digits
where the steps in front of it lead to a list. -/
def GivesPosition (target : Value) (segments : List Segment) (position : UInt64) : Prop :=
  .index position ∈ segments ∨
    ∃ before step after items, segments = before ++ step :: after ∧
      descend (some target) before = .ok (some (.list items)) ∧ step.position? = some position

/-- Steps go on behind a scalar, other than null, that stands under a key of a map. -/
def PassesScalar (target : Value) (segments : List Segment) (scalar : Value) : Prop :=
  ∃ before key after fields, segments = before ++ .name key :: after ∧ after ≠ [] ∧
    descend (some target) before = .ok (some (.map fields)) ∧
    Entries.get? fields key = some scalar ∧ scalar.isContainer = false ∧ scalar.isNull = false

/-- What stops a set stops a read, but for a position that is too large. -/
theorem Blocks.position_or_descend_error (h : Blocks container segment rest obstacle) :
    (∃ items position, container = .list items ∧ segment.position? = some position ∧
      maxPosition < position.toNat) ∨
    ∃ obstacle', descend (some container) (segment :: rest) = .error obstacle' := by
  cases h with
  | indexOnMap => exact .inr ⟨.indexOnMap, rfl⟩
  | nameOnList items _ hposition =>
    refine .inr ⟨.nameOnList, ?_⟩
    rw [descend, child_eq_error_iff.2 (.inr (.inl ⟨items, rfl, hposition, rfl⟩))]
  | positionTooLarge items _ hposition hmax => exact .inl ⟨items, _, rfl, hposition, hmax⟩
  | @scalarItem _ position items item _ hposition hreach hitem hscalar hnull hne =>
    obtain ⟨next, after, rfl⟩ := List.exists_cons_of_ne_nil hne
    have hslot : slot? (.list items) segment = some (.item position) := by
      rw [slot?, hposition, Option.map_some]
    have hcontent : (Slot.item position).content (.list items) = some item := hitem
    refine .inr ⟨.scalar item.kindName, ?_⟩
    rw [descend_of_slot? hslot, hcontent, descend,
      child_eq_error_iff.2 (.inr (.inr ⟨hscalar, hnull, rfl⟩))]

/-- A read that succeeds meets no obstacle to a set if its positions are not too large. -/
theorem not_hindered_of_descend {found : Option Value}
    (h : descend (some target) segments = .ok found)
    (hpositions : ∀ position, GivesPosition target segments position →
      position.toNat ≤ maxPosition) : ¬ Hindered target segments := by
  rintro ⟨before, step, after, container, obstacle, rfl, hcontainer, hblocks⟩
  rcases hblocks.position_or_descend_error with
    ⟨items, position, rfl, hposition, hmax⟩ | ⟨obstacle', herror⟩
  · have hle := hpositions position (.inr ⟨before, step, after, items, rfl, hcontainer, hposition⟩)
    omega
  · rw [descend_append, hcontainer] at h
    cases herror.symm.trans h

/-- An obstacle to a read is one to a set too, but for a scalar in a map. -/
theorem hindered_or_passesScalar {fields : Entries Value}
    (h : descend (some (.map fields)) segments = .error obstacle) :
    Hindered (.map fields) segments ∨
      ∃ scalar, PassesScalar (.map fields) segments scalar ∧ obstacle = .scalar scalar.kindName := by
  obtain ⟨before, step, after, inner, rfl, hinner, hstep⟩ := descend_eq_error_iff.1 h
  rcases child_eq_error_iff.1 hstep with
    ⟨_, position, rfl, rfl, rfl⟩ | ⟨items, rfl, hposition, rfl⟩ | ⟨hscalar, hnull, rfl⟩
  · exact .inl ⟨before, _, after, _, _, rfl, hinner, .indexOnMap _ position after⟩
  · exact .inl ⟨before, _, after, _, _, rfl, hinner, .nameOnList items after hposition⟩
  · -- The scalar is not the root, so a step leads to it, from a map or from a list.
    rcases List.eq_nil_or_concat before with rfl | ⟨front, last, rfl⟩
    · cases hinner
      cases hscalar
    rw [List.concat_eq_append] at hinner ⊢
    obtain ⟨container, slot, hfront, hslot, hcontent⟩ := descend_concat_eq_some hinner
    rw [List.append_assoc]
    rcases slot?_cases hslot with
      ⟨inside, key, rfl, rfl, rfl⟩ | ⟨items, position, rfl, hposition, rfl⟩
    · exact .inr ⟨inner, ⟨front, key, step :: after, inside, rfl, by simp, hfront, hcontent,
        hscalar, hnull⟩, rfl⟩
    · by_cases hmax : maxPosition < position.toNat
      · exact .inl ⟨front, last, step :: after, _, _, rfl, hfront,
          .positionTooLarge items _ hposition hmax⟩
      · exact .inl ⟨front, last, step :: after, _, _, rfl, hfront,
          .scalarItem hposition (Nat.le_of_not_lt hmax) hcontent hscalar hnull (by simp)⟩

/-! ### Sets below the root -/

variable {d : Document} {path : String} {p : FieldPath} {e : Error}

theorem oversized?_eq_none_iff : oversized? p = none ↔ WithinBounds p.segments := by
  refine ⟨withinBounds_of_oversized?, fun h => List.findSome?_eq_none_iff.2 fun segment hmem => ?_⟩
  cases segment with
  | name key => rfl
  | index position => exact if_neg (Nat.not_lt.2 (h position hmem))

theorem exists_oversized?_iff :
    (∃ position, oversized? p = some position) ↔
      ∃ position, .index position ∈ p.segments ∧ maxPosition < position.toNat := by
  rw [← Option.isSome_iff_exists, ← Option.ne_none_iff_isSome, ne_eq, oversized?_eq_none_iff]
  simp [WithinBounds]

theorem error_set_below_root (hparse : FieldPath.parse path = .ok p) (hempty : p.isEmpty = false)
    (hidentity : p.isIdentity = false) (d : Document) (value : Value) :
    (d.set path value).error =
      (oversized? p).elim ((store value p.segments (.map d.root)).2.map (obstructed p))
        fun position => some (obstructed p (.positionTooLarge position)) := by
  rw [set, hparse]
  show (d.setAt p value).error = _
  rw [setAt, if_neg (by simp [hidentity]), if_neg (by simp [hempty])]
  cases oversized? p <;> rfl

/-- The error of a set tells the first index beyond the greatest position, and otherwise the
obstacle that stops the steps. -/
theorem error_set_iff (hparse : FieldPath.parse path = .ok p) (hempty : p.isEmpty = false)
    (hidentity : p.isIdentity = false) (d : Document) (value : Value) (e : Error) :
    (d.set path value).error = some e ↔
      (∃ position, oversized? p = some position ∧
        e = obstructed p (.positionTooLarge position)) ∨
      oversized? p = none ∧
        ∃ obstacle, Stopped (.map d.root) p.segments obstacle ∧ e = obstructed p obstacle := by
  rw [error_set_below_root hparse hempty hidentity]
  cases hbounds : oversized? p with
  | some position => simp [eq_comm]
  | none =>
    have hroot : (Value.map d.root).isContainer = true := rfl
    rw [Option.elim_none, Option.map_eq_some_iff]
    simp [store_obstacle_iff (oversized?_eq_none_iff.1 hbounds) hroot, eq_comm]

/-- Nothing but an index that is too large and an obstacle on the way makes a set fail. -/
theorem exists_error_set_iff (hparse : FieldPath.parse path = .ok p) (hempty : p.isEmpty = false)
    (hidentity : p.isIdentity = false) (d : Document) (value : Value) :
    (∃ e, (d.set path value).error = some e) ↔
      (∃ position, .index position ∈ p.segments ∧ maxPosition < position.toNat) ∨
        Hindered (.map d.root) p.segments := by
  simp only [error_set_iff hparse hempty hidentity, ← exists_oversized?_iff, ← exists_stopped_iff]
  cases oversized? p <;> simp

theorem set_succeeds_iff (hparse : FieldPath.parse path = .ok p) (hempty : p.isEmpty = false)
    (hidentity : p.isIdentity = false) :
    (d.set path value).error = none ↔
      WithinBounds p.segments ∧ ¬ Hindered (.map d.root) p.segments := by
  have hiff := not_congr (exists_error_set_iff hparse hempty hidentity d value)
  simpa [WithinBounds, ← Option.eq_none_iff_forall_ne_some] using hiff

theorem get_eq_error_iff (hparse : FieldPath.parse path = .ok p) (hempty : p.isEmpty = false) :
    d.get path = .error e ↔
      ∃ obstacle, descend (some (.map d.root)) p.segments = .error obstacle ∧
        e = obstructed p obstacle := by
  rw [get_of_parse hparse, hempty, lookup, hempty]
  cases descend (some (.map d.root)) p.segments <;> simp [Except.map, eq_comm]

/-- **A set fails exactly if an index is too large or a container on the way is an obstacle.** The
path is one below the root, and not that of the identity. The error is one about the path, and the
same for all values. So where the path can be read and gives no position beyond the greatest one, a
set succeeds; and where a set succeeds and the path cannot be read, the path goes on behind a
scalar that stands in a map. -/
theorem set_fails_iff (hparse : FieldPath.parse path = .ok p) (hempty : p.isEmpty = false)
    (hidentity : p.isIdentity = false) (d : Document) (value : Value) :
    ((∃ e, (d.set path value).error = some e) ↔
      (∃ position, .index position ∈ p.segments ∧ maxPosition < position.toNat) ∨
        Hindered (.map d.root) p.segments) ∧
    (∀ e, (d.set path value).error = some e → e.kind = .malformedPath) ∧
    (∀ other, (d.set path other).error = (d.set path value).error) ∧
    (∀ found, d.get path = .ok found →
      (∀ position, GivesPosition (.map d.root) p.segments position →
        position.toNat ≤ maxPosition) → (d.set path value).error = none) ∧
    ∀ e, d.get path = .error e → (d.set path value).error = none →
      ∃ scalar, PassesScalar (.map d.root) p.segments scalar ∧
        e = obstructed p (.scalar scalar.kindName) := by
  refine ⟨exists_error_set_iff hparse hempty hidentity d value, fun e he => ?_, fun other => ?_,
    fun found hget hpositions => ?_, fun e hget hset => ?_⟩
  · rcases (error_set_iff hparse hempty hidentity d value e).1 he with
      ⟨position, -, rfl⟩ | ⟨-, obstacle, -, rfl⟩
    · rfl
    · rfl
  · refine Option.ext fun e => ?_
    rw [error_set_iff hparse hempty hidentity, error_set_iff hparse hempty hidentity]
  · refine (set_succeeds_iff hparse hempty hidentity).2 ⟨fun position hmem =>
      hpositions position (.inl hmem), ?_⟩
    cases hfound : descend (some (.map d.root)) p.segments with
    | ok found => exact not_hindered_of_descend hfound hpositions
    | error obstacle =>
      have herror := (get_eq_error_iff hparse hempty).2 ⟨obstacle, hfound, rfl⟩
      cases herror.symm.trans hget
  · obtain ⟨-, hfree⟩ := (set_succeeds_iff hparse hempty hidentity).1 hset
    obtain ⟨obstacle, hfound, rfl⟩ := (get_eq_error_iff hparse hempty).1 hget
    obtain ⟨scalar, hpasses, rfl⟩ := (hindered_or_passesScalar hfound).resolve_left hfree
    exact ⟨scalar, hpasses, rfl⟩

/-- A document with a number in a map and a number in a list. -/
def numbers : Document := ⟨[("a", .int 5), ("l", .list [.int 7])]⟩

/-- Neither path can be read, since it goes on behind a number. The number in the list stops a set,
and the one in the map does not. -/
theorem set_fails_iff_numbers :
    ((∃ e, (numbers.set "l.00.x" .null).error = some e) ∧
      ∀ other, (numbers.set "l.00.x" other).error = (numbers.set "l.00.x" .null).error) ∧
    (numbers.set "a.x" .null).error = none ∧
    ∃ scalar, PassesScalar (.map numbers.root) [.name "a", .name "x"] scalar ∧
      obstructed ⟨[.name "a", .name "x"]⟩ (.scalar "integer") =
        obstructed ⟨[.name "a", .name "x"]⟩ (.scalar scalar.kindName) := by
  have hitem : FieldPath.parse "l.00.x" = .ok ⟨[.name "l", .name "00", .name "x"]⟩ := by cbv
  have hentry : FieldPath.parse "a.x" = .ok ⟨[.name "a", .name "x"]⟩ := by cbv
  have hposition : (Segment.name "00").position? = some 0 := rfl
  have hhindered : Hindered (.map numbers.root) [.name "l", .name "00", .name "x"] :=
    ⟨[.name "l"], .name "00", [.name "x"], .list [.int 7], _, rfl, rfl,
      .scalarItem hposition (Nat.zero_le _) rfl rfl rfl (by simp)⟩
  obtain ⟨hfails, -, hother, -, -⟩ := set_fails_iff hitem rfl rfl numbers .null
  obtain ⟨-, -, -, -, hscalar⟩ := set_fails_iff hentry rfl rfl numbers .null
  have hget : numbers.get "a.x" =
      .error (obstructed ⟨[.name "a", .name "x"]⟩ (.scalar "integer")) := by
    rw [get_of_parse hentry]
    rfl
  have hset : (numbers.set "a.x" .null).error = none := by
    rw [set, hentry]
    rfl
  exact ⟨⟨hfails.2 (.inr hhindered), hother⟩, hset, hscalar _ hget hset⟩

end DocumentModel.Document

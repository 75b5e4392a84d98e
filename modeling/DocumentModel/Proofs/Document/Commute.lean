import DocumentModel.Proofs.Document.ReadBack
import DocumentModel.Proofs.Value.Reordered

/-! Sets on paths that part.

Two paths part where, after steps in common, they take steps of one kind that lead to different
places of any container (`Apart`). The set that comes first makes the containers that the paths
share, and the second finds them; since steps of one kind need the same containers, it does not
matter which set comes first. The proof is an induction on the steps in common
(`Changed.commute`): below them, the containers are the same for either path, and where the
paths part each set puts its value into a slot of its own. What the order of the sets leaves a
trace in is the order of the keys that they add, so the documents agree up to that order:
`set_comm_of_apart`. -/
namespace DocumentModel.Document
open Value (Reordered)

variable {container : Value} {slot other : Slot} {s t : Segment}

/-! ### Slots that differ -/

/-- Two slots can be given their values in either order. -/
theorem reordered_put_comm (hne : slot ≠ other) (value otherValue container : Value) :
    Reordered (other.put otherValue (slot.put value container))
      (slot.put value (other.put otherValue container)) := by
  cases container with
  | map fields =>
    cases slot with
    | item => cases other <;> exact .refl _
    | entry key =>
      cases other with
      | item => exact .refl _
      | entry key' =>
        have hkey : key ≠ key' := fun heq => hne (by rw [heq])
        exact .entries (Entries.insert_perm_comm fields hkey value otherValue)
  | list items =>
    cases slot with
    | entry => cases other <;> exact .refl _
    | item position =>
      cases other with
      | entry => exact .refl _
      | item position' =>
        have hposition : position.toNat ≠ position'.toNat :=
          fun heq => hne (by rw [UInt64.toNat_inj.1 heq])
        -- Either way the list is as long as the greater position asks.
        have heq : (extend ((extend items position.toNat).set position.toNat value)
              position'.toNat).set position'.toNat otherValue =
            (extend ((extend items position'.toNat).set position'.toNat otherValue)
              position.toNat).set position.toNat value := by
          refine List.ext_getElem? fun i => ?_
          simp only [List.getElem?_set, getElem?_extend, List.length_set, length_extend]
          grind
        rw [Slot.put, Slot.put, Slot.put, Slot.put, heq]
        exact .refl _
  | _ => cases slot <;> cases other <;> exact .refl _

/-- Containers differ in the order of entries only if what is put into a slot of them does. -/
theorem reordered_put {value value' : Value} (h : Reordered value value') (slot : Slot)
    (container : Value) : Reordered (slot.put value container) (slot.put value' container) := by
  cases container with
  | map fields =>
    cases slot with
    | item => exact .refl _
    | entry key =>
      obtain ⟨before, after, hinsert⟩ := Entries.insert_eq_append fields key
      rw [Slot.put, Slot.put, hinsert, hinsert]
      exact .field before after key h
  | list items =>
    cases slot with
    | entry => exact .refl _
    | item position =>
      have hlt : position.toNat < (extend items position.toNat).length := by
        rw [length_extend]
        omega
      rw [Slot.put, Slot.put, List.set_eq_take_append_cons_drop,
        List.set_eq_take_append_cons_drop, if_pos hlt, if_pos hlt]
      exact .item _ _ h
  | _ => cases slot <;> exact .refl _

/-! ### Steps that part -/

/-- Steps of one kind that lead to different places of any container: two indices, or two names
that do not count one position of a list. -/
def Apart : Segment → Segment → Prop
  | .index position, .index other => position ≠ other
  | .name key, .name other =>
    key ≠ other ∧ ∀ position, DocumentModel.position? key.toList = some position →
      DocumentModel.position? other.toList ≠ some position
  | _, _ => False

/-- Steps that part select different slots. -/
theorem Apart.slot_ne (h : Apart s t) (hs : slot? container s = some slot)
    (ht : slot? container t = some other) : slot ≠ other := by
  rintro rfl
  rcases slot?_cases hs with ⟨fields, key, rfl, rfl, rfl⟩ | ⟨items, position, rfl, hposition, rfl⟩
  · rcases slot?_cases ht with ⟨_, key', _, rfl, hkey⟩ | ⟨_, _, hlist, _, _⟩
    · cases hkey
      exact h.1 rfl
    · cases hlist
  · rcases slot?_cases ht with ⟨_, _, hmap, _, _⟩ | ⟨_, position', _, hposition', heq⟩
    · cases hmap
    cases heq
    cases s with
    | name key =>
      cases t with
      | name key' => exact h.2 position hposition hposition'
      | index => exact h
    | index =>
      cases t with
      | name key' => exact h
      | index =>
        cases hposition
        cases hposition'
        exact h rfl

/-- The same container is made for either step. -/
theorem Apart.emptyFor_eq (h : Apart s t) : emptyFor s = emptyFor t := by
  cases s <;> cases t <;> first | rfl | exact h.elim

/-- A slot is made ready by the kind of the next step alone. -/
theorem prepare_congr (h : emptyFor s = emptyFor t) (inList : Bool) (slot : Value)
    (p q : List Segment) : prepare inList slot (s :: p) = prepare inList slot (t :: q) := by
  rw [prepare, prepare, h]

/-- Up to the steps where paths part they make the same slots ready. -/
theorem Apart.prepare_eq (h : Apart s t) (inList : Bool) (slot : Value)
    (common p q : List Segment) :
    prepare inList slot (common ++ s :: p) = prepare inList slot (common ++ t :: q) := by
  cases common with
  | nil => exact prepare_congr h.emptyFor_eq inList slot p q
  | cons => exact prepare_congr rfl inList slot _ _

variable {f g : Value → Value} {target once twice : Value} {common p q : List Segment}

/-- Changes on paths that part can be made in either order. -/
theorem Changed.commute (hapart : Apart s t) (hf : Changed f (common ++ s :: p) target once)
    (hg : Changed g (common ++ t :: q) once twice) :
    ∃ once' twice', Changed g (common ++ t :: q) target once' ∧
      Changed f (common ++ s :: p) once' twice' ∧ Reordered twice twice' := by
  induction common generalizing target once twice with
  | nil =>
    cases hf with
    | @step _ _ _ a ready x ha hreach hready hx =>
    cases hg with
    | @step _ _ _ b _ y hb hreach' hready' hy =>
      rw [slot?_put] at hb
      have hne : a ≠ b := hapart.slot_ne ha hb
      -- Neither slot is touched by the other change, so each is made ready as before.
      rw [isList_put, getD_content_put_of_ne hne.symm] at hready'
      have ha' : slot? (b.put y target) s = some a := by rw [slot?_put, ha]
      have hready'' : prepare (b.put y target).isList
          ((a.content (b.put y target)).getD .null) p = .ok ready := by
        rw [isList_put, getD_content_put_of_ne hne, hready]
      exact ⟨_, _, .step hb hreach' hready' hy, .step ha' hreach hready'' hx,
        reordered_put_comm hne x y target⟩
  | cons segment common ih =>
    rw [List.cons_append] at hf hg
    cases hf with
    | @step _ _ _ slot ready x hslot hreach hready hx =>
    cases hg with
    | @step _ _ _ slot' ready' y hslot' _ hready' hy =>
      rw [slot?_put] at hslot'
      cases hslot.symm.trans hslot'
      -- The first change left a container in the slot, so that the second finds it ready.
      rw [content_put hslot, Option.getD_some,
        prepare_container _ (hx.isContainer (by simp))] at hready'
      cases hready'
      obtain ⟨x', y', hx', hy', hreordered⟩ := ih hx hy
      rw [hapart.prepare_eq] at hready
      have honce : slot? (slot.put x' target) segment = some slot := by rw [slot?_put, hslot]
      have hagain : prepare (slot.put x' target).isList
          ((slot.content (slot.put x' target)).getD .null) (common ++ s :: p) = .ok x' := by
        rw [content_put hslot, Option.getD_some, prepare_container _ (hx'.isContainer (by simp))]
      refine ⟨_, _, .step hslot hreach hready hx', .step honce hreach hagain hy', ?_⟩
      rw [put_put, put_put]
      exact reordered_put hreordered slot target

/-! ### Sets -/

variable {d d₁ d₂ : Document} {path path' : String} {P Q : FieldPath} {v w : Value}

/-- **Sets on paths that part commute.** If one succeeds and then the other, they succeed in the
other order too, and the documents are the same up to the order of map entries. -/
theorem set_comm_of_apart (hP : FieldPath.parse path = .ok P) (hQ : FieldPath.parse path' = .ok Q)
    (hp : P.segments = common ++ s :: p) (hq : Q.segments = common ++ t :: q) (hapart : Apart s t)
    (hfirst : d.set path v = ⟨d₁, none⟩) (hsecond : d₁.set path' w = ⟨d₂, none⟩) :
    ∃ e₁ e₂, d.set path' w = ⟨e₁, none⟩ ∧ e₁.set path v = ⟨e₂, none⟩ ∧
      Reordered (.map d₂.root) (.map e₂.root) := by
  obtain ⟨hadmitsP, hchangedP⟩ := (set_eq_iff hP).1 hfirst
  obtain ⟨hadmitsQ, hchangedQ⟩ := (set_eq_iff hQ).1 hsecond
  rw [hp] at hchangedP
  rw [hq] at hchangedQ
  obtain ⟨once, twice, honce, htwice, hreordered⟩ := hchangedP.commute hapart hchangedQ
  obtain ⟨fields, rfl⟩ := honce.map_of_ne_nil (by simp)
  obtain ⟨fields', rfl⟩ := htwice.map_of_ne_nil (by simp)
  rw [← hq] at honce
  rw [← hp] at htwice
  exact ⟨⟨fields⟩, ⟨fields'⟩, (set_eq_iff hQ).2 ⟨hadmitsQ, honce⟩,
    (set_eq_iff hP).2 ⟨hadmitsP, htwice⟩, hreordered⟩

/-- Either set makes room for a map in the place of a number, and the other finds the map. -/
theorem set_comm_of_apart_replaced :
    set ⟨[("a", .int 5)]⟩ "a.x.u" (.int 1) =
      ⟨⟨[("a", .map [("x", .map [("u", .int 1)])])]⟩, none⟩ ∧
    set ⟨[("a", .map [("x", .map [("u", .int 1)])])]⟩ "a.y" (.int 2) =
      ⟨⟨[("a", .map [("x", .map [("u", .int 1)]), ("y", .int 2)])]⟩, none⟩ ∧
    ∃ e₁ e₂, set ⟨[("a", .int 5)]⟩ "a.y" (.int 2) = ⟨e₁, none⟩ ∧
      e₁.set "a.x.u" (.int 1) = ⟨e₂, none⟩ ∧
      Reordered (.map [("a", .map [("x", .map [("u", .int 1)]), ("y", .int 2)])])
        (.map e₂.root) := by
  have hx : FieldPath.parse "a.x.u" = .ok ⟨[.name "a", .name "x", .name "u"]⟩ := by cbv
  have hy : FieldPath.parse "a.y" = .ok ⟨[.name "a", .name "y"]⟩ := by cbv
  have hp : (⟨[.name "a", .name "x", .name "u"]⟩ : FieldPath).segments =
      [.name "a"] ++ .name "x" :: [.name "u"] := rfl
  have hq : (⟨[.name "a", .name "y"]⟩ : FieldPath).segments = [.name "a"] ++ .name "y" :: [] := rfl
  have hletter : DocumentModel.position? "x".toList = none := rfl
  have hapart : Apart (.name "x") (.name "y") := by
    refine ⟨by decide, fun position hposition => ?_⟩
    rw [hletter] at hposition
    cases hposition
  have hfirst : set ⟨[("a", .int 5)]⟩ "a.x.u" (.int 1) =
      ⟨⟨[("a", .map [("x", .map [("u", .int 1)])])]⟩, none⟩ := by
    rw [set, hx]
    rfl
  have hsecond : set ⟨[("a", .map [("x", .map [("u", .int 1)])])]⟩ "a.y" (.int 2) =
      ⟨⟨[("a", .map [("x", .map [("u", .int 1)]), ("y", .int 2)])]⟩, none⟩ := by
    rw [set, hy]
    rfl
  exact ⟨hfirst, hsecond, set_comm_of_apart hx hy hp hq hapart hfirst hsecond⟩

end DocumentModel.Document

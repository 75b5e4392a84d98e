import DocumentModel.Proofs.Document.ReadBack

/-! What a set leaves alone.

Two paths diverge in a document if they lead into the same slots up to a container of which they
select different ones (`Diverge`). A set along one path makes lists longer, puts containers in
the place of scalars and adds entries, but it does so in its own slots only, so that whatever
stands on a diverging path stays (`Changed.descend_of_diverge`). The containers on the way grow
by the slot that the path selects and by nothing else, nulls in front of it apart
(`Changed.grown`). `set_frame` says both of a set that succeeds. -/
namespace DocumentModel.Document

variable {f : Value → Value} {target result value : Value} {segments : List Segment}

/-! ### Diverging paths -/

/-- Steps from a value part ways: they lead into the same slots, and then into different slots
of one container. Slots of a list are told apart by their positions, however these are given. -/
inductive Diverge : Value → List Segment → List Segment → Prop
  | here {container : Value} {s t : Segment} {a b : Slot} {p q : List Segment} :
    slot? container s = some a → slot? container t = some b → a ≠ b →
      Diverge container (s :: p) (t :: q)
  | deeper {container inner : Value} {s t : Segment} {slot : Slot} {p q : List Segment} :
    slot? container s = some slot → slot? container t = some slot →
      slot.content container = some inner → Diverge inner p q →
      Diverge container (s :: p) (t :: q)

theorem Diverge.isContainer {p q : List Segment} (h : Diverge target p q) :
    target.isContainer = true := by
  cases h with
  | here hs => exact isContainer_of_slot? hs
  | deeper hs => exact isContainer_of_slot? hs

/-- What stands on a diverging path stays. -/
theorem Changed.descend_of_diverge {q : List Segment} {w : Value}
    (h : Changed f segments target result) (hdiverge : Diverge target segments q)
    (hq : descend (some target) q = .ok (some w)) : descend (some result) q = .ok (some w) := by
  induction h generalizing q with
  | here => cases hdiverge
  | @step target segment rest slot ready changed hslot _ hready _ ih =>
    cases hdiverge with
    | @here _ _ t _ other _ q hs ht hne =>
      cases hslot.symm.trans hs
      have hput : slot? (slot.put changed target) t = some other := by rw [slot?_put, ht]
      rw [descend_of_slot? ht] at hq
      rw [descend_of_slot? hput]
      cases hcontent : other.content target with
      | none =>
        rw [hcontent, descend_none] at hq
        cases hq
      | some inner =>
        rw [content_put_of_ne hne.symm hcontent, ← hcontent]
        exact hq
    | deeper hs ht hcontent hinner =>
      cases hslot.symm.trans hs
      -- The slot holds a container, since the paths diverge in it, so it is ready as it is.
      rw [hcontent, Option.getD_some, prepare_container _ hinner.isContainer] at hready
      cases hready
      rw [descend_of_slot? ht, hcontent] at hq
      rw [descend_put ht]
      exact ih hinner hq

/-! ### Containers on the way -/

/-- How a container grows by a step into it. The keys of a map keep their order, and a new key
goes to the end. A list becomes just long enough for the position of the step, and what is new
in front of the position is null. -/
inductive Grown : Segment → Value → Value → Prop
  | map {key : String} {fields fields' : Entries Value} :
    fields'.keys = (if key ∈ fields.keys then fields.keys else fields.keys ++ [key]) →
      Grown (.name key) (.map fields) (.map fields')
  | list {segment : Segment} {position : UInt64} {items items' : List Value} :
    segment.position? = some position →
      items'.length = (if position.toNat < items.length then items.length
        else position.toNat + 1) →
      (∀ i, items.length ≤ i → i < items'.length → i ≠ position.toNat →
        items'[i]? = some .null) →
      Grown segment (.list items) (.list items')

theorem grown_put {container : Value} {segment : Segment} {slot : Slot}
    (h : slot? container segment = some slot) (value : Value) :
    Grown segment container (slot.put value container) := by
  rcases slot?_cases h with ⟨fields, key, rfl, rfl, rfl⟩ | ⟨items, position, rfl, hposition, rfl⟩
  · exact .map (Entries.keys_insert fields key value)
  · refine .list hposition ?_ fun i hnew hlt hne => ?_
    · rw [List.length_set, length_extend]
      split <;> omega
    · rw [List.length_set, length_extend] at hlt
      rw [List.getElem?_set_ne (Ne.symm hne), extend, List.getElem?_append_right hnew,
        List.getElem?_replicate, if_pos (by omega)]

/-- The container that a step is taken into: what stands in front of the step, or the empty
container that is made there for it. -/
def entered (root : Value) (before : List Segment) (step : Segment) : Value :=
  if (held root before).isContainer then held root before else emptyFor step

/-- Making a slot ready enters the containers that are there, and makes none but those that the
steps need. -/
theorem entered_ready {inList : Bool} {slot ready : Value} {before after : List Segment}
    {step : Segment} (hready : prepare inList slot (before ++ step :: after) = .ok ready) :
    entered ready before step = entered slot before step := by
  cases before with
  | cons next before =>
    rw [entered, entered, held_ready hready (List.prefix_append ..) nofun]
  | nil =>
    rcases ready_cases hready with ⟨rfl, -⟩ | ⟨next, _, hrest, hscalar, rfl⟩
    · rfl
    · cases hrest
      have hempty : (emptyFor step).isContainer = true := by cases step <;> rfl
      show (if (emptyFor step).isContainer then emptyFor step else emptyFor step) =
        if slot.isContainer then slot else emptyFor step
      rw [if_pos hempty, if_neg (by simp [hscalar])]

/-- Every container on the way grows by its step. -/
theorem Changed.grown (h : Changed f segments target result) {before after : List Segment}
    {step : Segment} (hsegments : segments = before ++ step :: after) :
    ∃ container, descend (some result) before = .ok (some container) ∧
      Grown step (entered target before step) container := by
  induction h generalizing before with
  | here => simp at hsegments
  | @step target segment rest slot ready changed hslot _ hready _ ih =>
    cases before with
    | nil =>
      cases hsegments
      refine ⟨_, rfl, ?_⟩
      have htarget : (held target []).isContainer = true := isContainer_of_slot? hslot
      rw [entered, if_pos htarget]
      exact grown_put hslot changed
    | cons next before =>
      cases hsegments
      obtain ⟨container, hcontainer, hgrown⟩ := ih rfl
      refine ⟨container, ?_, ?_⟩
      · rw [descend_put hslot, hcontainer]
      · rw [entered, held_cons hslot, ← entered, ← entered_ready hready]
        exact hgrown

/-! ### Sets -/

theorem lookup_eq_some_iff {d : Document} {q : FieldPath} {w : Value} :
    d.lookup q = .ok (some w) ↔
      q.isEmpty = false ∧ descend (some (.map d.root)) q.segments = .ok (some w) := by
  rw [lookup]
  cases q.isEmpty with
  | true => simp
  | false =>
    cases descend (some (.map d.root)) q.segments with
    | ok found => simp
    | error obstacle => simp

/-- **A set touches nothing beside its path.** Whatever a document holds on a path that diverges
from that of a set, it holds after the set. Every container on the way of the set, that was
there or was made, grows by the slot of its step only. -/
theorem set_frame {d d' : Document} {path : String} {p : FieldPath}
    (hparse : FieldPath.parse path = .ok p) (h : d.set path value = ⟨d', none⟩) :
    (∀ (q : FieldPath) (w : Value), d.lookup q = .ok (some w) →
      Diverge (.map d.root) p.segments q.segments → d'.lookup q = .ok (some w)) ∧
    ∀ (before after : List Segment) (step : Segment), p.segments = before ++ step :: after →
      ∃ container, descend (some (.map d'.root)) before = .ok (some container) ∧
        Grown step (entered (.map d.root) before step) container := by
  obtain ⟨-, hchanged⟩ := (set_eq_iff hparse).1 h
  refine ⟨fun q w hq hdiverge => ?_, fun before after step hsegments => ?_⟩
  · obtain ⟨hempty, hfound⟩ := lookup_eq_some_iff.1 hq
    exact lookup_eq_some_iff.2 ⟨hempty, hchanged.descend_of_diverge hdiverge hfound⟩
  · exact hchanged.grown hsegments

/-- A document with a list. -/
def row (items : List Value) : Document := ⟨[("l", .list items)]⟩

/-- A set makes a list longer and ends it with a new map. An item in front of it, whose position
another path gives with a zero too many, is what it was. -/
theorem set_frame_row :
    set (row [.map [("b", .int 1)], .int 7]) "l.3.b" (.int 2) =
      ⟨row [.map [("b", .int 1)], .int 7, .null, .map [("b", .int 2)]], none⟩ ∧
    lookup (row [.map [("b", .int 1)], .int 7, .null, .map [("b", .int 2)]])
      ⟨[.name "l", .name "00", .name "b"]⟩ = .ok (some (.int 1)) ∧
    ∃ container, descend (some (.map (row [.map [("b", .int 1)], .int 7, .null,
        .map [("b", .int 2)]]).root)) [.name "l"] = .ok (some container) ∧
      Grown (.name "3") (.list [.map [("b", .int 1)], .int 7]) container := by
  have hparse : FieldPath.parse "l.3.b" = .ok ⟨[.name "l", .name "3", .name "b"]⟩ := by cbv
  have hset : set (row [.map [("b", .int 1)], .int 7]) "l.3.b" (.int 2) =
      ⟨row [.map [("b", .int 1)], .int 7, .null, .map [("b", .int 2)]], none⟩ := by
    rw [set, hparse]
    rfl
  have hfirst : slot? (.list [.map [("b", .int 1)], .int 7]) (.name "00") = some (.item 0) := rfl
  have hnew : slot? (.list [.map [("b", .int 1)], .int 7]) (.name "3") = some (.item 3) := rfl
  have hlist : slot? (.map (row [.map [("b", .int 1)], .int 7]).root) (.name "l") =
      some (.entry "l") := rfl
  have hdiverge : Diverge (.map (row [.map [("b", .int 1)], .int 7]).root)
      [.name "l", .name "3", .name "b"] [.name "l", .name "00", .name "b"] :=
    .deeper hlist hlist rfl (.here hnew hfirst (by decide))
  obtain ⟨hframe, hgrown⟩ := set_frame hparse hset
  exact ⟨hset, hframe _ _ rfl hdiverge, hgrown [.name "l"] [.name "b"] (.name "3") rfl⟩

end DocumentModel.Document

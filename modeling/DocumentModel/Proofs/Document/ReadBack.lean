import DocumentModel.Proofs.Document.Change
import DocumentModel.Proofs.Document.Readers
import DocumentModel.Proofs.Merge.Overlay

/-! What was set is there.

The set and the read of a path walk down the tree each in its own way: the set makes what is
missing on the way, and the read looks only. Still the read finds what the set left at the end
of the steps (`Changed.descend_eq`), and setting the same value again finds everything in place
and changes nothing (`Changed.again`). `set_get` puts this together for a path of any kind. -/
namespace DocumentModel.Document
open Merge (overlay overlayValue)

variable {f : Value → Value} {value target result : Value} {segments : List Segment}

/-! ### What stands at the end of steps -/

/-- What stands at the end of steps from a value; null, if nothing does. -/
def held (value : Value) (segments : List Segment) : Value :=
  match descend (some value) segments with
  | .ok (some found) => found
  | _ => .null

theorem descend_none (segments : List Segment) : descend none segments = .ok none := by
  cases segments <;> rfl

theorem held_null (segments : List Segment) : held .null segments = .null := by
  cases segments with
  | nil => rfl
  | cons segment rest => simp only [held, descend, child, descend_none]

theorem held_scalar (h : value.isContainer = false) (segment : Segment) (rest : List Segment) :
    held value (segment :: rest) = .null := by
  cases value with
  | null => exact held_null _
  | list => cases h
  | map => cases h
  | _ => simp only [held, descend, child]

theorem held_emptyFor (segment : Segment) (rest : List Segment) :
    held (emptyFor segment) (segment :: rest) = .null := by
  cases segment <;> simp [held, descend, child, emptyFor, Segment.position?, Entries.get?,
    descend_none]

/-- A step goes on from the content of its slot. -/
theorem held_cons {slot : Slot} {segment : Segment} (h : slot? target segment = some slot)
    (rest : List Segment) :
    held target (segment :: rest) = held ((slot.content target).getD .null) rest := by
  rw [held, descend_of_slot? h]
  cases slot.content target with
  | some inner => rfl
  | none =>
    rw [Option.getD_none, descend_none, held_null]

/-- Making a slot ready moves nothing that stands further down. -/
theorem held_ready {inList : Bool} {slot ready : Value} {rest steps : List Segment}
    (hready : prepare inList slot rest = .ok ready) (hsteps : steps <+: rest)
    (hne : steps = [] → rest = []) : held ready steps = held slot steps := by
  rcases ready_cases hready with ⟨rfl, -⟩ | ⟨next, rest', rfl, hscalar, rfl⟩
  · rfl
  · cases steps with
    | nil => cases hne rfl
    | cons segment steps =>
      obtain ⟨rfl, -⟩ := List.cons_prefix_cons.1 hsteps
      rw [held_emptyFor, held_scalar hscalar]

/-! ### Changes -/

/-- What a change left at the end of the steps is what is found there. -/
theorem Changed.descend_eq (h : Changed f segments target result) :
    descend (some result) segments = .ok (some (f (held target segments))) := by
  induction h with
  | here target => rfl
  | step hslot _ hready _ ih =>
    rw [descend_put hslot, ih, held_cons hslot, held_ready hready (List.prefix_refl _) id]

/-- Below steps, a change leaves a container. -/
theorem Changed.isContainer (h : Changed f segments target result) (hne : segments ≠ []) :
    result.isContainer = true := by
  cases h with
  | here => exact absurd rfl hne
  | step hslot => rw [isContainer_put, isContainer_of_slot? hslot]

/-- A change that has no effect on its own outcome has none on the result, when it is made
again. -/
theorem Changed.again (hf : ∀ x, f (f x) = f x) (h : Changed f segments target result) :
    Changed f segments result result := by
  induction h with
  | here target => exact changed_nil_iff.2 (hf target).symm
  | @step target segment rest slot ready changed hslot hreach hready hchanged ih =>
    have hresult : slot? (slot.put changed target) segment = some slot := by
      rw [slot?_put, hslot]
    have hready' : prepare (slot.put changed target).isList
        ((slot.content (slot.put changed target)).getD .null) rest = .ok changed := by
      rw [content_put hslot, Option.getD_some]
      cases rest with
      | nil => rfl
      | cons next rest => exact prepare_container _ (hchanged.isContainer (by simp)) _
    have hagain := Changed.step hresult hreach hready' ih
    rwa [put_put] at hagain

/-! ### Values that are set twice -/

theorem fill_eq_overlayValue (base value : Value) :
    fill base value = overlayValue (some base) value := by
  cases base <;> cases value <;> simp [fill, overlayValue]

theorem settle_settle (p : FieldPath) (hdistinct : value.Distinct) (x : Value) :
    settle p value (settle p value x) = settle p value x := by
  unfold settle
  split
  · rfl
  · simp only [fill_eq_overlayValue]
    exact Merge.overlayValue_overlayValue (some x) hdistinct

/-! ### Sets -/

/-- What a path holds after a value was set there, by what was found there before: a map is
overlaid on a map, and otherwise the value takes the place of whatever there was. -/
def merged (found : Except Error (Option Value)) (value : Value) : Value :=
  match found, value with
  | .ok (some (.map base)), .map fields => .map (overlay base fields)
  | _, value => value

variable {d d' : Document} {path : String} {p : FieldPath}

theorem merged_lookup (hempty : p.isEmpty = false) :
    merged (d.lookup p) value = fill (held (.map d.root) p.segments) value := by
  rw [lookup, if_neg (by simp [hempty]), held]
  cases descend (some (.map d.root)) p.segments with
  | error obstacle => rfl
  | ok found =>
    cases found with
    | none => rfl
    | some inner => cases inner <;> cases value <;> rfl

/-- What is found along the steps of a path is what the path reads. -/
theorem get_of_descend (hparse : FieldPath.parse path = .ok p) {found : Value}
    (h : descend (some (.map d.root)) p.segments = .ok (some found)) :
    d.get path = .ok found ∧ d.contains path = .ok true := by
  rw [get_of_parse hparse, contains_of_parse hparse]
  cases hempty : p.isEmpty with
  | true =>
    rw [FieldPath.isEmpty_iff.1 hempty] at h
    cases h
    exact ⟨rfl, rfl⟩
  | false =>
    have hlookup : d.lookup p = .ok (some found) := by rw [lookup, hempty, h]; rfl
    rw [hlookup]
    exact ⟨rfl, rfl⟩

/-- **What was set is there, and setting it again changes nothing.** A set that succeeds leaves
at its path the value, merged into the map that the path held before if both are maps. The
identity is replaced, and the empty path merges into the root. -/
theorem set_get (hparse : FieldPath.parse path = .ok p) (h : d.set path value = ⟨d', none⟩) :
    d'.contains path = .ok true ∧
    (p.isEmpty = false → p.isIdentity = false →
      d'.get path = .ok (merged (d.find path) value)) ∧
    (p.isIdentity = true → d'.get path = .ok value) ∧
    (p.isEmpty = true → ∃ fields, value = .map fields ∧ d'.root = overlay d.root fields) ∧
    (value.Distinct → d'.set path value = ⟨d', none⟩) := by
  obtain ⟨hadmits, hchanged⟩ := (set_eq_iff hparse).1 h
  obtain ⟨hget, hcontains⟩ := get_of_descend hparse hchanged.descend_eq
  refine ⟨hcontains, fun hempty hidentity => ?_, fun hidentity => ?_, fun hempty => ?_,
    fun hdistinct => ?_⟩
  · have hfind : d.find path = d.lookup p := by
      rw [find, hparse]
      rfl
    rw [hfind, merged_lookup hempty, hget, settle, if_neg (by simp [hidentity])]
  · rw [hget, settle, if_pos hidentity]
  · have hsegments : p.segments = [] := FieldPath.isEmpty_iff.1 hempty
    have hidentity : p.isIdentity = false := by simp [FieldPath.isIdentity, hsegments]
    rw [Admits, if_neg (by simp [hidentity]), if_pos hempty] at hadmits
    obtain ⟨fields, rfl, -⟩ := hadmits
    rw [hsegments, settle, if_neg (by simp [hidentity]), changed_nil_iff] at hchanged
    exact ⟨fields, rfl, Value.map.inj hchanged⟩
  · exact (set_eq_iff hparse).2 ⟨hadmits, hchanged.again (settle_settle p hdistinct)⟩

/-- A document with a map as the second item of a list. -/
def listing (fields : List (String × Value)) : Document :=
  ⟨[("a", .list [.null, .map fields])]⟩

/-- A map is set at an item that is a map, whose position the path gives with a zero in front;
at the identity, which is another map and is not merged; and at the empty path. -/
theorem set_get_maps :
    (set (listing [("x", .int 1)]) "a.01" (.map [("z", .null), ("x", .map [])]) =
        ⟨listing [("x", .map []), ("z", .null)], none⟩ ∧
      get (listing [("x", .map []), ("z", .null)]) "a.01" =
        .ok (.map [("x", .map []), ("z", .null)]) ∧
      set (listing [("x", .map []), ("z", .null)]) "a.01" (.map [("z", .null), ("x", .map [])]) =
        ⟨listing [("x", .map []), ("z", .null)], none⟩) ∧
    get ⟨[("_id", .map [("v", .int 2)])]⟩ "'_id'" = .ok (.map [("v", .int 2)]) ∧
    ∃ fields, Value.map [("b", .null)] = .map fields ∧
      [("a", .int 1), ("b", .null)] = overlay [("a", .int 1)] fields := by
  have hparse : FieldPath.parse "a.01" = .ok ⟨[.name "a", .name "01"]⟩ := by cbv
  have hset : set (listing [("x", .int 1)]) "a.01" (.map [("z", .null), ("x", .map [])]) =
      ⟨listing [("x", .map []), ("z", .null)], none⟩ := by
    rw [set, hparse]
    rfl
  have hfind : find (listing [("x", .int 1)]) "a.01" = .ok (some (.map [("x", .int 1)])) := by
    rw [find, hparse]
    rfl
  have hdistinct : Value.Distinct (.map [("z", .null), ("x", .map [])]) := by
    simp [Value.distinct_map_iff, Value.distinct_of_scalar, Entries.keys, Value.isContainer,
      Value.isMap, Value.isList]
  have hidentity : FieldPath.parse "'_id'" = .ok ⟨[.name "_id"]⟩ := by cbv
  have hreplace : set ⟨[("_id", .map [("u", .int 1)])]⟩ "'_id'" (.map [("v", .int 2)]) =
      ⟨⟨[("_id", .map [("v", .int 2)])]⟩, none⟩ := by
    rw [set, hidentity]
    rfl
  have hempty : FieldPath.parse "" = .ok ⟨[]⟩ := by cbv
  have hmerge : set ⟨[("a", .int 1)]⟩ "" (.map [("b", .null)]) =
      ⟨⟨[("a", .int 1), ("b", .null)]⟩, none⟩ := by
    rw [set, hempty]
    rfl
  obtain ⟨-, hget, -, -, hagain⟩ := set_get hparse hset
  refine ⟨⟨hset, ?_, hagain hdistinct⟩, (set_get hidentity hreplace).2.2.1 rfl,
    (set_get hempty hmerge).2.2.2.1 rfl⟩
  rw [hget rfl rfl, hfind]
  rfl

end DocumentModel.Document

import DocumentModel.Proofs.Condition.Levels
import DocumentModel.Proofs.FieldPath.RoundTrip
import Mathlib.Data.List.Nodup

/-! The fields of element blocks at the top level.

Element blocks stand side by side under one operator, with their paths as keys. The paths are kept
as they were written, and two of them collide only if they are the same text. So a condition that
builds has no heading twice, and its keys are the paths of its element blocks in their order,
different as texts; they are different as paths exactly if no path among them is spelled in two
ways: `elementFields_of_build`. -/
namespace DocumentModel.Condition

variable {calls : List BuilderCall} {c built : Condition} {bs : List Block}

/-- The keys under the operator of element blocks. -/
def elementFields (content : Entries Value) : List String :=
  match content.get? Connective.elementAnd.key with
  | some (.map fields) => Entries.keys fields
  | _ => []

/-- The path of the element block that a call opens. -/
def BuilderCall.field? (b : BuilderCall) : Option String := b.heading?.bind Heading.field

/-- Texts of which no two are spellings of one path. -/
def SpelledOnce (fields : List String) : Prop :=
  ∀ field ∈ fields, ∀ other ∈ fields,
    FieldPath.parse field = FieldPath.parse other → field = other

/-! ### Keys and calls -/

theorem keys_elements (blocks : List Block) :
    (elements blocks).keys = blocks.filterMap (·.heading.field) := by
  induction blocks with
  | nil => rfl
  | cons b rest ih =>
    rw [elements, List.filterMap_cons, List.filterMap_cons]
    cases b.heading.field with
    | none => exact ih
    | some field => exact congrArg (field :: ·) ih

theorem elementFields_assembled (blocks : List Block) :
    elementFields (assembled blocks) = blocks.filterMap (·.heading.field) := by
  rw [← keys_elements, elementFields, get?_assembled]
  by_cases hop : Connective.elementAnd ∈ blocks.map (·.heading.op)
  · rw [if_pos hop]
    rfl
  · rw [if_neg hop, elements_eq_nil hop]
    rfl

/-- The headings of the calls at the top level are those of the blocks there. -/
theorem headings_of_blocks (h : construct calls = .ok c)
    (hblocks : callsOf (bs.map Block.clause) = c.calls) :
    (topLevel calls).filterMap BuilderCall.heading? = bs.map Block.heading := by
  have hheadings := headings_of_forest (queues_of_construct h) hblocks
  calc (topLevel calls).filterMap BuilderCall.heading?
      = ((topLevel calls).map BuilderCall.heading?).filterMap id := by
        rw [List.filterMap_map, Function.id_comp]
    _ = ((bs.map Block.clause).map Clause.heading?).filterMap id := by rw [hheadings]
    _ = bs.filterMap (some ∘ Block.heading) := by
        rw [List.map_map, List.filterMap_map]
        rfl
    _ = bs.map Block.heading := by rw [List.filterMap_eq_map]

theorem fields_of_headings (calls : List BuilderCall) :
    calls.filterMap BuilderCall.field? =
      (calls.filterMap BuilderCall.heading?).filterMap Heading.field := by
  rw [List.filterMap_filterMap]
  rfl

/-- Different headings are about different fields, if about any. -/
theorem nodup_fields {headings : List Heading} (h : headings.Nodup) :
    (headings.filterMap Heading.field).Nodup := by
  refine h.filterMap fun a b field ha hb => ?_
  cases a <;> cases ha
  cases b <;> cases hb
  rfl

/-- What builds is a predicate by itself, or blocks with different headings. -/
theorem cases_of_build (h : construct calls = .ok c) (hbuild : c.build = .ok built) :
    (∃ b, calls = [b] ∧ b.role = .adds ∧
      (b.isRaw = false → Connective.elementAnd.key ∉ built.content.keys)) ∨
    ∃ bs : List Block, callsOf (bs.map Block.clause) = c.calls ∧ (bs.map Block.heading).Nodup ∧
      built.content = assembled bs := by
  obtain ⟨forest, hforest, hcomposes, -⟩ := (build_eq_ok_iff h).1 hbuild
  have hqueue := queues_of_construct h
  rw [← hforest] at hqueue
  generalize built.content = content at hcomposes
  cases hcomposes with
  | predicate fields =>
    left
    obtain ⟨b, rest, hb, hrest, rfl⟩ := List.forall₂_cons_right_iff.1 hqueue
    obtain rfl := List.forall₂_nil_right_iff.1 hrest
    generalize hcall : Call.predicate content = call at hb
    cases hb with
    | opens => cases hcall
    | closes => cases hcall
    | adds hrole _ hnamed =>
      cases hcall
      exact ⟨b, rfl, hrole, hnamed⟩
  | blocks bs hnodup => exact .inr ⟨bs, hforest, hnodup, rfl⟩

theorem elementField_of_mem {field : String} (h : construct calls = .ok c)
    (hfield : field ∈ (topLevel calls).filterMap BuilderCall.field?) : ElementField field := by
  obtain ⟨b, hb, hheading⟩ := List.mem_filterMap.1 hfield
  refine field_of_queues (queues_of_construct h) (mem_of_mem_topLevelFrom hb) ?_
  obtain ⟨heading, hheading, hfield⟩ := Option.bind_eq_some_iff.1 hheading
  rw [BuilderCall.heading?] at hheading
  split at hheading
  · rename_i hrole
    rw [hrole]
    cases hheading
    cases heading <;> cases hfield
    rfl
  · cases hheading

/-- The keys of what builds are the paths of its element blocks, as they were written. -/
theorem elementFields_eq (h : construct calls = .ok c) (hbuild : c.build = .ok built)
    (hnamed : ∀ b ∈ topLevel calls, b.isRaw = false) :
    elementFields built.content = (topLevel calls).filterMap BuilderCall.field? := by
  rcases cases_of_build h hbuild with ⟨b, rfl, hrole, hraw⟩ | ⟨bs, hblocks, -, hcontent⟩
  · have hkey := hraw (hnamed b List.mem_cons_self)
    have hfield : b.field? = none := by
      rw [BuilderCall.field?, BuilderCall.heading?, hrole]
      rfl
    rw [elementFields, Entries.get?_of_notMem hkey]
    simp [topLevel, topLevelFrom, hfield]
  · rw [hcontent, elementFields_assembled, fields_of_headings, headings_of_blocks h hblocks,
      List.filterMap_map]
    rfl

/-- What builds has no heading twice at its top level. -/
theorem nodup_headings_of_build (h : construct calls = .ok c) (hbuild : c.build = .ok built) :
    ((topLevel calls).filterMap BuilderCall.heading?).Nodup := by
  rcases cases_of_build h hbuild with ⟨b, rfl, hrole, -⟩ | ⟨bs, hblocks, hnodup, -⟩
  · have hheading : b.heading? = none := by rw [BuilderCall.heading?, hrole]
    simp [topLevel, topLevelFrom, hheading]
  · rw [headings_of_blocks h hblocks]
    exact hnodup

theorem build_of_nodup_headings (h : construct calls = .ok c)
    (hblocks : callsOf (bs.map Block.clause) = c.calls)
    (hnodup : ((topLevel calls).filterMap BuilderCall.heading?).Nodup) :
    c.build = .ok ⟨[], assembled bs, true⟩ := by
  rw [headings_of_blocks h hblocks] at hnodup
  exact (build_eq_ok_iff h).2 ⟨_, hblocks, .blocks bs hnodup, rfl⟩

/-- **Element blocks are told apart by how their paths are written.** A condition that builds
has no heading twice at its top level, and in any other case its blocks are unbalanced; blocks
side by side always build if they have different headings. If all that stands at the top level
was added by name, the keys under the operator of element blocks are the paths of these blocks in
their order: different texts, each of a path that is not empty. They are different paths exactly
if none is spelled in two ways. -/
theorem elementFields_of_build (h : construct calls = .ok c) :
    (∀ built, c.build = .ok built →
      ((topLevel calls).filterMap BuilderCall.heading?).Nodup ∧
        ((∀ b ∈ topLevel calls, b.isRaw = false) →
          elementFields built.content = (topLevel calls).filterMap BuilderCall.field? ∧
            (elementFields built.content).Nodup ∧
            (∀ field ∈ elementFields built.content, ElementField field) ∧
            (((elementFields built.content).map FieldPath.parse).Nodup ↔
              SpelledOnce (elementFields built.content)))) ∧
    (∀ e, c.build = .error e → e.kind = .unbalancedCondition) ∧
    ∀ bs : List Block, callsOf (bs.map Block.clause) = c.calls →
      ((∃ built, c.build = .ok built) ↔
        ((topLevel calls).filterMap BuilderCall.heading?).Nodup) := by
  refine ⟨fun built hbuild => ⟨nodup_headings_of_build h hbuild, fun hnamed => ?_⟩,
    fun e he => kind_of_build_error h he, fun bs hblocks => ⟨?_, ?_⟩⟩
  · have hfields := elementFields_eq h hbuild hnamed
    have hnodup : (elementFields built.content).Nodup := by
      rw [hfields, fields_of_headings]
      exact nodup_fields (nodup_headings_of_build h hbuild)
    refine ⟨hfields, hnodup, fun field hfield => ?_, ?_⟩
    · rw [hfields] at hfield
      exact elementField_of_mem h hfield
    · exact List.nodup_map_iff_inj_on hnodup
  · rintro ⟨built, hbuild⟩
    exact nodup_headings_of_build h hbuild
  · intro hnodup
    exact ⟨_, build_of_nodup_headings h hblocks hnodup⟩

theorem elementFields_of_build_twoFields :
    ∃ c built,
      construct [.elementAnd "a.b", .existing "b", .close, .or, .close, .elementAnd "c", .close] =
        .ok c ∧
      c.build = .ok built ∧ elementFields built.content = ["a.b", "c"] ∧
      (((elementFields built.content).map FieldPath.parse).Nodup ↔
        SpelledOnce (elementFields built.content)) := by
  have hrun : construct
      [.elementAnd "a.b", .existing "b", .close, .or, .close, .elementAnd "c", .close] =
        .ok ⟨[.opening .elementAnd (some "a.b"), .predicate [("$exists", .string "b")], .closing,
          .opening .or none, .closing, .opening .elementAnd (some "c"), .closing], [], false⟩ := by
    cbv
  have hbuild : build
      ⟨[.opening .elementAnd (some "a.b"), .predicate [("$exists", .string "b")], .closing,
        .opening .or none, .closing, .opening .elementAnd (some "c"), .closing], [], false⟩ =
      .ok ⟨[], [("$elementAnd", .map [("a.b", .list [.map [("$exists", .string "b")]]),
        ("c", .list [])]), ("$or", .list [])], true⟩ := by
    rfl
  have hnamed : ∀ b ∈ topLevel
      [.elementAnd "a.b", .existing "b", .close, .or, .close, .elementAnd "c", .close],
      b.isRaw = false := by
    simp [topLevel, topLevelFrom, BuilderCall.openAfter, BuilderCall.role, BuilderCall.isRaw]
  obtain ⟨hfields, -, -, hpaths⟩ := ((elementFields_of_build hrun).1 _ hbuild).2 hnamed
  exact ⟨_, _, hrun, hbuild, hfields, hpaths⟩

/-- One path in two spellings is covered twice: two element blocks for `a` are compiled side by
side, where two blocks that are opened alike are refused. -/
theorem elementAnd_twoSpellings :
    construct [.elementAnd "a", .close, .elementAnd " a", .close] =
        .ok ⟨[.opening .elementAnd (some "a"), .closing, .opening .elementAnd (some " a"),
          .closing], [], false⟩ ∧
      build ⟨[.opening .elementAnd (some "a"), .closing, .opening .elementAnd (some " a"),
          .closing], [], false⟩ =
        .ok ⟨[], [("$elementAnd", .map [("a", .list []), (" a", .list [])])], true⟩ ∧
      FieldPath.parse "a" = FieldPath.parse " a" ∧
      ¬ ∀ (calls : List BuilderCall) (c built : Condition), construct calls = .ok c →
        (∀ b ∈ topLevel calls, b.isRaw = false) → c.build = .ok built →
          ((elementFields built.content).map FieldPath.parse).Nodup := by
  have hrun : construct [.elementAnd "a", .close, .elementAnd " a", .close] =
      .ok ⟨[.opening .elementAnd (some "a"), .closing, .opening .elementAnd (some " a"),
        .closing], [], false⟩ := by
    cbv
  have hbuild : build ⟨[.opening .elementAnd (some "a"), .closing,
      .opening .elementAnd (some " a"), .closing], [], false⟩ =
        .ok ⟨[], [("$elementAnd", .map [("a", .list []), (" a", .list [])])], true⟩ := by
    rfl
  have hparse : FieldPath.parse "a" = FieldPath.parse " a" := by cbv
  refine ⟨hrun, hbuild, hparse, fun hall => ?_⟩
  have hnamed : ∀ b ∈ topLevel [.elementAnd "a", .close, .elementAnd " a", .close],
      b.isRaw = false := by
    simp [topLevel, topLevelFrom, BuilderCall.openAfter, BuilderCall.role, BuilderCall.isRaw]
  have hnodup := hall _ _ _ hrun hnamed hbuild
  simp [elementFields, Entries.get?, Entries.keys, Connective.key, hparse] at hnodup

end DocumentModel.Condition

import DocumentModel.Proofs.Merge.Combine
import DocumentModel.Query.Basic

/-! Queries with two filters.

The filter of a later call is combined with that of an earlier one. Operators that only one of
them has keep their clauses. Under an operator that both have, the later clauses come in one by
one, and a clause that shares a key with one that is there is folded into it
(`clausesUnder_combine`). So the clauses of both stand one after the other exactly if none takes
another, and if no clause stands there twice, that is also exactly when none is lost:
`filter_filter_clauses_iff`. -/
namespace DocumentModel.Query
open Merge (combine combineValue combineLists combineValue_none combine_single get?_combine
  SideBySide combineLists_eq_append_iff forall_mem_combineLists_iff)

/-! ### Blocks of clauses -/

/-- A filter of blocks: what stands under an operator is the list of its clauses. -/
def OfBlocks (filter : Entries Value) : Prop :=
  ∀ op body, filter.get? op = some body → ∃ clauses, body = .list clauses

/-- The clauses under an operator of a filter. -/
def clausesUnder (filter : Entries Value) (op : String) : List Value :=
  match filter.get? op with
  | some (.list clauses) => clauses
  | _ => []

theorem clausesUnder_of_get? {filter : Entries Value} {op : String} {clauses : List Value}
    (h : filter.get? op = some (.list clauses)) : clausesUnder filter op = clauses := by
  rw [clausesUnder, h]

theorem clausesUnder_of_notMem {filter : Entries Value} {op : String} (h : op ∉ filter.keys) :
    clausesUnder filter op = [] := by
  rw [clausesUnder, Entries.get?_of_notMem h]

theorem OfBlocks.get?_of_mem {filter : Entries Value} (h : OfBlocks filter) {op : String}
    (hmem : op ∈ filter.keys) : filter.get? op = some (.list (clausesUnder filter op)) := by
  obtain ⟨body, hbody⟩ := Option.isSome_iff_exists.1 ((Entries.isSome_get?_iff filter op).2 hmem)
  obtain ⟨clauses, rfl⟩ := h op body hbody
  rw [clausesUnder, hbody]

/-! ### Two filters combined -/

section
variable {earlier later : Entries Value}

/-- Under an operator that a filter has already, the clauses that come in are folded into those
that are there, and under any other operator they stay as they are. -/
theorem clausesUnder_combine (hearlier : OfBlocks earlier) (hlater : OfBlocks later)
    (hnodup : later.keys.Nodup) (op : String) :
    clausesUnder (combine earlier later) op =
      if op ∈ earlier.keys then combineLists (clausesUnder earlier op) (clausesUnder later op)
      else clausesUnder later op := by
  have hget := get?_combine earlier hnodup op
  by_cases hop : op ∈ later.keys
  · rw [hlater.get?_of_mem hop] at hget
    by_cases hmem : op ∈ earlier.keys
    · rw [hearlier.get?_of_mem hmem] at hget
      rw [if_pos hmem]
      exact clausesUnder_of_get? (by simpa only [combineValue] using hget)
    · rw [Entries.get?_of_notMem hmem] at hget
      rw [if_neg hmem]
      exact clausesUnder_of_get? (by simpa only [combineValue_none] using hget)
  · rw [Entries.get?_of_notMem hop] at hget
    rw [clausesUnder_of_notMem hop, combineLists, clausesUnder, hget, ← clausesUnder]
    split
    · rfl
    · next hmem => exact clausesUnder_of_notMem hmem

/-- No clause of the later filter is folded into another under an operator: the operator is new,
or no clause is taken by one in front of it. -/
def NoneFolded (earlier later : Entries Value) (op : String) : Prop :=
  op ∈ earlier.keys → SideBySide (clausesUnder earlier op) (clausesUnder later op)

theorem clausesUnder_combine_eq_append_iff (hearlier : OfBlocks earlier)
    (hlater : OfBlocks later) (hnodup : later.keys.Nodup) (op : String) :
    clausesUnder (combine earlier later) op =
        clausesUnder earlier op ++ clausesUnder later op ↔ NoneFolded earlier later op := by
  rw [clausesUnder_combine hearlier hlater hnodup]
  split
  · next hmem => rw [combineLists_eq_append_iff, NoneFolded, imp_iff_right hmem]
  · next hmem =>
    rw [clausesUnder_of_notMem hmem, List.nil_append]
    exact iff_of_true rfl fun h => absurd h hmem

theorem forall_mem_clausesUnder_combine_iff (hearlier : OfBlocks earlier)
    (hlater : OfBlocks later) (hnodup : later.keys.Nodup) {op : String}
    (hclauses : (clausesUnder earlier op ++ clausesUnder later op).Nodup) :
    (∀ clause ∈ clausesUnder earlier op ++ clausesUnder later op,
      clause ∈ clausesUnder (combine earlier later) op) ↔ NoneFolded earlier later op := by
  rw [clausesUnder_combine hearlier hlater hnodup]
  split
  · next hmem => rw [forall_mem_combineLists_iff hclauses, NoneFolded, imp_iff_right hmem]
  · next hmem =>
    rw [clausesUnder_of_notMem hmem, List.nil_append]
    exact iff_of_true (fun _ h => h) fun h => absurd h hmem

end

/-! ### Filters -/

variable {q : Query} {c c₁ c₂ : Condition}

theorem filter_eq_ok (hbuilt : c.built = true) (hne : c.content ≠ []) :
    q.filter c = .ok (q.contribute .filter (.map c.content)) := by
  rw [filter, if_pos hbuilt, filterMap, if_neg (by simpa using hne)]

/-- Two filters are combined into one. -/
theorem filter_filter (hbuilt₁ : c₁.built = true) (hbuilt₂ : c₂.built = true)
    (hne₁ : c₁.content ≠ []) (hne₂ : c₂.content ≠ []) :
    (do (← empty.filter c₁).filter c₂) =
      .ok ⟨[(ClauseName.filter.key, .map (combine c₁.content c₂.content))], false⟩ := by
  have hfirst : empty.contribute .filter (.map c₁.content) =
      ⟨[(ClauseName.filter.key, .map c₁.content)], false⟩ := by
    rw [contribute, empty, combine_single, Entries.get?, combineValue_none, Entries.insert]
  have hsecond : contribute ⟨[(ClauseName.filter.key, .map c₁.content)], false⟩ .filter
      (.map c₂.content) =
        ⟨[(ClauseName.filter.key, .map (combine c₁.content c₂.content))], false⟩ := by
    rw [contribute, combine_single, Entries.get?, if_pos rfl, combineValue, Entries.insert,
      if_pos rfl]
  rw [filter_eq_ok hbuilt₁ hne₁, hfirst]
  show Query.filter _ c₂ = _
  rw [filter_eq_ok hbuilt₂ hne₂, hsecond]

/-- **The clauses of two filters stand one after the other exactly if none is folded into
another.** Filters of blocks can be given to a query in two calls, and the query holds one filter
then. Under each operator it has the clauses of both as they were, those of the later filter
last, if no clause of the later filter shares a key with one in front of it. Otherwise, and
unless some clause stands there twice, at least one of them is lost. -/
theorem filter_filter_clauses_iff (hbuilt₁ : c₁.built = true) (hbuilt₂ : c₂.built = true)
    (hne₁ : c₁.content ≠ []) (hne₂ : c₂.content ≠ []) (hblocks₁ : OfBlocks c₁.content)
    (hblocks₂ : OfBlocks c₂.content) (hnodup : c₂.content.keys.Nodup) :
    ∃ w, (do (← empty.filter c₁).filter c₂) =
        .ok ⟨[(ClauseName.filter.key, .map w)], false⟩ ∧
      ∀ op,
        (clausesUnder w op = clausesUnder c₁.content op ++ clausesUnder c₂.content op ↔
          NoneFolded c₁.content c₂.content op) ∧
        ((clausesUnder c₁.content op ++ clausesUnder c₂.content op).Nodup →
          ((∀ clause ∈ clausesUnder c₁.content op ++ clausesUnder c₂.content op,
            clause ∈ clausesUnder w op) ↔ NoneFolded c₁.content c₂.content op)) := by
  refine ⟨_, filter_filter hbuilt₁ hbuilt₂ hne₁ hne₂, fun op => ⟨?_, fun hclauses => ?_⟩⟩
  · exact clausesUnder_combine_eq_append_iff hblocks₁ hblocks₂ hnodup op
  · exact forall_mem_clausesUnder_combine_iff hblocks₁ hblocks₂ hnodup hclauses

/-- A block with one test of one field. -/
def testOf (test : FieldTest) (path : String) : Condition :=
  ⟨[], [(Connective.and.key, .list [.map [(test.key, .string path)]])], true⟩

theorem ofBlocks_testOf (test : FieldTest) (path : String) :
    OfBlocks (testOf test path).content := by
  intro op body h
  rw [testOf, Entries.get?, Entries.get?] at h
  split at h <;> cases h
  exact ⟨_, rfl⟩

/-- Tests of different kinds stand side by side, even for one field. -/
theorem filter_filter_clauses_iff_kinds :
    ∃ w, (do (← empty.filter (testOf .exist "a")).filter (testOf .notExist "a")) =
        .ok ⟨[("$where", .map w)], false⟩ ∧
      clausesUnder w "$and" =
        [.map [("$exists", .string "a")], .map [("$notexists", .string "a")]] := by
  have hbuilt : ∀ test, (testOf test "a").built = true := fun _ => rfl
  have hne : ∀ test, (testOf test "a").content ≠ [] := fun _ => nofun
  have hclauses : ∀ test, clausesUnder (testOf test "a").content "$and" =
      [.map [(test.key, .string "a")]] := fun _ => rfl
  have hnodup : (testOf .notExist "a").content.keys.Nodup := by decide
  have hfree : NoneFolded (testOf .exist "a").content (testOf .notExist "a").content "$and" := by
    intro _
    rw [hclauses, hclauses]
    refine ⟨?_, List.pairwise_singleton ..⟩
    intro held hheld clause hclause
    rw [List.mem_singleton.1 hheld, List.mem_singleton.1 hclause]
    rfl
  obtain ⟨w, hw, hiff⟩ := filter_filter_clauses_iff (hbuilt .exist) (hbuilt .notExist)
    (hne .exist) (hne .notExist) (ofBlocks_testOf .exist "a") (ofBlocks_testOf .notExist "a") hnodup
  exact ⟨w, hw, (hiff "$and").1.2 hfree⟩

/-- Of two tests of one kind the first is lost: the query is left with the filter of the second
call alone. -/
theorem filter_filter_loses_clause :
    (Condition.empty.and.existing "a").close.build = .ok (testOf .exist "a") ∧
    (Condition.empty.and.existing "b").close.build = .ok (testOf .exist "b") ∧
    (do (← empty.filter (testOf .exist "a")).filter (testOf .exist "b")) =
      .ok ⟨[("$where", .map (testOf .exist "b").content)], false⟩ ∧
    .map [("$exists", .string "a")] ∈ clausesUnder (testOf .exist "a").content "$and" ∧
    .map [("$exists", .string "a")] ∉ clausesUnder (testOf .exist "b").content "$and" := by
  have hbuild : ∀ path : String,
      (Condition.empty.and.existing path).close.build = .ok (testOf .exist path) := fun _ => rfl
  have hclauses : ∀ path : String, clausesUnder (testOf .exist path).content "$and" =
      [.map [("$exists", .string path)]] := fun _ => rfl
  refine ⟨hbuild "a", hbuild "b", filter_filter rfl rfl nofun nofun, ?_, ?_⟩
  · rw [hclauses]
    exact List.mem_singleton_self _
  · rw [hclauses]
    simp

end DocumentModel.Query

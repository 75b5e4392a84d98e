import DocumentModel.Proofs.Query.Contributions
import DocumentModel.Proofs.Query.Filters
import DocumentModel.Proofs.Query.Paging

/-! What a run of calls makes of a query.

A call that is granted contributes to clauses, takes clauses away or does neither
(`follows_of_contributions?`), and one that is refused fails (`apply_of_no_contributions?`). A
contribution stands as long as no later call takes its clause away, and the query tells the
contributions that stand: `run_tells_clauses`. -/
namespace DocumentModel.Query
open Merge (combineValue combine_single)

/-! ### Calls -/

/-- A call that builds a query. -/
inductive Call
  | select (fields : List String)
  | filter (condition : Condition)
  | filterMap (condition : Entries Value)
  | orderBy (order : SortDirection) (fields : List String)
  | offset (n : Int64)
  | limit (n : Int64)
  | page (p : Page)
  | without (clause : ClauseName)
  | clear
  | build

/-- The query that a call makes of one. -/
def Call.apply (q : Query) : Call → Except Error Query
  | .select fields => .ok (q.select fields)
  | .filter condition => q.filter condition
  | .filterMap condition => q.filterMap condition
  | .orderBy order fields => .ok (q.orderBy order fields)
  | .offset n => q.offset n
  | .limit n => q.limit n
  | .page p => q.page p
  | .without clause => .ok (q.without clause)
  | .clear => .ok q.clear
  | .build => .ok q.build

/-- What stands after a call. One that fails leaves the query as it was. -/
def after (q : Query) (call : Call) : Query :=
  match call.apply q with
  | .ok q' => q'
  | .error _ => q

/-- The query that calls build, from the one without clauses. -/
def run (calls : List Call) : Query := calls.foldl after empty

/-! ### What calls contribute -/

namespace Call

/-- What a call contributes, which may be nothing, if it is granted. Conditions must be built and have
clauses, counts must not be negative, and pages must fit. -/
def contributions? : Call → Option (List Contribution)
  | .select fields => some (if fields.isEmpty then [] else [⟨.select, fields⟩])
  | .filter condition =>
    if condition.built && !condition.content.isEmpty then some [⟨.filter, condition.content⟩]
    else none
  | .filterMap condition => if condition.isEmpty then none else some [⟨.filter, condition⟩]
  | .orderBy order fields => some (if fields.isEmpty then [] else [⟨.orderBy, (order, fields)⟩])
  | .offset n => if h : 0 ≤ n then some [⟨.offset, n, h⟩] else none
  | .limit n => if h : 0 ≤ n then some [⟨.limit, n, h⟩] else none
  | .page p =>
    if h : p.Fits then
      some [⟨.offset, .ofNat p.start, nonneg_ofNat h.2.1⟩,
        ⟨.limit, .ofNat p.perPage.toNat, nonneg_ofNat h.2.2⟩]
    else none
  | .without _ | .clear | .build => some []

/-- What a call contributes. One that is refused contributes nothing. -/
def gives (call : Call) : List Contribution := call.contributions?.getD []

/-- The clauses that a call takes away. -/
def takes : Call → List ClauseName
  | .without clause => [clause]
  | .clear => [.select, .filter, .orderBy, .offset, .limit]
  | _ => []

end Call

/-- The contributions of calls whose clauses no later call takes away, in order. -/
def standing : List Call → List Contribution
  | [] => []
  | call :: later =>
    call.gives.filter (fun c => ∀ next ∈ later, c.clause ∉ next.takes) ++ standing later

variable {q q' : Query} {cs given : List Contribution}

/-! ### Single calls -/

theorem content_contribute (h : q.content = clauses cs) (x : ClauseName) (share : Share x)
    {value : Value} (hjoin : ∀ held, join x held share = combineValue held value) :
    (q.contribute x value).content = clauses (cs ++ [⟨x, share⟩]) := by
  rw [contribute, combine_single, h, clauses_concat, hjoin]

theorem content_of_nothing (h : q.content = clauses cs) : q.content = clauses (cs ++ []) := by
  rw [List.append_nil, h]

theorem content_select (h : q.content = clauses cs) (fields : List String) :
    (q.select fields).content =
      clauses (cs ++ if fields.isEmpty then [] else [⟨.select, fields⟩]) := by
  rw [select]
  cases fields.isEmpty with
  | true => exact content_of_nothing h
  | false => exact content_contribute h .select fields fun _ => rfl

theorem content_orderBy (h : q.content = clauses cs) (order : SortDirection)
    (fields : List String) :
    (q.orderBy order fields).content =
      clauses (cs ++ if fields.isEmpty then [] else [⟨.orderBy, (order, fields)⟩]) := by
  rw [orderBy]
  cases fields.isEmpty with
  | true => exact content_of_nothing h
  | false =>
    show q.content.insert _ _ = clauses (cs ++ [⟨.orderBy, (order, fields)⟩])
    rw [clauses_concat, h]
    rfl

/-- A call succeeds, and the clauses of the query lose what the call takes away and gain what is
given. -/
def Follows (q : Query) (call : Call) (given : List Contribution) : Prop :=
  ∃ q', call.apply q = .ok q' ∧ ∀ cs, q.content = clauses cs →
    q'.content = clauses (cs.filter (·.clause ∉ call.takes) ++ given)

theorem filter_of_takes_nothing {call : Call} (h : call.takes = []) (cs : List Contribution) :
    cs.filter (·.clause ∉ call.takes) = cs := by
  simp [h]

theorem follows_of_takes_nothing {call : Call} (htakes : call.takes = [])
    (hdone : call.apply q = .ok q')
    (hcontent : ∀ cs, q.content = clauses cs → q'.content = clauses (cs ++ given)) :
    Follows q call given := by
  refine ⟨q', hdone, fun cs hq => ?_⟩
  rw [filter_of_takes_nothing htakes]
  exact hcontent cs hq

/-- A call that is granted gives its contributions. -/
theorem follows_of_contributions? (q : Query) {call : Call} (h : call.contributions? = some given) :
    Follows q call given := by
  cases call with
  | select fields =>
    cases h
    exact follows_of_takes_nothing rfl rfl fun cs hq => content_select hq fields
  | filter condition =>
    rw [Call.contributions?] at h
    split at h <;> cases h
    next haccepted =>
    obtain ⟨hbuilt, hne⟩ : condition.built = true ∧ condition.content ≠ [] := by
      simpa using haccepted
    exact follows_of_takes_nothing rfl (filter_eq_ok hbuilt hne) fun cs hq =>
      content_contribute hq _ _ fun _ => rfl
  | filterMap condition =>
    rw [Call.contributions?] at h
    split at h <;> cases h
    next hne =>
    exact follows_of_takes_nothing rfl (if_neg hne) fun cs hq => content_contribute hq _ _ fun _ => rfl
  | orderBy order fields =>
    cases h
    exact follows_of_takes_nothing rfl rfl fun cs hq => content_orderBy hq order fields
  | offset n | limit n =>
    rw [Call.contributions?] at h
    split at h <;> cases h
    next hnonneg =>
    exact follows_of_takes_nothing rfl (count_of_nonneg hnonneg) fun cs hq =>
      content_contribute hq _ _ fun _ => rfl
  | page p =>
    rw [Call.contributions?] at h
    split at h <;> cases h
    next hfits =>
    refine follows_of_takes_nothing rfl (page_of_fits hfits) fun cs hq => ?_
    have hoffset := content_contribute hq .offset ⟨.ofNat p.start, nonneg_ofNat hfits.2.1⟩
      fun _ => rfl
    have hlimit := content_contribute hoffset .limit
      ⟨.ofNat p.perPage.toNat, nonneg_ofNat hfits.2.2⟩ fun _ => rfl
    rwa [List.append_assoc] at hlimit
  | without clause =>
    cases h
    refine ⟨_, rfl, fun cs hq => ?_⟩
    have hone : cs.filter (·.clause ∉ [clause]) = cs.filter (·.clause ≠ clause) := by simp
    rw [List.append_nil]
    show q.content.erase clause.key = clauses (cs.filter (·.clause ∉ [clause]))
    rw [hq, erase_clauses, hone]
  | clear =>
    cases h
    refine ⟨_, rfl, fun cs _ => ?_⟩
    have hnone : cs.filter (·.clause ∉ Call.clear.takes) = [] := by
      refine List.filter_eq_nil_iff.2 fun c _ => ?_
      cases c.clause <;> simp [Call.takes]
    rw [hnone]
    rfl
  | build =>
    cases h
    exact follows_of_takes_nothing rfl rfl fun cs hq => content_of_nothing hq

/-- A call that is refused fails, and is none that takes clauses away. -/
theorem apply_of_no_contributions? (q : Query) {call : Call} (h : call.contributions? = none) :
    call.takes = [] ∧ ∃ e, call.apply q = .error e := by
  cases call with
  | filter condition =>
    rw [Call.contributions?] at h
    split at h <;> cases h
    next hrefused =>
    refine ⟨rfl, ?_⟩
    rw [Call.apply, Query.filter, Query.filterMap]
    split
    · next hbuilt =>
      have hempty : condition.content.isEmpty = true := by simpa [hbuilt] using hrefused
      exact ⟨_, if_pos hempty⟩
    · exact ⟨_, rfl⟩
  | filterMap condition =>
    rw [Call.contributions?] at h
    split at h <;> cases h
    next hempty => exact ⟨rfl, _, if_pos hempty⟩
  | offset n | limit n =>
    rw [Call.contributions?] at h
    split at h <;> cases h
    next hneg =>
    obtain ⟨e, hfail, -⟩ := count_of_neg hneg
    exact ⟨rfl, e, hfail⟩
  | page p =>
    rw [Call.contributions?] at h
    split at h <;> cases h
    next hfits =>
    obtain ⟨e, hfail, -⟩ := page_of_not_fits hfits
    exact ⟨rfl, e, hfail⟩
  | _ => cases h

theorem apply_isOk_iff (q : Query) (call : Call) :
    (∃ q', call.apply q = .ok q') ↔ call.contributions?.isSome = true := by
  cases hgiven : call.contributions? with
  | none =>
    obtain ⟨-, e, hfail⟩ := apply_of_no_contributions? q hgiven
    simp [hfail]
  | some given =>
    obtain ⟨q', hdone, -⟩ := follows_of_contributions? q hgiven
    simp [hdone]

theorem content_after (h : q.content = clauses cs) (call : Call) :
    (after q call).content = clauses (cs.filter (·.clause ∉ call.takes) ++ call.gives) := by
  rw [after, Call.gives]
  cases hgiven : call.contributions? with
  | none =>
    obtain ⟨htakes, e, hfail⟩ := apply_of_no_contributions? q hgiven
    rw [hfail, filter_of_takes_nothing htakes]
    exact content_of_nothing h
  | some given =>
    obtain ⟨q', hdone, hcontent⟩ := follows_of_contributions? q hgiven
    rw [hdone]
    exact hcontent cs h

/-- A build makes a query ready, no other call does, and no call takes that back. -/
theorem built_of_apply {call : Call} (h : call.apply q = .ok q') :
    q'.built = true ↔ q.built = true ∨ call = .build := by
  cases call with
  | select fields | orderBy order fields =>
    cases h
    simp only [select, orderBy, reduceCtorEq, or_false]
    split <;> rfl
  | filter condition =>
    rw [Call.apply, Query.filter, filterMap] at h
    split at h
    · split at h <;> cases h
      simp [contribute]
    · cases h
  | filterMap condition =>
    rw [Call.apply, filterMap] at h
    split at h <;> cases h
    simp [contribute]
  | offset n | limit n =>
    simp only [Call.apply, offset, limit, count] at h
    split at h <;> cases h
    simp [contribute]
  | page p =>
    rw [Call.apply] at h
    by_cases hfits : p.Fits
    · rw [page_of_fits hfits] at h
      cases h
      simp [contribute]
    · obtain ⟨e, hfail, -⟩ := page_of_not_fits (q := q) hfits
      rw [hfail] at h
      cases h
  | without | clear =>
    cases h
    simp [without, clear]
  | build =>
    cases h
    simp [build]

/-! ### What a run does -/

theorem run_concat (calls : List Call) (call : Call) :
    run (calls ++ [call]) = after (run calls) call := by
  rw [run, List.foldl_append]
  rfl

/-- A further call takes away from what stood before it, and what it contributes stands. -/
theorem standing_concat (calls : List Call) (call : Call) :
    standing (calls ++ [call]) =
      (standing calls).filter (·.clause ∉ call.takes) ++ call.gives := by
  induction calls with
  | nil => simp [standing]
  | cons first rest ih =>
    have hfirst : first.gives.filter (fun c => ∀ next ∈ rest ++ [call], c.clause ∉ next.takes) =
        (first.gives.filter fun c => ∀ next ∈ rest, c.clause ∉ next.takes).filter
          (·.clause ∉ call.takes) := by
      rw [List.filter_filter]
      refine List.filter_congr fun c _ => ?_
      simp [or_imp, forall_and, and_comm]
    rw [List.cons_append, standing, ih, hfirst, standing, List.filter_append, List.append_assoc]

theorem content_run (calls : List Call) : (run calls).content = clauses (standing calls) := by
  induction calls using List.reverseRecOn with
  | nil => rfl
  | append_singleton calls call ih => rw [run_concat, standing_concat, content_after ih]

theorem built_run_iff (calls : List Call) : (run calls).built = true ↔ .build ∈ calls := by
  induction calls using List.reverseRecOn with
  | nil => simp [run, empty]
  | append_singleton calls call ih =>
    rw [run_concat, List.mem_append, List.mem_singleton, ← ih, after]
    cases hdone : call.apply (run calls) with
    | ok q' =>
      rw [eq_comm (a := Call.build)]
      exact built_of_apply hdone
    | error e =>
      have hne : Call.build ≠ call := by
        rintro rfl
        cases hdone
      simp [hne]

/-- Offsets and limits are told as counts that are not negative. -/
theorem tell_count {clause : ClauseName} (h : clause = .offset ∨ clause = .limit)
    (counts : List (Share clause)) : ∃ n : Int64, tell clause counts = .int n ∧ 0 ≤ n := by
  rcases h with rfl | rfl <;> exact ⟨_, rfl, Subtype.property _⟩

/-- **A query tells the contributions that stand.** Its clauses stand in the order of the first
contribution to each, and each tells those to it and nothing else. A call succeeds exactly if it is
granted. Offsets and limits are never negative, a clause that is taken away leaves the others as
they were and in their order, and a query can be read from its first build on, whatever is called
after it. -/
theorem run_tells_clauses (calls : List Call) :
    (run calls).content = clauses (standing calls) ∧
      (∀ (q : Query) (call : Call),
        (∃ q', call.apply q = .ok q') ↔ call.contributions?.isSome = true) ∧
      (∀ clause : ClauseName, clause = .offset ∨ clause = .limit → ∀ v,
        (run calls).content.get? clause.key = some v → ∃ n, v = .int n ∧ 0 ≤ n) ∧
      (∀ clause : ClauseName, (run (calls ++ [.without clause])).content =
        (run calls).content.filter (·.1 ≠ clause.key)) ∧
      (run (calls ++ [.clear])).content = [] ∧
      (∀ (q q' : Query) (call : Call), call.apply q = .ok q' →
        (q'.built = true ↔ q.built = true ∨ call = .build)) ∧
      ((run calls).map? = none ↔ .build ∉ calls) ∧
      (.build ∈ calls → (run calls).map? = some (run calls).content) := by
  refine ⟨content_run calls, apply_isOk_iff, fun clause hcount v hv => ?_, fun clause => ?_, ?_,
    fun q q' call => built_of_apply, ?_, fun hbuild => ?_⟩
  · rw [content_run, get?_clauses] at hv
    split at hv <;> cases hv
    exact tell_count hcount _
  · rw [run_concat]
    show (run calls).content.erase clause.key = _
    rw [content_run, Entries.erase_eq_filter (nodup_keys_clauses _)]
  · rw [run_concat]
    rfl
  · rw [← built_run_iff, map?]
    split <;> simp_all
  · rw [map?, if_pos ((built_run_iff calls).2 hbuild)]

example :
    (run [.select ["a", "a"], .limit 5, .orderBy .ascending ["x", "y"], .select ["b", "a"],
      .without .limit, .orderBy .descending ["x"], .offset (-1), .limit 7]).content =
      [("$select", .list [.string "a", .string "a", .string "b"]),
        ("$orderby", .list [.map [("x", .string "asc")], .map [("y", .string "asc")],
          .map [("x", .string "desc")]]),
        ("$limit", .int 7)] := by
  rfl

end DocumentModel.Query

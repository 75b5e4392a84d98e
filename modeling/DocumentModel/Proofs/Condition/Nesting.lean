import DocumentModel.Proofs.Condition.Levels

/-! Conditions within conditions.

The calls of a clause, compiled while some block is open, add the map of the clause to that block
and touch nothing else (`foldlM_step_calls`, by induction over clauses). A condition with one clause
at its top level is built to that very map. So it makes no difference to what is built around it
whether the built condition is added or its calls stand in its place: `build_nested`. -/
namespace DocumentModel.Condition

/-! ### The calls of a clause within a block -/

section Within
variable (content : Entries Value) (blocks predicates : Nat)

mutual

/-- The calls of a clause add its map to the innermost open block, and leave all else as it is. -/
theorem foldlM_step_calls (inner : OpenBlock) (around : List OpenBlock) : (clause : Clause) →
    clause.calls.foldlM step ⟨inner :: around, content, blocks, predicates⟩ =
      .ok ⟨{ inner with clauses := clause.render :: inner.clauses } :: around, content, blocks,
        predicates⟩
  | .predicate fields => rfl
  | .block heading clauses => by
    have hblock : OpenBlock.block ⟨heading.op, heading.field, (renderAll clauses).reverse ++ []⟩ =
        heading.block (renderAll clauses) := by
      rw [List.append_nil]
      exact Block.block_unclosed ⟨heading, clauses⟩
    rw [Clause.calls, List.foldlM_cons]
    show (callsOf clauses ++ [Call.closing]).foldlM step
      ⟨⟨heading.op, heading.field, []⟩ :: inner :: around, content, blocks, predicates⟩ = _
    rw [List.foldlM_append, foldlM_step_callsOf _ _ clauses]
    refine congrArg Except.ok ?_
    rw [hblock, Clause.render]

theorem foldlM_step_callsOf (inner : OpenBlock) (around : List OpenBlock) :
    (clauses : List Clause) →
    (callsOf clauses).foldlM step ⟨inner :: around, content, blocks, predicates⟩ =
      .ok ⟨{ inner with clauses := (renderAll clauses).reverse ++ inner.clauses } :: around,
        content, blocks, predicates⟩
  | [] => rfl
  | clause :: rest => by
    rw [callsOf, List.foldlM_append, foldlM_step_calls inner around clause]
    refine (foldlM_step_callsOf _ around rest).trans ?_
    rw [renderAll, List.reverse_cons, List.append_assoc, List.singleton_append]

end

end Within

theorem render_of_composes {clause : Clause} {content : Entries Value}
    (h : Composes [clause] content) : clause.render = .map content := by
  generalize hforest : [clause] = forest at h
  cases h with
  | predicate fields =>
    cases hforest
    rfl
  | blocks bs =>
    obtain ⟨b, rfl, rfl⟩ := List.map_eq_singleton_iff.1 hforest.symm
    obtain ⟨heading, clauses⟩ := b
    cases heading <;> rfl

/-- What compiles holds no key twice. -/
theorem nodup_keys_of_composes {forest : List Clause} {content : Entries Value}
    (hcalls : ∀ call ∈ callsOf forest, Queueable call) (h : Composes forest content) :
    content.keys.Nodup := by
  cases h with
  | predicate fields =>
    have hcall := hcalls (.predicate content) (List.mem_singleton_self _)
    generalize hfields : Call.predicate content = call at hcall
    cases hcall with
    | opening => cases hfields
    | predicate hdistinct =>
      cases hfields
      exact hdistinct
    | closing => cases hfields
  | blocks bs =>
    rw [assembled, Entries.keys_tabulate]
    exact (Entries.nodup_eraseDups _).map fun _ _ h => key_inj h

/-! ### Calls put together -/

/-- Calls of the builder do to every condition what they do to the empty one. -/
theorem foldlM_apply (c : Condition) (calls : List BuilderCall) :
    calls.foldlM BuilderCall.apply c =
      (construct calls).map fun e => { c with calls := c.calls ++ e.calls } := by
  induction calls generalizing c with
  | nil =>
    show Except.ok c = Except.ok { c with calls := c.calls ++ [] }
    rw [List.append_nil]
  | cons b rest ih =>
    rw [construct, List.foldlM_cons, List.foldlM_cons, apply_eq_map]
    cases b.apply empty with
    | error e => rfl
    | ok e =>
      show rest.foldlM BuilderCall.apply { c with calls := c.calls ++ e.calls } =
        (rest.foldlM BuilderCall.apply e).map _
      rw [ih, ih e]
      cases construct rest with
      | error e' => rfl
      | ok d =>
        refine congrArg Except.ok ?_
        simp only [List.append_assoc]

/-- Runs of the builder that succeed do so one behind the other, with one queue behind the
other. -/
theorem construct_append_eq_ok_iff {xs ys : List BuilderCall} {c : Condition} :
    construct (xs ++ ys) = .ok c ↔
      ∃ d e, construct xs = .ok d ∧ construct ys = .ok e ∧
        c = ⟨d.calls ++ e.calls, [], false⟩ := by
  rw [construct, List.foldlM_append, bind_eq_ok_iff]
  constructor
  · rintro ⟨d, hd, hrest⟩
    rw [foldlM_apply] at hrest
    obtain ⟨e, he, rfl⟩ := map_eq_ok_iff.1 hrest
    obtain ⟨hbuilt, hcontent, -⟩ := waiting_of_construct hd
    refine ⟨d, e, hd, he, ?_⟩
    rw [hbuilt, hcontent]
  · rintro ⟨d, e, hd, he, rfl⟩
    obtain ⟨hbuilt, hcontent, -⟩ := waiting_of_construct hd
    refine ⟨d, hd, ?_⟩
    rw [foldlM_apply, he, ← hbuilt, ← hcontent]
    rfl

/-- Calls compile the same if some in the middle do wherever compiling comes to them. -/
theorem compile_congr {before middle other after : List Call}
    (h : ∀ p, before.foldlM step ⟨[], [], 0, 0⟩ = .ok p →
      middle.foldlM step p = other.foldlM step p) :
    compile [] (before ++ middle ++ after) = compile [] (before ++ other ++ after) := by
  rw [compile, compile, List.foldlM_append, List.foldlM_append, List.foldlM_append,
    List.foldlM_append]
  cases hrun : before.foldlM step ⟨[], [], 0, 0⟩ with
  | error imbalance => rfl
  | ok p =>
    show (((middle.foldlM step p) >>= _) >>= _) = (((other.foldlM step p) >>= _) >>= _)
    rw [h p hrun]

/-! ### Conditions with one clause -/

/-- A condition that builds and has one call at its top level is one clause, and holds its map. -/
theorem clause_of_build {calls : List BuilderCall} {c built : Condition}
    (h : construct calls = .ok c) (hone : (topLevel calls).length = 1)
    (hbuild : c.build = .ok built) :
    built.built = true ∧ ∃ clause : Clause,
      clause.calls = c.calls ∧ clause.render = .map built.content ∧ built.content.keys.Nodup := by
  obtain ⟨forest, hforest, hcomposes, hbuilt⟩ := (build_eq_ok_iff h).1 hbuild
  have hlength : forest.length = 1 := by
    have hheadings := congrArg List.length (headings_of_forest (queues_of_construct h) hforest)
    rw [List.length_map, List.length_map, hone] at hheadings
    exact hheadings.symm
  obtain ⟨clause, rfl⟩ := List.length_eq_one_iff.1 hlength
  refine ⟨by rw [hbuilt], clause, ?_, render_of_composes hcomposes, ?_⟩
  · rw [← hforest, callsOf, callsOf, List.append_nil]
  · refine nodup_keys_of_composes ?_ hcomposes
    rw [hforest]
    exact (waiting_of_construct h).calls

/-- **A condition that is added and its calls in its place are the same.** Where some block is
open, a built condition with one item at its top level may be added, or the calls that made it may
stand there: both are runs of the builder that build the same condition, or fail alike because
their blocks are unbalanced. -/
theorem build_nested {before inner after : List BuilderCall} {outer c built : Condition}
    (houter : construct (before ++ after) = .ok outer) (hopen : 0 < openBlocks before)
    (hinner : construct inner = .ok c) (hone : (topLevel inner).length = 1)
    (hbuild : c.build = .ok built) :
    ∃ distinct : built.content.keys.Nodup, ∃ nested inline,
      construct (before ++ .addCondition built distinct :: after) = .ok nested ∧
        construct (before ++ inner ++ after) = .ok inline ∧
        nested.build = inline.build ∧
        ∀ e, nested.build = .error e → e.kind = .unbalancedCondition := by
  obtain ⟨hbuilt, clause, hcalls, hrender, distinct⟩ := clause_of_build hinner hone hbuild
  obtain ⟨start, rest, hstart, hrest, -⟩ := construct_append_eq_ok_iff.1 houter
  have hadd : construct [.addCondition built distinct] =
      .ok ⟨[.predicate built.content], [], false⟩ := by
    show (BuilderCall.addCondition built distinct).apply empty >>= _ = _
    rw [BuilderCall.apply, addCondition, if_pos hbuilt]
    rfl
  have hnested : construct (before ++ [.addCondition built distinct] ++ after) =
      .ok ⟨start.calls ++ [.predicate built.content] ++ rest.calls, [], false⟩ :=
    construct_append_eq_ok_iff.2
      ⟨_, rest, construct_append_eq_ok_iff.2 ⟨start, _, hstart, hadd, rfl⟩, hrest, rfl⟩
  have hinline : construct (before ++ inner ++ after) =
      .ok ⟨start.calls ++ clause.calls ++ rest.calls, [], false⟩ := by
    rw [hcalls]
    exact construct_append_eq_ok_iff.2
      ⟨_, rest, construct_append_eq_ok_iff.2 ⟨start, c, hstart, hinner, rfl⟩, hrest, rfl⟩
  have hcompile : compile [] (start.calls ++ [.predicate built.content] ++ rest.calls) =
      compile [] (start.calls ++ clause.calls ++ rest.calls) := by
    refine compile_congr fun p hrun => ?_
    -- Some block is open where compiling comes to the clause, so the top level stays as it is.
    obtain ⟨opened, content, blocks, predicates⟩ := p
    cases opened with
    | nil => simp [← length_opened hstart hrun] at hopen
    | cons block around =>
      rw [foldlM_step_calls, hrender]
      rfl
  rw [List.append_assoc, List.singleton_append] at hnested
  refine ⟨distinct, _, _, hnested, hinline, ?_, fun e he => kind_of_build_error hnested he⟩
  rw [build_of_construct hnested, build_of_construct hinline, hcompile]

theorem build_nested_elementBlock :
    ∃ outer c built,
      construct ([.and, .notExisting "x"] ++ [.close]) = .ok outer ∧
      0 < openBlocks [.and, .notExisting "x"] ∧
      construct [.elementAnd "a", .or, .existing "b", .close, .close] = .ok c ∧
      (topLevel [.elementAnd "a", .or, .existing "b", .close, .close]).length = 1 ∧
      c.build = .ok built ∧
      ∃ distinct : built.content.keys.Nodup, ∃ nested inline,
        construct ([.and, .notExisting "x"] ++ .addCondition built distinct :: [.close]) =
            .ok nested ∧
          construct ([.and, .notExisting "x"] ++
            [.elementAnd "a", .or, .existing "b", .close, .close] ++ [.close]) = .ok inline ∧
          nested.build = inline.build ∧
          ∀ e, nested.build = .error e → e.kind = .unbalancedCondition := by
  have hinner : construct [.elementAnd "a", .or, .existing "b", .close, .close] =
      .ok ⟨[.opening .elementAnd (some "a"), .opening .or none, .predicate [("$exists", .string "b")],
        .closing, .closing], [], false⟩ := by
    cbv
  have hbuild : build ⟨[.opening .elementAnd (some "a"), .opening .or none,
      .predicate [("$exists", .string "b")], .closing, .closing], [], false⟩ =
        .ok ⟨[], [("$elementAnd", .map [("a", .list [.map [("$or",
          .list [.map [("$exists", .string "b")]])]])])], true⟩ := by
    rfl
  exact ⟨_, _, _, rfl, by decide, hinner, rfl, hbuild,
    build_nested rfl (by decide) hinner rfl hbuild⟩

end DocumentModel.Condition

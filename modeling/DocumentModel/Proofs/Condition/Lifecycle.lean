import DocumentModel.Proofs.Condition.Builder
import DocumentModel.Proofs.Wire.Decoded
import DocumentModel.Query.Basic
import Mathlib.Data.List.Induction

/-! Conditions between calls, builds and uses.

Calls and builds may come in any order, and one that fails leaves the condition as it was. Calls
wait in the queue until the first build that succeeds (`FirstBuild`), which compiles them. What is
called after it waits for good: the content stays, and no build compiles the rest
(`run_of_firstBuild`).

Each use of a condition asks whether it was built and then looks at the content alone. So a
condition is accepted exactly if some build succeeded, and it tells the calls up to the first of
these and none of those behind it: `accepts_run_iff`. From one state to the other there is a single
step, that build, and none back; a build that comes later says whether anything was called after it:
`run_builds_once`. -/
namespace DocumentModel.Condition

/-! ### Runs -/

/-- What is done to a condition on its way. -/
inductive Action
  | call (b : BuilderCall)
  | build

/-- The condition that an action makes of one. -/
def Action.apply (c : Condition) : Action → Except Error Condition
  | .call b => b.apply c
  | .build => c.build

/-- What stands after an action. One that fails leaves the condition as it was. -/
def after (c : Condition) (action : Action) : Condition :=
  match action.apply c with
  | .ok c' => c'
  | .error _ => c

/-- The condition that actions make of the empty one. -/
def run (actions : List Action) : Condition := actions.foldl after empty

/-- The calls that an action queues: one, for a call of the builder that succeeds. -/
def Action.queues : Action → List Call
  | .call b => (after empty (.call b)).calls
  | .build => []

/-- The calls that actions queue, whether they are compiled later or not. -/
def queued (actions : List Action) : List Call := actions.flatMap Action.queues

/-- The first build that succeeds, between the actions in front of it and those behind it. -/
structure FirstBuild (actions before later : List Action) (content : Entries Value) : Prop where
  split : actions = before ++ .build :: later
  unbuilt : (run before).built = false
  compiled : compile [] (queued before) = .ok content

/-! ### Single actions -/

variable {c : Condition} {actions before later : List Action} {content : Entries Value}

/-- A call of the builder does to every condition what it does to the empty one. -/
theorem apply_eq_map (c : Condition) (b : BuilderCall) :
    b.apply c = (b.apply empty).map fun e => { c with calls := c.calls ++ e.calls } := by
  cases b with
  | elementAnd path =>
    rw [BuilderCall.apply, BuilderCall.apply, elementAnd, elementAnd]
    cases FieldPath.parse path with
    | error e => rfl
    | ok p =>
      show (if p.isEmpty then _ else _) = Except.map _ (if p.isEmpty then _ else _)
      cases p.isEmpty <;> rfl
  | addCondition other distinct =>
    rw [BuilderCall.apply, BuilderCall.apply, addCondition, addCondition]
    cases other.built <;> rfl
  | _ => rfl

/-- A call of the builder adds to the queue, and that is all it does. -/
theorem after_call (c : Condition) (b : BuilderCall) :
    after c (.call b) = { c with calls := c.calls ++ (Action.call b).queues } := by
  rw [Action.queues, after, after, Action.apply, Action.apply, apply_eq_map c b]
  cases b.apply empty with
  | ok e => rfl
  | error e =>
    show c = { c with calls := c.calls ++ [] }
    rw [List.append_nil]

/-- A build leaves a condition that is built as it is, whether it succeeds or not. -/
theorem after_build_of_built (h : c.built = true) : after c .build = c := by
  rw [after, Action.apply, build, if_pos h]
  cases c.calls.isEmpty <;> rfl

theorem after_build_of_ok (h : c.built = false) (hcompile : compile c.content c.calls = .ok content) :
    after c .build = ⟨[], content, true⟩ := by
  rw [after, Action.apply, build, if_neg (Bool.eq_false_iff.1 h), hcompile]

theorem after_build_of_error (h : c.built = false) {imbalance : Imbalance}
    (hcompile : compile c.content c.calls = .error imbalance) : after c .build = c := by
  rw [after, Action.apply, build, if_neg (Bool.eq_false_iff.1 h), hcompile]

/-- To a built condition an action adds the call that it queues, and does nothing else. -/
theorem after_of_built (h : c.built = true) (action : Action) :
    after c action = { c with calls := c.calls ++ action.queues } := by
  cases action with
  | call b => exact after_call c b
  | build =>
    rw [after_build_of_built h, Action.queues, List.append_nil]

/-! ### Runs up to the first build, and behind it -/

theorem run_concat (actions : List Action) (action : Action) :
    run (actions ++ [action]) = after (run actions) action := by
  rw [run, List.foldl_append]
  rfl

theorem queued_append (before later : List Action) :
    queued (before ++ later) = queued before ++ queued later := List.flatMap_append

theorem queued_concat (actions : List Action) (action : Action) :
    queued (actions ++ [action]) = queued actions ++ action.queues := by
  rw [queued_append, queued, queued, List.flatMap_singleton]

/-- Behind a build, calls wait and nothing else happens. -/
theorem foldl_after_of_built (h : c.built = true) (later : List Action) :
    later.foldl after c = { c with calls := c.calls ++ queued later } := by
  induction later generalizing c with
  | nil =>
    rw [queued, List.flatMap_nil, List.append_nil]
    rfl
  | cons action rest ih =>
    have hstep := after_of_built h action
    have hbuilt : (after c action).built = true := by rw [hstep, h]
    rw [List.foldl_cons, ih hbuilt, hstep, queued, queued, List.flatMap_cons, List.append_assoc]

/-- As long as no build succeeded, every call waits and nothing is compiled. -/
theorem run_of_unbuilt (h : (run actions).built = false) :
    run actions = ⟨queued actions, [], false⟩ := by
  induction actions using List.reverseRecOn with
  | nil => rfl
  | append_singleton actions action ih =>
    rw [run_concat] at h ⊢
    have hunbuilt : (run actions).built = false := by
      refine Bool.eq_false_iff.2 fun hbuilt => ?_
      rw [after_of_built hbuilt, hbuilt] at h
      cases h
    rw [ih hunbuilt] at h
    rw [ih hunbuilt, queued_concat]
    cases action with
    | call b => rw [after_call]
    | build =>
      rw [Action.queues, List.append_nil]
      cases hcompile : compile [] (queued actions) with
      | ok content =>
        rw [after_build_of_ok rfl hcompile] at h
        cases h
      | error imbalance => rw [after_build_of_error rfl hcompile]

/-- The first build that succeeds compiles the calls in front of it, and those behind it wait. -/
theorem run_of_firstBuild (h : FirstBuild actions before later content) :
    run actions = ⟨queued later, content, true⟩ := by
  obtain ⟨rfl, hunbuilt, hcompiled⟩ := h
  have hbefore := run_of_unbuilt hunbuilt
  rw [run, List.foldl_append, List.foldl_cons, ← run, hbefore, after_build_of_ok rfl hcompiled,
    foldl_after_of_built rfl, List.nil_append]

/-- A condition is built exactly if some build succeeded. -/
theorem built_run_iff :
    (run actions).built = true ↔
      ∃ before later content, FirstBuild actions before later content := by
  refine ⟨fun h => ?_, ?_⟩
  · induction actions using List.reverseRecOn with
    | nil => cases h
    | append_singleton actions action ih =>
      cases hbuilt : (run actions).built with
      | true =>
        obtain ⟨before, later, content, hfirst⟩ := ih hbuilt
        refine ⟨before, later ++ [action], content, ?_, hfirst.unbuilt, hfirst.compiled⟩
        rw [hfirst.split, List.append_assoc, List.cons_append]
      | false =>
        have hbefore := run_of_unbuilt hbuilt
        rw [run_concat, hbefore] at h
        cases action with
        | call b =>
          rw [after_call] at h
          cases h
        | build =>
          cases hcompile : compile [] (queued actions) with
          | ok content => exact ⟨actions, [], content, rfl, hbuilt, hcompile⟩
          | error imbalance =>
            rw [after_build_of_error rfl hcompile] at h
            cases h
  · rintro ⟨before, later, content, hfirst⟩
    rw [run_of_firstBuild hfirst]

/-! ### Single builds -/

/-- A build that is the first to succeed empties the queue and compiles it. -/
theorem build_eq_ok_of_unbuilt {c' : Condition} (h : c.built = false) (hbuild : c.build = .ok c') :
    ∃ content, compile c.content c.calls = .ok content ∧ c' = ⟨[], content, true⟩ := by
  rw [build, if_neg (Bool.eq_false_iff.1 h)] at hbuild
  split at hbuild
  · next content hcompile =>
    cases hbuild
    exact ⟨content, hcompile, rfl⟩
  · cases hbuild

/-- Building a built condition succeeds if no call waits, and gives it back. -/
theorem build_eq_ok_iff_of_built {c' : Condition} (h : c.built = true) :
    c.build = .ok c' ↔ c.calls = [] ∧ c' = c := by
  rw [build, if_pos h]
  cases hcalls : c.calls <;> simp [eq_comm]

theorem kind_of_build_error_of_built {e : Error} (h : c.built = true) (he : c.build = .error e) :
    e.kind = .alreadyBuilt := by
  rw [build, if_pos h] at he
  split at he <;> cases he
  rfl

theorem firstBuild_of_build {c' : Condition} (h : (run actions).built = false)
    (hbuild : (run actions).build = .ok c') (later : List Action) :
    c' = ⟨[], c'.content, true⟩ ∧
      FirstBuild (actions ++ .build :: later) actions later c'.content := by
  obtain ⟨content, hcompile, rfl⟩ := build_eq_ok_of_unbuilt h hbuild
  rw [run_of_unbuilt h] at hcompile
  exact ⟨rfl, rfl, h, hcompile⟩

/-- What makes a condition a built one is a build that succeeds. -/
theorem exists_build_of_built (h : (run actions).built = true) :
    ∃ before later c, actions = before ++ .build :: later ∧ (run before).built = false ∧
      (run before).build = .ok c := by
  obtain ⟨before, later, content, hfirst⟩ := built_run_iff.1 h
  refine ⟨before, later, ⟨[], content, true⟩, hfirst.split, hfirst.unbuilt, ?_⟩
  rw [run_of_unbuilt hfirst.unbuilt, build, if_neg Bool.false_ne_true, hfirst.compiled]

/-! ### Uses -/

/-- What a condition is used for. -/
inductive Use
  /-- Its wire form, as JSON. -/
  | wire
  /-- Its wire form, as text. -/
  | text
  /-- A clause of another condition. -/
  | clause (outer : Condition)
  /-- The filter of a query. -/
  | filter (q : Query)

namespace Use

/-- What comes of a use. -/
abbrev Outcome : Use → Type
  | .wire => Json
  | .text => String
  | .clause _ => Condition
  | .filter _ => Query

/-- What a use makes of a condition. -/
def result (c : Condition) : (use : Use) → Except Error use.Outcome
  | .wire => c.toWire
  | .text => c.toText
  | .clause outer => outer.addCondition c
  | .filter q => q.filter c

/-- Whether a use takes a condition as one that is built: it succeeds, or fails for what the
content is. -/
def Accepts (use : Use) (c : Condition) : Prop :=
  ∀ e, use.result c = .error e → e.kind ≠ .notBuilt ∧ e.kind ≠ .alreadyBuilt

/-- A use looks at the content of a built condition, and not at what waits. -/
theorem result_of_built (use : Use) (calls : List Call) (content : Entries Value) :
    use.result ⟨calls, content, true⟩ = use.result ⟨[], content, true⟩ := by
  cases use <;> rfl

/-- A use refuses a condition that is not built. -/
theorem result_of_unbuilt (use : Use) (h : c.built = false) :
    ∃ e, use.result c = .error e ∧ e.kind = .notBuilt := by
  have hbuilt := Bool.eq_false_iff.1 h
  have hwire : ∃ e, c.toWire = .error e ∧ e.kind = .notBuilt := ⟨_, if_neg hbuilt, rfl⟩
  cases use with
  | wire => exact hwire
  | text =>
    obtain ⟨e, he, hkind⟩ := hwire
    refine ⟨e, ?_, hkind⟩
    rw [result, toText, he]
    rfl
  | clause outer => exact ⟨_, if_neg hbuilt, rfl⟩
  | filter q => exact ⟨_, if_neg hbuilt, rfl⟩

/-- What makes a use fail for a built condition is its content: a number without a wire form, or
that it has no clauses. -/
theorem kind_of_built (use : Use) (h : c.built = true) {e : Error} (he : use.result c = .error e) :
    e.kind = .unsupportedValueType ∨ e.kind = .emptyCondition := by
  have hwire : ∀ e, c.toWire = .error e → e.kind = .unsupportedValueType := by
    intro e he
    rw [toWire, if_pos h] at he
    rcases bind_eq_error_iff.1 he with hfields | ⟨ws, -, hdone⟩
    · exact Wire.kind_of_encodeFields_error hfields
    · cases hdone
  cases use with
  | wire => exact .inl (hwire e he)
  | text =>
    rcases bind_eq_error_iff.1 he with hfail | ⟨json, -, hdone⟩
    · exact .inl (hwire e hfail)
    · cases hdone
  | clause outer =>
    rw [result, addCondition, if_pos h] at he
    cases he
  | filter q =>
    rw [result, Query.filter, if_pos h, Query.filterMap] at he
    split at he <;> cases he
    exact .inr rfl

/-- A use accepts exactly the conditions that are built. -/
theorem accepts_iff (use : Use) : use.Accepts c ↔ c.built = true := by
  refine ⟨fun haccepts => ?_, fun hbuilt e he => ?_⟩
  · by_contra hbuilt
    obtain ⟨e, he, hkind⟩ := use.result_of_unbuilt (Bool.eq_false_iff.2 hbuilt)
    exact (haccepts e he).1 hkind
  · rcases use.kind_of_built hbuilt he with hkind | hkind <;>
      exact ⟨by rw [hkind]; decide, by rw [hkind]; decide⟩

end Use

/-- **A condition is built once.** As long as no build succeeded nothing is compiled and every use
refuses the condition, and nothing but a build makes it a built one. The first build that succeeds
empties the queue. Whatever is done then, the content that it gave stays, and the condition stays
built. Another build succeeds exactly if nothing was queued since and gives the same condition;
otherwise it fails, because the condition was built already. -/
theorem run_builds_once (actions : List Action) :
    ((run actions).built = false → (run actions).content = [] ∧
      ∀ use : Use, ∃ e, use.result (run actions) = .error e ∧ e.kind = .notBuilt) ∧
    ((run actions).built = true → ∃ before later c, actions = before ++ .build :: later ∧
      (run before).built = false ∧ (run before).build = .ok c) ∧
    ∀ c, (run actions).built = false → (run actions).build = .ok c →
      c.calls = [] ∧ c.built = true ∧
      ∀ later,
        (run (actions ++ .build :: later)).content = c.content ∧
        (run (actions ++ .build :: later)).built = true ∧
        ((∃ again, (run (actions ++ .build :: later)).build = .ok again) ↔ queued later = []) ∧
        (∀ again, (run (actions ++ .build :: later)).build = .ok again → again = c) ∧
        ∀ e, (run (actions ++ .build :: later)).build = .error e → e.kind = .alreadyBuilt := by
  refine ⟨fun hunbuilt => ?_, exists_build_of_built, fun c hunbuilt hbuild => ?_⟩
  · refine ⟨?_, fun use => use.result_of_unbuilt hunbuilt⟩
    rw [run_of_unbuilt hunbuilt]
  have hc := (firstBuild_of_build hunbuilt hbuild []).1
  refine ⟨by rw [hc], by rw [hc], fun later => ?_⟩
  have hrun := run_of_firstBuild (firstBuild_of_build hunbuilt hbuild later).2
  have hbuilt : (run (actions ++ .build :: later)).built = true := by rw [hrun]
  refine ⟨by rw [hrun], hbuilt, ?_, fun again hagain => ?_, fun e he =>
    kind_of_build_error_of_built hbuilt he⟩
  · simp only [build_eq_ok_iff_of_built hbuilt, exists_and_left, exists_eq, and_true]
    rw [hrun]
  · obtain ⟨hcalls, rfl⟩ := (build_eq_ok_iff_of_built hbuilt).1 hagain
    rw [hrun] at hcalls ⊢
    rw [hc]
    exact congrArg (Condition.mk · c.content true) hcalls

/-- **A condition in use tells the calls in front of its first successful build.** Any use accepts
it exactly if there was such a build. What the use tells is then what that build compiled; the
calls behind it are those that wait, and they change nothing, so that a use leaves no call out
exactly if there are none. -/
theorem accepts_run_iff (actions : List Action) (use : Use) :
    (use.Accepts (run actions) ↔
      ∃ before later content, FirstBuild actions before later content) ∧
    ∀ before later content, FirstBuild actions before later content →
      use.result (run actions) = use.result ⟨[], content, true⟩ ∧
        (run actions).calls = queued later := by
  refine ⟨use.accepts_iff.trans built_run_iff, fun before later content hfirst => ?_⟩
  rw [run_of_firstBuild hfirst]
  exact ⟨use.result_of_built _ _, rfl⟩

/-- A test that is added to a built condition is accepted and left out without an error: the
condition is used for everything as if the test were not there. -/
theorem accepts_run_lateTest :
    run [.call (.existing "a"), .build, .call (.existing "b")] =
        ⟨[.predicate [("$exists", .string "b")]], [("$exists", .string "a")], true⟩ ∧
      (∀ use : Use, use.Accepts (run [.call (.existing "a"), .build, .call (.existing "b")])) ∧
      toWire (run [.call (.existing "a"), .build, .call (.existing "b")]) =
        .ok (.object [("$exists", .string "a")]) ∧
      ¬ ∀ (actions : List Action) (use : Use),
        use.Accepts (run actions) → (run actions).calls = [] := by
  have hrun : run [.call (.existing "a"), .build, .call (.existing "b")] =
      ⟨[.predicate [("$exists", .string "b")]], [("$exists", .string "a")], true⟩ := rfl
  have haccepts : ∀ use : Use,
      use.Accepts (run [.call (.existing "a"), .build, .call (.existing "b")]) := by
    intro use
    rw [use.accepts_iff, hrun]
  refine ⟨hrun, haccepts, rfl, fun hall => ?_⟩
  have hempty := hall _ .wire (haccepts .wire)
  rw [hrun] at hempty
  cases hempty

end DocumentModel.Condition

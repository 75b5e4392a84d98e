import DocumentModel.Proofs.Condition.Language
import Mathlib.Data.List.Forall2

/-! Conditions built call by call.

Each call of the builder opens a block, closes one or adds a predicate (`BuilderCall.role`), and
one that succeeds queues just that (`queues_of_apply`). What such a run leaves builds exactly if
its queue is that of a forest whose top level is well composed, and then it holds the map of that
forest; otherwise the blocks are unbalanced: `build_iff_forest`. -/
namespace DocumentModel.Condition

/-- A call of the builder. Maps that are added have no key twice. -/
inductive BuilderCall
  | and
  | or
  | elementAnd (path : String)
  | close
  | existing (path : String)
  | notExisting (path : String)
  | inList (path : String) (values : List Value)
  | notInList (path : String) (values : List Value)
  | typeOf (path : String) (type : Value)
  | notTypeOf (path : String) (type : Value)
  | matching (path : String) (pattern : Value)
  | notMatching (path : String) (pattern : Value)
  | like (path : String) (pattern : Value)
  | notLike (path : String) (pattern : Value)
  | compare (path : String) (comparison : Comparison) (value : Value)
  | equalTo (path : String) (value : Value)
  | notEqualTo (path : String) (value : Value)
  | addMap (fields : Entries Value) (distinct : fields.keys.Nodup)
  | addCondition (other : Condition) (distinct : other.content.keys.Nodup)

/-- The condition that a call of the builder makes of one. -/
def BuilderCall.apply (c : Condition) : BuilderCall → Except Error Condition
  | .and => .ok c.and
  | .or => .ok c.or
  | .elementAnd path => c.elementAnd path
  | .close => .ok c.close
  | .existing path => .ok (c.existing path)
  | .notExisting path => .ok (c.notExisting path)
  | .inList path values => .ok (c.inList path values)
  | .notInList path values => .ok (c.notInList path values)
  | .typeOf path type => .ok (c.typeOf path type)
  | .notTypeOf path type => .ok (c.notTypeOf path type)
  | .matching path pattern => .ok (c.matching path pattern)
  | .notMatching path pattern => .ok (c.notMatching path pattern)
  | .like path pattern => .ok (c.like path pattern)
  | .notLike path pattern => .ok (c.notLike path pattern)
  | .compare path comparison value => .ok (c.compare path comparison value)
  | .equalTo path value => .ok (c.equalTo path value)
  | .notEqualTo path value => .ok (c.notEqualTo path value)
  | .addMap fields _ => .ok (c.addMap fields)
  | .addCondition other _ => c.addCondition other

/-- The condition that calls of the builder make of the empty one. -/
def construct (calls : List BuilderCall) : Except Error Condition :=
  calls.foldlM BuilderCall.apply empty

/-! ### What a call does -/

/-- What a call of the builder does to the blocks that are open. -/
inductive Role
  | opens (heading : Heading)
  | closes
  | adds

def BuilderCall.role : BuilderCall → Role
  | .and => .opens .and
  | .or => .opens .or
  | .elementAnd path => .opens (.elementAnd path)
  | .close => .closes
  | _ => .adds

/-- Whether a call adds a map that was made elsewhere. -/
def BuilderCall.isRaw : BuilderCall → Bool
  | .addMap .. | .addCondition .. => true
  | _ => false

/-- A path that an element block can be about. -/
def ElementField (path : String) : Prop := ∃ p, FieldPath.parse path = .ok p ∧ p.isEmpty = false

/-- What a call that succeeds puts in the queue. The predicates that have a call of their own
look like no element block. -/
inductive Queues : BuilderCall → Call → Prop
  | opens {b : BuilderCall} {heading : Heading} (h : b.role = .opens heading)
    (hfield : ∀ path, heading = .elementAnd path → ElementField path) : Queues b heading.opening
  | closes {b : BuilderCall} (h : b.role = .closes) : Queues b .closing
  | adds {b : BuilderCall} {fields : Entries Value} (h : b.role = .adds)
    (hdistinct : fields.keys.Nodup)
    (hnamed : b.isRaw = false → Connective.elementAnd.key ∉ fields.keys) :
    Queues b (.predicate fields)

theorem queueable_of_queues {b : BuilderCall} {call : Call} (h : Queues b call) :
    Queueable call := by
  cases h with
  | opens => exact .opening _
  | closes => exact .closing
  | adds _ hdistinct => exact .predicate hdistinct

theorem queues_predicate {b : BuilderCall} {key : String} {value : Value} (h : b.role = .adds)
    (hkey : Connective.elementAnd.key ≠ key) : Queues b (.predicate [(key, value)]) :=
  .adds h (by simp [Entries.keys]) fun _ => by simpa [Entries.keys] using hkey

theorem elementAnd_ne_testKey (test : FieldTest) : Connective.elementAnd.key ≠ test.key := by
  cases test <;> decide

theorem elementAnd_ne_comparisonKey (comparison : Comparison) :
    Connective.elementAnd.key ≠ comparison.key := by
  cases comparison <;> decide

theorem elementAnd_eq_ok {c c' : Condition} {path : String} (h : c.elementAnd path = .ok c') :
    ElementField path ∧ c' = c.push (.opening .elementAnd (some path)) := by
  obtain ⟨p, hparse, hrest⟩ := bind_eq_ok_iff.1 h
  cases hempty : p.isEmpty with
  | true =>
    rw [hempty] at hrest
    cases hrest
  | false =>
    rw [hempty] at hrest
    cases hrest
    exact ⟨⟨p, hparse, hempty⟩, rfl⟩

/-- A call of the builder that succeeds queues what its role tells, and that is all it does. -/
theorem queues_of_apply {c c' : Condition} {b : BuilderCall} (h : b.apply c = .ok c') :
    ∃ call, Queues b call ∧ c' = c.push call := by
  cases b with
  | and =>
    cases h
    exact ⟨_, .opens rfl (by simp), rfl⟩
  | or =>
    cases h
    exact ⟨_, .opens rfl (by simp), rfl⟩
  | elementAnd path =>
    obtain ⟨hfield, rfl⟩ := elementAnd_eq_ok h
    have hrole : (BuilderCall.elementAnd path).role = .opens (.elementAnd path) := rfl
    refine ⟨_, .opens hrole ?_, rfl⟩
    intro other heq
    cases heq
    exact hfield
  | close =>
    cases h
    exact ⟨_, .closes rfl, rfl⟩
  | addMap fields distinct =>
    cases h
    exact ⟨_, .adds rfl distinct (by simp [BuilderCall.isRaw]), rfl⟩
  | addCondition other distinct =>
    rw [BuilderCall.apply, addCondition] at h
    split at h
    · cases h
      exact ⟨_, .adds rfl distinct (by simp [BuilderCall.isRaw]), rfl⟩
    · cases h
  | compare | equalTo | notEqualTo =>
    cases h
    exact ⟨_, queues_predicate rfl (elementAnd_ne_comparisonKey _), rfl⟩
  | _ =>
    cases h
    exact ⟨_, queues_predicate rfl (elementAnd_ne_testKey _), rfl⟩

/-! ### Runs of the builder -/

/-- A run of the builder puts one entry for each call behind the queue, and that is all it does. -/
theorem queues_of_foldlM {calls : List BuilderCall} {c c' : Condition}
    (h : calls.foldlM BuilderCall.apply c = .ok c') :
    ∃ queue, List.Forall₂ Queues calls queue ∧ c' = { c with calls := c.calls ++ queue } := by
  induction calls generalizing c with
  | nil =>
    cases h
    refine ⟨[], .nil, ?_⟩
    rw [List.append_nil]
  | cons b rest ih =>
    rw [List.foldlM_cons] at h
    obtain ⟨next, hnext, hrest⟩ := bind_eq_ok_iff.1 h
    obtain ⟨call, hcall, rfl⟩ := queues_of_apply hnext
    obtain ⟨queue, hqueue, rfl⟩ := ih hrest
    refine ⟨call :: queue, .cons hcall hqueue, ?_⟩
    rw [push, List.append_assoc, List.singleton_append]

theorem queues_of_construct {calls : List BuilderCall} {c : Condition}
    (h : construct calls = .ok c) : List.Forall₂ Queues calls c.calls := by
  obtain ⟨queue, hqueue, rfl⟩ := queues_of_foldlM h
  exact hqueue

theorem queueable_of_mem {calls : List BuilderCall} {queue : List Call}
    (h : List.Forall₂ Queues calls queue) : ∀ call ∈ queue, Queueable call := by
  induction h with
  | nil =>
    intro call hmem
    cases hmem
  | cons hcall _ ih => exact List.forall_mem_cons.2 ⟨queueable_of_queues hcall, ih⟩

/-- A condition of which nothing is compiled. -/
structure Waiting (c : Condition) : Prop where
  built : c.built = false
  content : c.content = []
  calls : ∀ call ∈ c.calls, Queueable call

theorem waiting_of_construct {calls : List BuilderCall} {c : Condition}
    (h : construct calls = .ok c) : Waiting c := by
  have hcalls := queueable_of_mem (queues_of_construct h)
  obtain ⟨queue, -, rfl⟩ := queues_of_foldlM h
  exact ⟨rfl, rfl, hcalls⟩

/-- **Building compiles the language of forests.** After any run of the builder, the queue of a
condition has an entry for each call, in order. The condition builds exactly if this queue tells a
forest from left to right whose top level is a predicate by itself, or blocks with different
headings, if any. It then holds the map of that forest, and in any other case its blocks are
unbalanced. -/
theorem build_iff_forest {calls : List BuilderCall} {c : Condition}
    (h : construct calls = .ok c) :
    List.Forall₂ Queues calls c.calls ∧
      (∀ built, c.build = .ok built ↔
        ∃ forest content, callsOf forest = c.calls ∧ Composes forest content ∧
          built = ⟨[], content, true⟩) ∧
      ∀ e, c.build = .error e → e.kind = .unbalancedCondition := by
  obtain ⟨hbuilt, hcontent, hcalls⟩ := waiting_of_construct h
  have hcompile := compile_eq_ok_iff hcalls
  refine ⟨queues_of_construct h, ?_⟩
  rw [build, hbuilt, hcontent]
  cases hresult : compile [] c.calls with
  | error imbalance =>
    refine ⟨fun built => ⟨nofun, ?_⟩, ?_⟩
    · intro hgiven
      obtain ⟨forest, content, hforest, hcomposes, -⟩ := hgiven
      have hok := (hcompile content).2 ⟨forest, hforest, hcomposes⟩
      rw [hresult] at hok
      cases hok
    · intro e he
      cases he
      rfl
  | ok content =>
    refine ⟨fun built => ⟨?_, ?_⟩, nofun⟩
    · intro hbuild
      cases hbuild
      obtain ⟨forest, hforest, hcomposes⟩ := (hcompile content).1 hresult
      exact ⟨forest, content, hforest, hcomposes, rfl⟩
    · intro hgiven
      obtain ⟨forest, other, hforest, hcomposes, rfl⟩ := hgiven
      have hok := (hcompile other).2 ⟨forest, hforest, hcomposes⟩
      rw [hresult] at hok
      cases hok
      rfl

theorem build_iff_forest_elementBlocks :
    ∃ c, construct [.elementAnd "a", .existing "b", .close, .or, .close, .elementAnd "c", .close] =
        .ok c ∧
      List.Forall₂ Queues
        [.elementAnd "a", .existing "b", .close, .or, .close, .elementAnd "c", .close] c.calls ∧
      (∀ built, c.build = .ok built ↔
        ∃ forest content, callsOf forest = c.calls ∧ Composes forest content ∧
          built = ⟨[], content, true⟩) ∧
        ∀ e, c.build = .error e → e.kind = .unbalancedCondition := by
  have hrun : construct
      [.elementAnd "a", .existing "b", .close, .or, .close, .elementAnd "c", .close] =
        .ok ⟨[.opening .elementAnd (some "a"), .predicate [("$exists", .string "b")], .closing,
          .opening .or none, .closing, .opening .elementAnd (some "c"), .closing], [], false⟩ := by
    cbv
  exact ⟨_, hrun, build_iff_forest hrun⟩

example :
    build ⟨[.opening .elementAnd (some "a"), .predicate [("$exists", .string "b")], .closing,
      .opening .or none, .closing, .opening .elementAnd (some "c"), .closing], [], false⟩ =
      .ok ⟨[], [("$elementAnd", .map [("a", .list [.map [("$exists", .string "b")]]),
        ("c", .list [])]), ("$or", .list [])], true⟩ := by
  cbv

end DocumentModel.Condition

import DocumentModel.Proofs.Condition.Lifecycle

/-! Calls of the builder, and the blocks that they are made in.

What each call does to the open blocks tells how many are open after some calls (`openBlocks`), and
which of the calls are made while none is (`topLevel`). Reading a queue as a forest counts the same:
the calls at the top level begin the clauses there, one for one and with their headings
(`headings_of_forest`). What builds is a well composed forest, and nothing else does:
`build_eq_ok_iff`. -/
namespace DocumentModel.Condition

variable {calls : List BuilderCall} {queue : List Call} {b : BuilderCall} {c built : Condition}

/-! ### Open blocks -/

namespace BuilderCall

/-- The heading of the block that a call opens. -/
def heading? (b : BuilderCall) : Option Heading :=
  match b.role with
  | .opens heading => some heading
  | _ => none

/-- How many blocks are open after a call. -/
def openAfter (depth : Nat) (b : BuilderCall) : Nat :=
  match b.role with
  | .opens _ => depth + 1
  | .closes => depth - 1
  | .adds => depth

end BuilderCall

/-- How many blocks are open after calls. -/
def openBlocks (calls : List BuilderCall) : Nat := calls.foldl BuilderCall.openAfter 0

/-- The calls that are made while no block is open, if some blocks are open in front of them. -/
def topLevelFrom : Nat → List BuilderCall → List BuilderCall
  | _, [] => []
  | 0, b :: rest => b :: topLevelFrom (b.openAfter 0) rest
  | depth + 1, b :: rest => topLevelFrom (b.openAfter (depth + 1)) rest

/-- The calls that are made while no block is open. -/
def topLevel (calls : List BuilderCall) : List BuilderCall := topLevelFrom 0 calls

/-- An element block is opened for a path that it can be about. -/
theorem field_of_queues (hqueue : List.Forall₂ Queues calls queue) (hb : b ∈ calls) {path : String}
    (hrole : b.role = .opens (.elementAnd path)) : ElementField path := by
  induction hqueue with
  | nil => cases hb
  | cons hfirst _ ih =>
    rcases List.mem_cons.1 hb with rfl | hrest
    · cases hfirst with
      | opens h hfield =>
        rw [hrole] at h
        cases h
        exact hfield path rfl
      | closes h =>
        rw [hrole] at h
        cases h
      | adds h =>
        rw [hrole] at h
        cases h
    · exact ih hrest

theorem mem_of_mem_topLevelFrom {depth : Nat} (h : b ∈ topLevelFrom depth calls) : b ∈ calls := by
  induction calls generalizing depth with
  | nil => cases depth <;> cases h
  | cons first rest ih =>
    cases depth with
    | zero =>
      rcases List.mem_cons.1 h with rfl | hrest
      · exact List.mem_cons_self
      · exact List.mem_cons_of_mem _ (ih hrest)
    | succ depth => exact List.mem_cons_of_mem _ (ih h)

/-! ### What is built -/

/-- Building after a run of the builder compiles the queue. -/
theorem build_of_construct (h : construct calls = .ok c) :
    c.build =
      match compile [] c.calls with
      | .ok content => .ok ⟨[], content, true⟩
      | .error imbalance => .error (.because .unbalancedCondition imbalance.message) := by
  obtain ⟨hbuilt, hcontent, -⟩ := waiting_of_construct h
  rw [build, hbuilt, hcontent]
  rfl

/-- It succeeds exactly for the queue of a forest that is well composed. -/
theorem build_eq_ok_iff (h : construct calls = .ok c) :
    c.build = .ok built ↔
      ∃ forest, callsOf forest = c.calls ∧
        Composes forest built.content ∧ built = ⟨[], built.content, true⟩ := by
  have hcompile := compile_eq_ok_iff (waiting_of_construct h).calls
  rw [build_of_construct h]
  constructor
  · intro hbuild
    split at hbuild
    · rename_i content hresult
      cases hbuild
      obtain ⟨forest, hforest, hcomposes⟩ := (hcompile content).1 hresult
      exact ⟨forest, hforest, hcomposes, rfl⟩
    · cases hbuild
  · rintro ⟨forest, hforest, hcomposes, hbuilt⟩
    rw [(hcompile _).2 ⟨forest, hforest, hcomposes⟩, hbuilt]

theorem kind_of_build_error {e : Error} (h : construct calls = .ok c) (hbuild : c.build = .error e) :
    e.kind = .unbalancedCondition := by
  rw [build_of_construct h] at hbuild
  split at hbuild
  · cases hbuild
  · cases hbuild
    rfl

/-! ### Levels of a forest -/

/-- The heading of a clause that is a block. -/
def Clause.heading? : Clause → Option Heading
  | .predicate _ => none
  | .block heading _ => some heading

namespace Outline

/-- The headings of the clauses at the top level, the one that is still open included. -/
def headings (o : Outline) : List (Option Heading) :=
  o.top.map Clause.heading? ++ (o.opened.map Block.heading).getLast?.toList.map some

/-- A clause that is added where no block is open stands at the top level, and any other clause
leaves the open blocks as they are. -/
theorem headings_add (o : Outline) (clause : Clause) :
    (o.add clause).opened.length = o.opened.length ∧
      (o.add clause).headings =
        o.headings ++ if o.opened.length = 0 then [clause.heading?] else [] := by
  obtain ⟨opened, top⟩ := o
  cases opened with
  | nil => simp [add, headings]
  | cons inner around => simp [add, headings]

/-- Reading a call counts the open blocks as the call does, and the clause that begins with it
stands at the top level if none was open. -/
theorem headings_step {o o' : Outline} {call : Call} (hb : Queues b call) (h : o.step call = some o') :
    o'.opened.length = b.openAfter o.opened.length ∧
      o'.headings = o.headings ++ if o.opened.length = 0 then [b.heading?] else [] := by
  cases hb with
  | opens hrole =>
    rw [Heading.opening, step, Heading.of?_op_field] at h
    cases h
    obtain ⟨opened, top⟩ := o
    cases opened with
    | nil => simp [headings, BuilderCall.openAfter, BuilderCall.heading?, hrole]
    | cons inner around => simp [headings, BuilderCall.openAfter, hrole]
  | closes hrole =>
    obtain ⟨opened, top⟩ := o
    cases opened with
    | nil => cases h
    | cons inner around =>
      cases h
      obtain ⟨hlength, hheadings⟩ := headings_add ⟨around, top⟩ inner.clause
      rw [hlength, hheadings]
      cases around with
      | nil => simp [headings, BuilderCall.openAfter, hrole, Block.clause, Clause.heading?]
      | cons outer around => simp [headings, BuilderCall.openAfter, hrole]
  | adds hrole =>
    cases h
    obtain ⟨hlength, hheadings⟩ := headings_add o (.predicate _)
    rw [hlength, hheadings]
    simp [BuilderCall.openAfter, BuilderCall.heading?, hrole, Clause.heading?]

theorem headings_foldlM {o o' : Outline} (hqueue : List.Forall₂ Queues calls queue)
    (h : queue.foldlM step o = some o') :
    o'.opened.length = calls.foldl BuilderCall.openAfter o.opened.length ∧
      o'.headings =
        o.headings ++ (topLevelFrom o.opened.length calls).map BuilderCall.heading? := by
  induction hqueue generalizing o with
  | nil =>
    cases h
    exact ⟨rfl, (List.append_nil _).symm⟩
  | @cons b call calls queue hb _ ih =>
    rw [List.foldlM_cons] at h
    obtain ⟨next, hnext, hrest⟩ := Option.bind_eq_some_iff.1 h
    obtain ⟨hlength, hheadings⟩ := headings_step hb hnext
    obtain ⟨hlength', hheadings'⟩ := ih hrest
    rw [List.foldl_cons, hlength', hheadings', hheadings, hlength, List.append_assoc]
    refine ⟨rfl, congrArg _ ?_⟩
    cases o.opened.length <;> rfl

end Outline

/-- The calls at the top level are those that begin the clauses of the forest. -/
theorem headings_of_forest {forest : List Clause} (hqueue : List.Forall₂ Queues calls queue)
    (hforest : callsOf forest = queue) :
    (topLevel calls).map BuilderCall.heading? = forest.map Clause.heading? := by
  have houtline := (outline?_eq_some_iff queue forest).2 hforest
  obtain ⟨-, hheadings⟩ := Outline.headings_foldlM hqueue houtline
  simpa [Outline.headings, topLevel] using hheadings.symm

/-- Where compiling has come to the end of some calls, it has the blocks open that they leave
open. -/
theorem length_opened {p : Progress} (h : construct calls = .ok c)
    (hrun : c.calls.foldlM step ⟨[], [], 0, 0⟩ = .ok p) :
    p.opened.length = openBlocks calls := by
  obtain ⟨o, ho, htracks⟩ := tracks_foldlM tracks_start (waiting_of_construct h).calls hrun
  obtain ⟨hlength, -⟩ := Outline.headings_foldlM (queues_of_construct h) ho
  rw [htracks.opened, List.length_map]
  exact hlength

end DocumentModel.Condition

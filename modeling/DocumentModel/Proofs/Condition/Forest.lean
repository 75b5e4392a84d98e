import DocumentModel.Condition.Build

/-! Conditions as forests of clauses.

A clause is a predicate or a block of clauses under a heading. Told from left to right, a forest
of clauses is a queue of calls (`callsOf`), and each clause has a map (`Clause.render`). An
`Outline` is what has been read of a forest at some point of its calls: reading the calls of a
forest gives the forest back, and only the calls of a forest read as one:
`outline?_eq_some_iff`. -/
namespace DocumentModel.Condition

/-! ### Forests -/

/-- What opens a block. -/
inductive Heading
  | and
  | or
  | elementAnd (field : String)
  deriving DecidableEq

namespace Heading

/-- How the clauses of the block are combined. -/
def op : Heading → Connective
  | .and => .and
  | .or => .or
  | .elementAnd _ => .elementAnd

/-- The list field that the block is about. -/
def field : Heading → Option String
  | .elementAnd field => some field
  | _ => none

/-- The call that opens the block. -/
def opening (h : Heading) : Call := .opening h.op h.field

/-- The map of a block with some clauses. -/
def block (clauses : List Value) : Heading → Entries Value
  | .elementAnd field => [(Connective.elementAnd.key, .map [(field, .list clauses)])]
  | h => [(h.op.key, .list clauses)]

/-- The heading of an opening call, where a field stands exactly with an element block. -/
def of? : Connective → Option String → Option Heading
  | .and, none => some .and
  | .or, none => some .or
  | .elementAnd, some field => some (.elementAnd field)
  | _, _ => none

theorem of?_op_field (h : Heading) : of? h.op h.field = some h := by cases h <;> rfl

theorem opening_of_of? {op : Connective} {field : Option String} {h : Heading}
    (heq : of? op field = some h) : h.opening = .opening op field := by
  rw [of?.eq_def] at heq
  split at heq <;> cases heq <;> rfl

end Heading

/-- A clause of a condition. -/
inductive Clause
  | predicate (fields : Entries Value)
  | block (heading : Heading) (clauses : List Clause)

mutual

/-- The calls of a clause. -/
def Clause.calls : Clause → List Call
  | .predicate fields => [.predicate fields]
  | .block heading clauses => heading.opening :: (callsOf clauses ++ [.closing])

/-- The calls of clauses, one after the other. -/
def callsOf : List Clause → List Call
  | [] => []
  | clause :: rest => clause.calls ++ callsOf rest

end

mutual

/-- The map of a clause. -/
def Clause.render : Clause → Value
  | .predicate fields => .map fields
  | .block heading clauses => .map (heading.block (renderAll clauses))

/-- The maps of clauses, one after the other. -/
def renderAll : List Clause → List Value
  | [] => []
  | clause :: rest => clause.render :: renderAll rest

end

theorem callsOf_append (xs ys : List Clause) :
    callsOf (xs ++ ys) = callsOf xs ++ callsOf ys := by
  induction xs with
  | nil => rfl
  | cons x xs ih => rw [List.cons_append, callsOf, callsOf, ih, List.append_assoc]

theorem renderAll_append (xs ys : List Clause) :
    renderAll (xs ++ ys) = renderAll xs ++ renderAll ys := by
  induction xs with
  | nil => rfl
  | cons x xs ih => rw [List.cons_append, renderAll, renderAll, ih, List.cons_append]

/-! ### Outlines -/

/-- A block, or what has been read of it. -/
structure Block where
  heading : Heading
  clauses : List Clause

/-- A block as a clause. -/
def Block.clause (b : Block) : Clause := .block b.heading b.clauses

/-- What has been read of a forest. -/
structure Outline where
  /-- The blocks that are still open, innermost first. -/
  opened : List Block
  /-- The clauses outside them. -/
  top : List Clause

namespace Outline

/-- Adds a clause where the reading stands. -/
def add (o : Outline) (clause : Clause) : Outline :=
  match o.opened with
  | [] => ⟨[], o.top ++ [clause]⟩
  | inner :: around => ⟨⟨inner.heading, inner.clauses ++ [clause]⟩ :: around, o.top⟩

/-- Reads one call. -/
def step (o : Outline) : Call → Option Outline
  | .opening op field => (Heading.of? op field).map fun h => ⟨⟨h, []⟩ :: o.opened, o.top⟩
  | .predicate fields => some (o.add (.predicate fields))
  | .closing =>
    match o.opened with
    | [] => none
    | inner :: around => some (add ⟨around, o.top⟩ inner.clause)

/-- The calls of open blocks, innermost first, without their ends. -/
def openCalls : List Block → List Call
  | [] => []
  | inner :: around => openCalls around ++ inner.heading.opening :: callsOf inner.clauses

/-- The calls that have been read. -/
def calls (o : Outline) : List Call := callsOf o.top ++ openCalls o.opened

end Outline

/-- The outline that calls are read as. -/
def outline? (calls : List Call) : Option Outline := calls.foldlM Outline.step ⟨[], []⟩

/-! ### Only the calls of a forest -/

theorem Outline.calls_add (o : Outline) (clause : Clause) :
    (o.add clause).calls = o.calls ++ clause.calls := by
  obtain ⟨opened, top⟩ := o
  cases opened with
  | nil => simp [add, calls, openCalls, callsOf_append, callsOf]
  | cons inner around => simp [add, calls, openCalls, callsOf_append, callsOf]

/-- A step reads its call, and keeps those before. -/
theorem Outline.calls_step {o o' : Outline} {call : Call} (h : o.step call = some o') :
    o'.calls = o.calls ++ [call] := by
  cases call with
  | opening op field =>
    obtain ⟨heading, hof, rfl⟩ := Option.map_eq_some_iff.1 h
    simp [calls, openCalls, callsOf, Heading.opening_of_of? hof]
  | predicate fields =>
    cases h
    exact calls_add o _
  | closing =>
    obtain ⟨opened, top⟩ := o
    cases opened with
    | nil => cases h
    | cons inner around =>
      cases h
      rw [calls_add]
      simp [calls, openCalls, Block.clause, Clause.calls]

theorem Outline.calls_foldlM {calls : List Call} {o o' : Outline}
    (h : calls.foldlM Outline.step o = some o') : o'.calls = o.calls ++ calls := by
  induction calls generalizing o with
  | nil =>
    cases h
    rw [List.append_nil]
  | cons call rest ih =>
    rw [List.foldlM_cons] at h
    obtain ⟨next, hnext, hrest⟩ := Option.bind_eq_some_iff.1 h
    rw [ih hrest, calls_step hnext, List.append_assoc, List.singleton_append]

/-! ### The calls of every forest -/

theorem foldl_add_opened (clauses : List Clause) (heading : Heading) (before : List Clause)
    (around : List Block) (top : List Clause) :
    clauses.foldl Outline.add ⟨⟨heading, before⟩ :: around, top⟩ =
      ⟨⟨heading, before ++ clauses⟩ :: around, top⟩ := by
  induction clauses generalizing before with
  | nil => rw [List.append_nil]; rfl
  | cons clause rest ih =>
    refine (ih (before ++ [clause])).trans ?_
    rw [List.append_assoc, List.singleton_append]

theorem foldl_add_top (clauses before : List Clause) :
    clauses.foldl Outline.add ⟨[], before⟩ = ⟨[], before ++ clauses⟩ := by
  induction clauses generalizing before with
  | nil => rw [List.append_nil]; rfl
  | cons clause rest ih =>
    refine (ih (before ++ [clause])).trans ?_
    rw [List.append_assoc, List.singleton_append]

mutual

/-- The calls of a clause add the clause, wherever the reading stands. -/
theorem foldlM_calls (o : Outline) : (clause : Clause) →
    clause.calls.foldlM Outline.step o = some (o.add clause)
  | .predicate fields => rfl
  | .block heading clauses => by
    rw [Clause.calls, List.foldlM_cons, Heading.opening, Outline.step, Heading.of?_op_field]
    show (callsOf clauses ++ [Call.closing]).foldlM Outline.step ⟨⟨heading, []⟩ :: o.opened, o.top⟩ = _
    rw [List.foldlM_append, foldlM_callsOf _ clauses, foldl_add_opened]
    rfl

theorem foldlM_callsOf (o : Outline) : (clauses : List Clause) →
    (callsOf clauses).foldlM Outline.step o = some (clauses.foldl Outline.add o)
  | [] => rfl
  | clause :: rest => by
    rw [callsOf, List.foldlM_append, foldlM_calls o clause]
    exact foldlM_callsOf (o.add clause) rest

end

/-- Calls read as a whole forest exactly if they are the calls of the forest. -/
theorem outline?_eq_some_iff (calls : List Call) (forest : List Clause) :
    outline? calls = some ⟨[], forest⟩ ↔ callsOf forest = calls := by
  constructor
  · intro h
    have hcalls := Outline.calls_foldlM h
    simpa [Outline.calls, Outline.openCalls, callsOf] using hcalls
  · intro heq
    subst heq
    rw [outline?, foldlM_callsOf, foldl_add_top, List.nil_append]

end DocumentModel.Condition

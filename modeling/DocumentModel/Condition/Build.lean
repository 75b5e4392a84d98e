import DocumentModel.Condition.Basic
import DocumentModel.Document.Wire
import DocumentModel.Merge

/-! Compiling conditions.

The calls of a condition are compiled one after the other over the blocks that are open. A
closed block becomes a clause of the block around it or, at the top level, a part of the
condition. At the top level an operator may stand once, an element block once for each field,
and a predicate only alone. -/
namespace DocumentModel.Condition
open Merge (combine)

/-- A block whose end has not come yet, with its clauses in reverse order. -/
structure OpenBlock where
  op : Connective
  field : Option String
  clauses : List Value

/-- The map of a block that was closed. -/
def OpenBlock.block (b : OpenBlock) : Entries Value :=
  let clauses := Value.list b.clauses.reverse
  match b.field with
  | some field => [(b.op.key, .map [(field, clauses)])]
  | none => [(b.op.key, clauses)]

/-- How far compiling has come. -/
structure Progress where
  /-- The open blocks, innermost first. -/
  opened : List OpenBlock
  /-- What stands at the top level. -/
  content : Entries Value
  /-- The count of blocks at the top level. -/
  blocks : Nat
  /-- The count of predicates at the top level. -/
  predicates : Nat

/-- Why calls do not make a condition. -/
inductive Imbalance
  /-- A block is closed and none is open. -/
  | nothingToClose
  /-- An operator stands at the top level a second time. -/
  | repeated (op : String)
  /-- Some blocks are not closed. -/
  | leftOpen (count : Nat)
  /-- A predicate stands at the top level beside something else. -/
  | barePredicate

/-- The wording of an imbalance. -/
def Imbalance.message : Imbalance → String
  | .nothingToClose => "close without an open block"
  | .repeated op => s!"{op} appears twice at the top level, nest both blocks in one"
  | .leftOpen count => s!"{count} block(s) left open"
  | .barePredicate => "a predicate outside any block must be the only top-level item"

/-- Whether an operator with a body may not join the content: it is there, and not for other
fields only. -/
def collides (content : Entries Value) (op : String) (body : Value) : Bool :=
  match content.get? op, body with
  | none, _ => false
  | some (.map existing), .map fields => (Entries.keys fields).any (Entries.contains existing)
  | some _, _ => true

/-- The operator of a block that may not join the content. -/
def repeated? (content block : Entries Value) : Option String :=
  (block.find? fun (op, body) => collides content op body).map Prod.fst

/-- Compiles one call. -/
def step (p : Progress) : Call → Except Imbalance Progress
  | .opening op field => .ok { p with opened := ⟨op, field, []⟩ :: p.opened }
  | .predicate fields =>
    match p.opened with
    | inner :: around =>
      .ok { p with opened := { inner with clauses := .map fields :: inner.clauses } :: around }
    | [] =>
      .ok { p with content := combine p.content fields, predicates := p.predicates + 1 }
  | .closing =>
    match p.opened with
    | [] => .error .nothingToClose
    | inner :: outer :: around =>
      .ok { p with
        opened := { outer with clauses := .map inner.block :: outer.clauses } :: around }
    | [last] =>
      match repeated? p.content last.block with
      | some op => .error (.repeated op)
      | none =>
        .ok { p with
          opened := [], content := combine p.content last.block, blocks := p.blocks + 1 }

/-- The content that compiled calls leave, if nothing is missing from it. -/
def finish (p : Progress) : Except Imbalance (Entries Value) :=
  if p.opened ≠ [] then .error (.leftOpen p.opened.length)
  else if 0 < p.predicates ∧ 1 < p.predicates + p.blocks then .error .barePredicate
  else .ok p.content

/-- Compiles calls onto some content. -/
def compile (content : Entries Value) (calls : List Call) :
    Except Imbalance (Entries Value) := do
  finish (← calls.foldlM step ⟨[], content, 0, 0⟩)

/-- Compiles the queue of a condition. A condition that was built before stays as it is, and
must have no calls waiting. -/
def build (c : Condition) : Except Error Condition :=
  if c.built then
    if c.calls.isEmpty then .ok c
    else
      .error (.because .alreadyBuilt
        s!"{c.calls.length} call(s) queued after the condition was built")
  else
    match compile c.content c.calls with
    | .ok content => .ok ⟨[], content, true⟩
    | .error imbalance => .error (.because .unbalancedCondition imbalance.message)

/-! ### Wire form -/

/-- The wire JSON of a built condition. -/
def toWire (c : Condition) : Except Error Json :=
  if c.built then Document.wireOfMap c.content
  else .error (.because .notBuilt "condition must be built before it is serialized")

/-- The wire text of a built condition. -/
def toText (c : Condition) : Except Error String := do return (← c.toWire).toText

end DocumentModel.Condition

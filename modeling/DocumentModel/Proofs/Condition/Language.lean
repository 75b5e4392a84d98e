import DocumentModel.Proofs.Condition.TopLevel
import DocumentModel.Proofs.Outcome

/-! The language of conditions.

Compiling follows the outline of the calls (`Tracks`), one call at a time, as long as the
clauses at the top level may stand there; where it stops early they may not, whatever calls
come after (`not_composes_of_error`). So calls compile exactly if they are the calls of a
forest whose top level is well composed, and the result is the map of that forest:
`build_eq_ok_iff`. -/
namespace DocumentModel.Condition
open Merge (combine combine_of_disjoint)

/-! ### The top level as it grows -/

def Clause.isPredicate : Clause → Bool
  | .predicate _ => true
  | .block .. => false

theorem Block.clause_inj {a b : Block} (h : a.clause = b.clause) : a = b := by
  cases a
  cases b
  cases h
  rfl

theorem countP_map_clause (bs : List Block) :
    (bs.map Block.clause).countP Clause.isPredicate = 0 := by
  rw [List.countP_eq_zero]
  intro clause hmem
  obtain ⟨b, -, rfl⟩ := List.mem_map.1 hmem
  exact Bool.false_ne_true

/-- Clauses without a predicate are blocks. -/
theorem blocks_of_countP {top : List Clause} (h : top.countP Clause.isPredicate = 0) :
    ∃ bs : List Block, top = bs.map Block.clause := by
  induction top with
  | nil => exact ⟨[], rfl⟩
  | cons clause rest ih =>
    cases clause with
    | predicate fields => simp [Clause.isPredicate] at h
    | block heading clauses =>
      obtain ⟨bs, rfl⟩ := ih (by simpa [Clause.isPredicate] using h)
      exact ⟨⟨heading, clauses⟩ :: bs, rfl⟩

/-- Blocks that end in a block are blocks and that block. -/
theorem blocks_concat {top : List Clause} {b : Block} {bs : List Block}
    (h : bs.map Block.clause = top ++ [b.clause]) :
    ∃ before, top = before.map Block.clause ∧ bs = before ++ [b] := by
  obtain ⟨before, last, rfl, htop, hlast⟩ := List.map_eq_append_iff.1 h
  obtain ⟨c, rfl, hc⟩ := List.map_eq_singleton_iff.1 hlast
  rw [Block.clause_inj hc]
  exact ⟨before, htop.symm, rfl⟩

/-- What may stand at the top level has only such beginnings. -/
theorem composes_of_append {top later : List Clause} {content : Entries Value}
    (h : Composes (top ++ later) content) : ∃ content', Composes top content' := by
  generalize hall : top ++ later = all at h
  cases h with
  | predicate fields =>
    cases top with
    | nil => exact ⟨_, .blocks [] List.nodup_nil⟩
    | cons clause rest =>
      obtain ⟨rfl, hrest⟩ := List.cons.inj hall
      obtain ⟨rfl, -⟩ := List.append_eq_nil_iff.1 hrest
      exact ⟨_, .predicate _⟩
  | blocks bs hnodup =>
    obtain ⟨before, after, rfl, rfl, -⟩ := List.map_eq_append_iff.1 hall.symm
    rw [List.map_append] at hnodup
    exact ⟨_, .blocks before (List.nodup_append.1 hnodup).1⟩

theorem top_of_add (o : Outline) (clause : Clause) :
    ∃ later, (o.add clause).top = o.top ++ later := by
  obtain ⟨opened, top⟩ := o
  cases opened with
  | nil => exact ⟨[clause], rfl⟩
  | cons inner around => exact ⟨[], (List.append_nil _).symm⟩

theorem top_of_step {o o' : Outline} {call : Call} (h : o.step call = some o') :
    ∃ later, o'.top = o.top ++ later := by
  cases call with
  | opening op field =>
    obtain ⟨heading, -, rfl⟩ := Option.map_eq_some_iff.1 h
    exact ⟨[], (List.append_nil _).symm⟩
  | predicate fields =>
    cases h
    exact top_of_add o _
  | closing =>
    obtain ⟨opened, top⟩ := o
    cases opened with
    | nil => cases h
    | cons inner around =>
      cases h
      exact top_of_add ⟨around, top⟩ _

/-- Reading on adds to the top level, and changes nothing there. -/
theorem top_of_foldlM {calls : List Call} {o o' : Outline}
    (h : calls.foldlM Outline.step o = some o') : ∃ later, o'.top = o.top ++ later := by
  induction calls generalizing o with
  | nil =>
    cases h
    exact ⟨[], (List.append_nil _).symm⟩
  | cons call rest ih =>
    rw [List.foldlM_cons] at h
    obtain ⟨next, hnext, hrest⟩ := Option.bind_eq_some_iff.1 h
    obtain ⟨first, hfirst⟩ := top_of_step hnext
    obtain ⟨later, hlater⟩ := ih hrest
    exact ⟨first ++ later, by rw [hlater, hfirst, List.append_assoc]⟩

/-! ### Compiling follows the outline -/

/-- An open block as compiling keeps it. -/
def Block.unclosed (b : Block) : OpenBlock :=
  ⟨b.heading.op, b.heading.field, (renderAll b.clauses).reverse⟩

theorem Block.block_unclosed (b : Block) :
    b.unclosed.block = b.heading.block (renderAll b.clauses) := by
  obtain ⟨heading, clauses⟩ := b
  cases heading <;> simp [unclosed, OpenBlock.block, Heading.field, Heading.op, Heading.block]

theorem Block.unclosed_concat (heading : Heading) (clauses : List Clause) (clause : Clause) :
    unclosed ⟨heading, clauses ++ [clause]⟩ =
      { unclosed ⟨heading, clauses⟩ with
        clauses := clause.render :: (unclosed ⟨heading, clauses⟩).clauses } := by
  simp [unclosed, renderAll_append, renderAll]

/-- Whether compiling has come as far as an outline. The content is known as long as the top
level may stand as it is. -/
structure Tracks (p : Progress) (o : Outline) : Prop where
  opened : p.opened = o.opened.map Block.unclosed
  predicates : p.predicates = o.top.countP Clause.isPredicate
  total : p.predicates + p.blocks = o.top.length
  alone : ∀ fields, o.top = [.predicate fields] → p.content = fields
  blocks : ∀ bs : List Block, o.top = bs.map Block.clause →
    (bs.map Block.heading).Nodup ∧ p.content = assembled bs

theorem tracks_start : Tracks ⟨[], [], 0, 0⟩ ⟨[], []⟩ where
  opened := rfl
  predicates := rfl
  total := rfl
  alone := nofun
  blocks bs h := by
    obtain rfl := List.map_eq_nil_iff.1 h.symm
    exact ⟨List.nodup_nil, rfl⟩

/-- Calls that can be queued: a field stands exactly with an element block, and no map has a
key twice. -/
inductive Queueable : Call → Prop
  | opening (h : Heading) : Queueable h.opening
  | predicate {fields : Entries Value} (h : fields.keys.Nodup) : Queueable (.predicate fields)
  | closing : Queueable .closing

/-- A clause within an open block leaves the top level alone. -/
theorem Tracks.add_nested {p : Progress} {inner : Block} {around : List Block}
    {top : List Clause} (h : Tracks p ⟨inner :: around, top⟩) (clause : Clause) :
    Tracks
      { p with
        opened := { inner.unclosed with clauses := clause.render :: inner.unclosed.clauses } ::
          around.map Block.unclosed }
      (Outline.add ⟨inner :: around, top⟩ clause) where
  opened := by
    obtain ⟨heading, clauses⟩ := inner
    rw [Outline.add, List.map_cons, Block.unclosed_concat]
  predicates := h.predicates
  total := h.total
  alone := h.alone
  blocks := h.blocks

/-- A predicate at the top level is the content if nothing stood there. -/
theorem Tracks.add_predicate {p : Progress} {top : List Clause} (h : Tracks p ⟨[], top⟩)
    {fields : Entries Value} (hnodup : fields.keys.Nodup) :
    Tracks
      { p with
        opened := []
        content := combine p.content fields
        predicates := p.predicates + 1 }
      (Outline.add ⟨[], top⟩ (.predicate fields)) where
  opened := rfl
  predicates := by
    show p.predicates + 1 = (top ++ [Clause.predicate fields]).countP Clause.isPredicate
    rw [List.countP_append, h.predicates]
    rfl
  total := by
    show p.predicates + 1 + p.blocks = (top ++ [Clause.predicate fields]).length
    have htotal : p.predicates + p.blocks = top.length := h.total
    rw [List.length_append, List.length_singleton]
    omega
  alone := by
    intro other hother
    obtain ⟨rfl, hlast⟩ := List.append_eq_singleton_iff.1 hother |>.resolve_right (by simp)
    cases hlast
    have hcontent : p.content = [] := (h.blocks [] rfl).2
    show combine p.content fields = fields
    rw [hcontent, combine_of_disjoint hnodup (by simp [Entries.keys]), List.nil_append]
  blocks := by
    intro bs hbs
    have hnone := countP_map_clause bs
    rw [← hbs] at hnone
    simp [Outline.add, Clause.isPredicate] at hnone

/-- A block at the top level joins the content if its heading is new there. -/
theorem Tracks.add_block {p : Progress} {b : Block} {top : List Clause}
    (h : Tracks p ⟨[b], top⟩) (hnew : repeated? p.content b.unclosed.block = none) :
    Tracks
      { p with
        opened := []
        content := combine p.content b.unclosed.block
        blocks := p.blocks + 1 }
      (Outline.add ⟨[], top⟩ b.clause) where
  opened := rfl
  predicates := by
    show p.predicates = (top ++ [b.clause]).countP Clause.isPredicate
    rw [List.countP_append, h.predicates]
    rfl
  total := by
    show p.predicates + (p.blocks + 1) = (top ++ [b.clause]).length
    have htotal : p.predicates + p.blocks = top.length := h.total
    rw [List.length_append, List.length_singleton]
    omega
  alone := by
    intro fields hfields
    obtain ⟨-, hlast⟩ := List.append_eq_singleton_iff.1 hfields |>.resolve_right (by simp)
    cases hlast
  blocks := by
    intro bs hbs
    obtain ⟨before, htop, rfl⟩ := blocks_concat hbs.symm
    obtain ⟨hnodup, hcontent⟩ := h.blocks before htop
    rw [hcontent, Block.block_unclosed, repeated?_assembled_iff] at hnew
    constructor
    · rw [List.map_append, List.nodup_append]
      refine ⟨hnodup, by simp, fun heading hmem last hlast heq => hnew ?_⟩
      rwa [← List.mem_singleton.1 hlast, ← heq]
    · show combine p.content b.unclosed.block = _
      rw [hcontent, Block.block_unclosed, combine_assembled hnew]

/-- Where compiling takes a call, the outline takes it too. -/
theorem tracks_step {p p' : Progress} {o : Outline} {call : Call} (h : Tracks p o)
    (hcall : Queueable call) (hstep : step p call = .ok p') :
    ∃ o', o.step call = some o' ∧ Tracks p' o' := by
  obtain ⟨opened, top⟩ := o
  have hopened : p.opened = opened.map Block.unclosed := h.opened
  cases hcall with
  | opening heading =>
    cases hstep
    refine ⟨⟨⟨heading, []⟩ :: opened, top⟩, ?_, ?_⟩
    · rw [Heading.opening, Outline.step, Heading.of?_op_field]
      rfl
    · refine ⟨?_, h.predicates, h.total, h.alone, h.blocks⟩
      rw [hopened]
      rfl
  | predicate hnodup =>
    refine ⟨_, rfl, ?_⟩
    cases opened with
    | nil =>
      rw [step, hopened] at hstep
      cases hstep
      exact h.add_predicate hnodup
    | cons inner around =>
      rw [step, hopened] at hstep
      cases hstep
      exact h.add_nested (.predicate _)
  | closing =>
    cases opened with
    | nil =>
      rw [step, hopened] at hstep
      cases hstep
    | cons inner around =>
      refine ⟨_, rfl, ?_⟩
      cases around with
      | nil =>
        rw [step, hopened] at hstep
        cases hrep : repeated? p.content inner.unclosed.block with
        | some op =>
          simp only [List.map_cons, List.map_nil, hrep] at hstep
          cases hstep
        | none =>
          simp only [List.map_cons, List.map_nil, hrep] at hstep
          cases hstep
          exact h.add_block hrep
      | cons outer around =>
        rw [step, hopened] at hstep
        cases hstep
        have hinner : Value.map inner.unclosed.block = inner.clause.render := by
          rw [Block.block_unclosed]
          rfl
        have hpopped : Tracks { p with opened := (outer :: around).map Block.unclosed }
            ⟨outer :: around, top⟩ := ⟨rfl, h.predicates, h.total, h.alone, h.blocks⟩
        rw [hinner]
        exact hpopped.add_nested inner.clause

/-- Where compiling stops at a call that the outline takes, the top level may not stand as it
then is. -/
theorem not_composes_of_step {p : Progress} {o o' : Outline} {call : Call} {e : Imbalance}
    (h : Tracks p o) (hstep : step p call = .error e) (ho : o.step call = some o') :
    ¬ ∃ content, Composes o'.top content := by
  obtain ⟨opened, top⟩ := o
  have hopened : p.opened = opened.map Block.unclosed := h.opened
  cases call with
  | opening op field => cases hstep
  | predicate fields => cases opened <;> simp [step, hopened] at hstep
  | closing =>
    cases opened with
    | nil => cases ho
    | cons b around =>
      cases around with
      | cons outer around => simp [step, hopened] at hstep
      | nil =>
        cases ho
        intro hgiven
        obtain ⟨content, hcomposes⟩ := hgiven
        generalize hall : (Outline.add ⟨[], top⟩ b.clause).top = all at hcomposes
        cases hcomposes with
        | predicate fields =>
          obtain ⟨-, hlast⟩ := List.append_eq_singleton_iff.1 hall |>.resolve_right (by simp)
          cases hlast
        | blocks bs hnodup =>
          obtain ⟨before, htop, rfl⟩ := blocks_concat hall.symm
          have hnew : b.heading ∉ before.map Block.heading := by
            rw [List.map_append, List.nodup_append] at hnodup
            exact fun hmem => hnodup.2.2 _ hmem _ (List.mem_singleton_self _) rfl
          have hrep : repeated? p.content b.unclosed.block = none := by
            rw [(h.blocks before htop).2, Block.block_unclosed, repeated?_assembled_iff]
            exact hnew
          simp [step, hopened, hrep] at hstep

/-! ### Whole queues -/

theorem tracks_foldlM {calls : List Call} {p p' : Progress} {o : Outline} (h : Tracks p o)
    (hcalls : ∀ call ∈ calls, Queueable call) (hrun : calls.foldlM step p = .ok p') :
    ∃ o', calls.foldlM Outline.step o = some o' ∧ Tracks p' o' := by
  induction calls generalizing p o with
  | nil =>
    cases hrun
    exact ⟨o, rfl, h⟩
  | cons call rest ih =>
    rw [List.foldlM_cons] at hrun
    obtain ⟨next, hnext, hrest⟩ := bind_eq_ok_iff.1 hrun
    obtain ⟨o', ho', htracks⟩ := tracks_step h (hcalls call (List.mem_cons_self ..)) hnext
    rw [List.foldlM_cons, ho']
    exact ih htracks (fun c hc => hcalls c (List.mem_cons_of_mem call hc)) hrest

/-- Where compiling stops early, no calls after that make a condition. -/
theorem not_composes_of_error {calls : List Call} {p : Progress} {o o' : Outline} {e : Imbalance}
    (h : Tracks p o) (hcalls : ∀ call ∈ calls, Queueable call)
    (hrun : calls.foldlM step p = .error e) (ho : calls.foldlM Outline.step o = some o') :
    ¬ ∃ content, Composes o'.top content := by
  induction calls generalizing p o with
  | nil => cases hrun
  | cons call rest ih =>
    rw [List.foldlM_cons] at hrun ho
    obtain ⟨between, hbetween, hrest⟩ := Option.bind_eq_some_iff.1 ho
    cases hstep : step p call with
    | error stop =>
      intro hgiven
      obtain ⟨content, hcomposes⟩ := hgiven
      obtain ⟨later, hlater⟩ := top_of_foldlM hrest
      rw [hlater] at hcomposes
      exact not_composes_of_step h hstep hbetween (composes_of_append hcomposes)
    | ok next =>
      rw [hstep] at hrun
      obtain ⟨o₁, ho₁, htracks⟩ := tracks_step h (hcalls call (List.mem_cons_self ..)) hstep
      rw [hbetween] at ho₁
      cases ho₁
      exact ih htracks (fun c hc => hcalls c (List.mem_cons_of_mem call hc)) hrun hrest

theorem finish_eq_ok_iff (p : Progress) (content : Entries Value) :
    finish p = .ok content ↔
      p.opened = [] ∧ ¬(0 < p.predicates ∧ 1 < p.predicates + p.blocks) ∧ p.content = content := by
  rw [finish]
  by_cases hopened : p.opened = []
  · rw [if_neg (not_not_intro hopened)]
    split
    · rename_i hbare
      exact ⟨nofun, fun h => absurd hbare h.2.1⟩
    · rename_i hbare
      exact ⟨fun h => ⟨hopened, hbare, Except.ok.inj h⟩, fun h => congrArg _ h.2.2⟩
  · rw [if_pos hopened]
    exact ⟨nofun, fun h => absurd h.1 hopened⟩

/-- Where all blocks are closed, compiling ends well exactly if the top level may stand as it
is. -/
theorem Tracks.finish_iff {p : Progress} {top : List Clause} (h : Tracks p ⟨[], top⟩)
    (content : Entries Value) : finish p = .ok content ↔ Composes top content := by
  have hpredicates : p.predicates = top.countP Clause.isPredicate := h.predicates
  have htotal : p.predicates + p.blocks = top.length := h.total
  rw [finish_eq_ok_iff]
  constructor
  · intro hgiven
    obtain ⟨-, hbare, rfl⟩ := hgiven
    by_cases hnone : p.predicates = 0
    · obtain ⟨bs, rfl⟩ := blocks_of_countP (hpredicates ▸ hnone)
      obtain ⟨hnodup, hcontent⟩ := h.blocks bs rfl
      rw [hcontent]
      exact .blocks bs hnodup
    · have hle := List.countP_le_length (p := Clause.isPredicate) (l := top)
      obtain ⟨clause, rfl⟩ := List.length_eq_one_iff.1 (show top.length = 1 by omega)
      cases clause with
      | predicate fields =>
        rw [h.alone fields rfl]
        exact .predicate fields
      | block heading clauses => exact absurd hpredicates hnone
  · intro hcomposes
    refine ⟨h.opened, ?_, ?_⟩
    · cases hcomposes with
      | predicate fields => simp [htotal]
      | blocks bs hnodup =>
        rw [countP_map_clause] at hpredicates
        omega
    · cases hcomposes with
      | predicate fields => exact h.alone _ rfl
      | blocks bs hnodup => exact (h.blocks bs rfl).2

/-- Calls compile exactly if they are the calls of a forest whose top level is well
composed. -/
theorem compile_eq_ok_iff {calls : List Call} (hcalls : ∀ call ∈ calls, Queueable call)
    (content : Entries Value) :
    compile [] calls = .ok content ↔
      ∃ forest, callsOf forest = calls ∧ Composes forest content := by
  rw [compile, bind_eq_ok_iff]
  constructor
  · intro hgiven
    obtain ⟨p, hrun, hfinish⟩ := hgiven
    obtain ⟨⟨opened, top⟩, houtline, htracks⟩ := tracks_foldlM tracks_start hcalls hrun
    have hclosed := ((finish_eq_ok_iff p content).1 hfinish).1
    obtain rfl := List.map_eq_nil_iff.1 (htracks.opened.symm.trans hclosed)
    exact ⟨top, (outline?_eq_some_iff calls top).1 houtline, (htracks.finish_iff content).1 hfinish⟩
  · intro hgiven
    obtain ⟨forest, hforest, hcomposes⟩ := hgiven
    have houtline := (outline?_eq_some_iff calls forest).2 hforest
    cases hrun : calls.foldlM step ⟨[], [], 0, 0⟩ with
    | error e => exact absurd ⟨_, hcomposes⟩ (not_composes_of_error tracks_start hcalls hrun houtline)
    | ok p =>
      obtain ⟨o, ho, htracks⟩ := tracks_foldlM tracks_start hcalls hrun
      obtain rfl : o = ⟨[], forest⟩ := Option.some.inj (ho.symm.trans houtline)
      exact ⟨p, rfl, (htracks.finish_iff content).2 hcomposes⟩

end DocumentModel.Condition

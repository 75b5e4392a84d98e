import DocumentModel.Proofs.Condition.Forest
import DocumentModel.Proofs.Merge.Combine

/-! The top level of a condition.

Blocks with different headings stand side by side: operators in the order of their first block,
and the fields of element blocks together under one operator (`assembled`). A further block may
join exactly if its heading is new, and joining it is assembling one block more:
`combine_assembled`. -/
namespace DocumentModel.Condition
open Merge (combine combineValue combineValue_none combine_single combine_of_disjoint)

/-! ### Blocks side by side -/

/-- The maps of the clauses of a block. -/
def Block.list (b : Block) : Value := .list (renderAll b.clauses)

/-- The clauses of element blocks, by field. -/
def elements (blocks : List Block) : Entries Value :=
  blocks.filterMap fun b => b.heading.field.map fun field => (field, b.list)

/-- What blocks put under an operator. -/
def body (blocks : List Block) : Connective → Value
  | .elementAnd => .map (elements blocks)
  | op =>
    match blocks.find? (·.heading.op = op) with
    | some b => b.list
    | none => .null

/-- The map of blocks that stand side by side. -/
def assembled (blocks : List Block) : Entries Value :=
  Entries.tabulate Connective.key (body blocks) (blocks.map (·.heading.op)).eraseDups

theorem key_inj {a b : Connective} (h : a.key = b.key) : a = b := by
  cases a <;> cases b <;> first | rfl | simp [Connective.key] at h

theorem get?_assembled (blocks : List Block) (op : Connective) :
    (assembled blocks).get? op.key =
      if op ∈ blocks.map (·.heading.op) then some (body blocks op) else none := by
  rw [assembled, Entries.get?_tabulate fun _ _ h => key_inj h]
  simp only [List.mem_eraseDups]

theorem mem_keys_elements_iff (blocks : List Block) (field : String) :
    field ∈ (elements blocks).keys ↔ Heading.elementAnd field ∈ blocks.map Block.heading := by
  induction blocks with
  | nil => simp [elements, Entries.keys]
  | cons b rest ih =>
    obtain ⟨heading, clauses⟩ := b
    rw [List.map_cons, List.mem_cons, ← ih]
    cases heading with
    | and | or =>
      refine (or_iff_right fun heq => ?_).symm
      cases heq
    | elementAnd other =>
      show field ∈ other :: (elements rest).keys ↔ _
      rw [List.mem_cons, Heading.elementAnd.injEq]

/-! ### A block more -/

theorem repeated?_single (content : Entries Value) (op : String) (value : Value) :
    repeated? content [(op, value)] = none ↔ collides content op value = false := by
  simp [repeated?]

theorem collides_of_none {content : Entries Value} {op : String} (h : content.get? op = none)
    (value : Value) : collides content op value = false := by
  simp [collides, h]

/-- Clauses by themselves collide with anything under their operator. -/
theorem collides_list (content : Entries Value) (op : String) (items : List Value) :
    collides content op (.list items) = (content.get? op).isSome := by
  cases h : content.get? op with
  | none => exact collides_of_none h _
  | some existing => cases existing <;> simp [collides, h]

/-- Clauses for a field collide with others for the same field. -/
theorem collides_field {content existing : Entries Value} {op : String}
    (h : content.get? op = some (.map existing)) (field : String) (items : Value) :
    collides content op (.map [(field, items)]) = existing.contains field := by
  simp [collides, h, Entries.keys]

theorem Heading.plain_or_elementAnd (h : Heading) :
    h.field = none ∨ ∃ field, h = .elementAnd field := by
  cases h with
  | and | or => exact .inl rfl
  | elementAnd field => exact .inr ⟨field, rfl⟩

theorem block_plain {h : Heading} (hfield : h.field = none) (clauses : List Value) :
    h.block clauses = [(h.op.key, .list clauses)] := by
  cases h with
  | elementAnd field => cases hfield
  | and | or => rfl

/-- A heading without a field is the only one of its operator. -/
theorem heading_of_op {h other : Heading} (hfield : h.field = none) (heq : other.op = h.op) :
    other = h := by
  cases h with
  | elementAnd field => cases hfield
  | and | or => cases other <;> first | rfl | cases heq

theorem op_mem_of_heading_mem {h : Heading} {blocks : List Block}
    (hmem : h ∈ blocks.map Block.heading) : h.op ∈ blocks.map (·.heading.op) := by
  obtain ⟨b, hb, rfl⟩ := List.mem_map.1 hmem
  exact List.mem_map_of_mem hb

theorem op_mem_iff {h : Heading} (hfield : h.field = none) (blocks : List Block) :
    h.op ∈ blocks.map (·.heading.op) ↔ h ∈ blocks.map Block.heading := by
  refine ⟨fun hmem => ?_, op_mem_of_heading_mem⟩
  obtain ⟨b, hb, heq⟩ := List.mem_map.1 hmem
  exact List.mem_map.2 ⟨b, hb, heading_of_op hfield heq⟩

/-- A block without a field collides exactly if its operator is there. -/
theorem collides_plain {h : Heading} (hfield : h.field = none) (blocks : List Block)
    (items : List Value) :
    collides (assembled blocks) h.op.key (.list items) = false ↔
      h ∉ blocks.map Block.heading := by
  rw [collides_list, get?_assembled, ← op_mem_iff hfield]
  by_cases hop : h.op ∈ blocks.map (·.heading.op)
  · simp [hop]
  · simp [hop]

theorem collides_elementAnd (blocks : List Block) (field : String) (items : Value) :
    collides (assembled blocks) Connective.elementAnd.key (.map [(field, items)]) = false ↔
      Heading.elementAnd field ∉ blocks.map Block.heading := by
  have hget := get?_assembled blocks .elementAnd
  by_cases hop : Connective.elementAnd ∈ blocks.map (·.heading.op)
  · rw [if_pos hop] at hget
    rw [collides_field hget, ← mem_keys_elements_iff, ← Entries.isSome_get?_iff,
      Bool.not_eq_true]
    rfl
  · rw [if_neg hop] at hget
    exact ⟨fun _ hmem => hop (op_mem_of_heading_mem hmem), fun _ => collides_of_none hget _⟩

/-- A block collides with those before it exactly if its heading is among theirs. -/
theorem repeated?_assembled_iff (blocks : List Block) (h : Heading) (clauses : List Value) :
    repeated? (assembled blocks) (h.block clauses) = none ↔ h ∉ blocks.map Block.heading := by
  rcases h.plain_or_elementAnd with hfield | ⟨field, rfl⟩
  · rw [block_plain hfield, repeated?_single, collides_plain hfield]
  · rw [Heading.block, repeated?_single, collides_elementAnd]

/-- The value under its operator that a block leaves. -/
def joined (blocks : List Block) (b : Block) : Value :=
  match b.heading with
  | .elementAnd field => .map (elements blocks ++ [(field, b.list)])
  | _ => b.list

theorem joined_plain {b : Block} (hfield : b.heading.field = none) (blocks : List Block) :
    joined blocks b = b.list := by
  obtain ⟨h, clauses⟩ := b
  cases h with
  | elementAnd field => cases hfield
  | and | or => rfl

theorem body_plain {op : Connective} (hop : op ≠ .elementAnd) (blocks : List Block) :
    body blocks op =
      match blocks.find? (·.heading.op = op) with
      | some b => b.list
      | none => .null := by
  cases op with
  | elementAnd => exact absurd rfl hop
  | and | or => rfl

theorem op_ne_elementAnd_iff (h : Heading) : h.op ≠ .elementAnd ↔ h.field = none := by
  cases h <;> simp [Heading.op, Heading.field]

theorem find?_of_notMem {h : Heading} (hfield : h.field = none) {blocks : List Block}
    (hnew : h ∉ blocks.map Block.heading) : blocks.find? (·.heading.op = h.op) = none := by
  rw [← op_mem_iff hfield] at hnew
  rw [List.find?_eq_none]
  intro b hb heq
  exact hnew (List.mem_map.2 ⟨b, hb, by simpa using heq⟩)

/-- A block with a new heading changes what stands under its operator, and nothing else. -/
theorem body_concat {blocks : List Block} {b : Block}
    (hnew : b.heading ∉ blocks.map Block.heading) :
    body (blocks ++ [b]) = Function.update (body blocks) b.heading.op (joined blocks b) := by
  funext op
  rw [Function.update_apply]
  by_cases hop : op = b.heading.op
  · subst hop
    rw [if_pos rfl]
    rcases b.heading.plain_or_elementAnd with hfield | ⟨field, hfield⟩
    · rw [body_plain ((op_ne_elementAnd_iff _).2 hfield), joined_plain hfield,
        List.find?_append, find?_of_notMem hfield hnew]
      simp
    · simp [body, joined, elements, hfield, Heading.op, Heading.field]
  · rw [if_neg hop]
    by_cases helement : op = .elementAnd
    · subst helement
      have hfield : b.heading.field = none := (op_ne_elementAnd_iff _).1 (Ne.symm hop)
      simp [body, elements, hfield]
    · rw [body_plain helement, body_plain helement, List.find?_append]
      simp [Ne.symm hop]

theorem assembled_concat {blocks : List Block} {b : Block}
    (hnew : b.heading ∉ blocks.map Block.heading) :
    assembled (blocks ++ [b]) =
      (assembled blocks).insert b.heading.op.key (joined blocks b) := by
  have htold : ∀ op ∈ blocks.map (·.heading.op), op.key = b.heading.op.key → op = b.heading.op :=
    fun _ _ h => key_inj h
  rw [assembled, List.map_append, List.map_singleton, body_concat hnew,
    ← Entries.insert_tabulate_eraseDups htold]
  rfl

theorem elements_eq_nil {blocks : List Block}
    (h : Connective.elementAnd ∉ blocks.map (·.heading.op)) : elements blocks = [] := by
  rw [elements, List.filterMap_eq_nil_iff]
  intro b hb
  have hfield : b.heading.field = none := by
    refine (op_ne_elementAnd_iff _).1 fun hop => h ?_
    exact List.mem_map.2 ⟨b, hb, hop⟩
  rw [hfield, Option.map_none]

/-- What comes in under the operator of a block is what the block leaves there. -/
theorem combineValue_elementAnd {blocks : List Block} {field : String} {clauses : List Clause}
    (hnew : Heading.elementAnd field ∉ blocks.map Block.heading) :
    combineValue ((assembled blocks).get? Connective.elementAnd.key)
        (.map [(field, .list (renderAll clauses))]) =
      joined blocks ⟨.elementAnd field, clauses⟩ := by
  rw [get?_assembled]
  by_cases hop : Connective.elementAnd ∈ blocks.map (·.heading.op)
  · have hfresh : ∀ key ∈ Entries.keys [(field, Value.list (renderAll clauses))],
        key ∉ (elements blocks).keys := by
      intro key hkey
      obtain rfl : key = field := by simpa [Entries.keys] using hkey
      rwa [mem_keys_elements_iff]
    rw [if_pos hop, body, combineValue, combine_of_disjoint (by simp [Entries.keys]) hfresh]
    rfl
  · rw [if_neg hop, combineValue_none, joined, elements_eq_nil hop]
    rfl

/-- Combining with a block whose heading is new is assembling one block more. -/
theorem combine_assembled {blocks : List Block} {b : Block}
    (hnew : b.heading ∉ blocks.map Block.heading) :
    combine (assembled blocks) (b.heading.block (renderAll b.clauses)) =
      assembled (blocks ++ [b]) := by
  rw [assembled_concat hnew]
  obtain ⟨h, clauses⟩ := b
  rcases h.plain_or_elementAnd with hfield | ⟨field, rfl⟩
  · have hget : (assembled blocks).get? h.op.key = none := by
      rw [get?_assembled, if_neg (mt (op_mem_iff hfield blocks).1 hnew)]
    rw [block_plain hfield, combine_single, hget, combineValue_none, joined_plain hfield]
    rfl
  · rw [Heading.block, combine_single, combineValue_elementAnd hnew]
    rfl

/-! ### What may stand at the top level -/

/-- Clauses that may stand at the top level of a condition, and their map: a predicate by
itself, or blocks with different headings, if any. -/
inductive Composes : List Clause → Entries Value → Prop
  | predicate (fields : Entries Value) : Composes [.predicate fields] fields
  | blocks (bs : List Block) (h : (bs.map Block.heading).Nodup) :
    Composes (bs.map Block.clause) (assembled bs)

end DocumentModel.Condition

import DocumentModel.Proofs.Entries.Laws
import DocumentModel.Proofs.FieldPath.Grammar
import DocumentModel.Proofs.Mutation.Bucket
import Mathlib.Data.List.Nodup

/-! What a run of calls makes of a mutation.

A call asks for a change if its path may be changed and its amount, where it has one, is
positive; otherwise it fails (`apply_of_change?`, `apply_of_no_change?`). The changes of one
operator make a table: each path once, in the order in which the paths were first changed, with
the value that it was given last. A mutation tells the tables of its operators, in the order in
which the operators were first used: `run_tells_tables`. -/
namespace DocumentModel.Mutation

/-! ### Calls -/

/-- A call that builds a mutation. -/
inductive Call
  | set (path : String) (value : Value)
  | setOrReplace (path : String) (value : Value)
  | appendString (path text : String)
  | appendList (path : String) (items : List Value)
  | mergeMap (path : String) (fields : Entries Value)
  | mergeDocument (path : String) (d : Document)
  | delete (path : String)
  | incrementInt (path : String) (amount : Int64)
  | decrementInt (path : String) (amount : Int64)
  | incrementFloat (path : String) (amount : Binary64)
  | decrementFloat (path : String) (amount : Binary64)
  | incrementIntByOne (path : String)
  | decrementIntByOne (path : String)
  | incrementFloatByOne (path : String)
  | decrementFloatByOne (path : String)

namespace Call

/-- The mutation that a call makes of one. -/
def apply (m : Mutation) : Call → Except Error Mutation
  | .set path value => m.set path value
  | .setOrReplace path value => m.setOrReplace path value
  | .appendString path text => m.appendString path text
  | .appendList path items => m.appendList path items
  | .mergeMap path fields => m.mergeMap path fields
  | .mergeDocument path d => m.mergeDocument path d
  | .delete path => m.delete path
  | .incrementInt path amount => m.incrementInt path amount
  | .decrementInt path amount => m.decrementInt path amount
  | .incrementFloat path amount => m.incrementFloat path amount
  | .decrementFloat path amount => m.decrementFloat path amount
  | .incrementIntByOne path => m.incrementIntByOne path
  | .decrementIntByOne path => m.decrementIntByOne path
  | .incrementFloatByOne path => m.incrementFloatByOne path
  | .decrementFloatByOne path => m.decrementFloatByOne path

/-- The operator that a call is about. -/
def op : Call → FieldChange
  | .set .. => .set
  | .setOrReplace .. => .setOrReplace
  | .appendString .. | .appendList .. => .append
  | .mergeMap .. | .mergeDocument .. => .merge
  | .delete .. => .delete
  | .incrementInt .. | .incrementFloat .. | .incrementIntByOne _ | .incrementFloatByOne _ =>
    .increment
  | .decrementInt .. | .decrementFloat .. | .decrementIntByOne _ | .decrementFloatByOne _ =>
    .decrement

/-- The text of the path that a call is about. -/
def path : Call → String
  | .set path _ | .setOrReplace path _ | .appendString path _ | .appendList path _ => path
  | .mergeMap path _ | .mergeDocument path _ | .delete path => path
  | .incrementInt path _ | .decrementInt path _ => path
  | .incrementFloat path _ | .decrementFloat path _ => path
  | .incrementIntByOne path | .decrementIntByOne path => path
  | .incrementFloatByOne path | .decrementFloatByOne path => path

/-- The value that a call gives. A deletion gives none. -/
def value : Call → Value
  | .set _ value | .setOrReplace _ value => value
  | .appendString _ text => .string text
  | .appendList _ items => .list items
  | .mergeMap _ fields => .map fields
  | .mergeDocument _ d => .map d.root
  | .delete _ => .null
  | .incrementInt _ amount | .decrementInt _ amount => .int amount
  | .incrementFloat _ amount | .decrementFloat _ amount => .float amount
  | .incrementIntByOne _ | .decrementIntByOne _ => .int 1
  | .incrementFloatByOne _ | .decrementFloatByOne _ => .float .one

/-- Whether the amount of a call, if it has one, is positive. -/
def hasPositiveAmount : Call → Bool
  | .incrementInt _ amount | .decrementInt _ amount => 0 < amount
  | .incrementFloat _ amount | .decrementFloat _ amount => amount.isPositive
  | _ => true

end Call

/-- What stands after a call. One that fails leaves the mutation as it was. -/
def after (m : Mutation) (call : Call) : Mutation :=
  match call.apply m with
  | .ok m' => m'
  | .error _ => m

/-- The mutation that calls build, from the empty one. -/
def run (calls : List Call) : Mutation := calls.foldl after empty

/-! ### Changes -/

/-- A change of the field at a path that some text is written for. -/
structure Change where
  op : FieldChange
  path : FieldPath
  value : Value
  written : ∃ text, FieldPath.parse text = .ok path

/-- The change that a call asks for. The document as a whole and its identity cannot be
changed. -/
def Call.change? (call : Call) : Option Change :=
  match h : FieldPath.parse call.path with
  | .ok path =>
    if call.hasPositiveAmount && !path.isEmpty && !path.isIdentity then
      some ⟨call.op, path, call.value, call.path, h⟩
    else none
  | .error _ => none

/-- The changes that calls ask for, in order. -/
def changes (calls : List Call) : List Change := calls.filterMap Call.change?

/-! ### Tables -/

/-- The value that a path was given last. -/
def lastValue (changes : List Change) (path : FieldPath) : Value :=
  changes.foldl (fun value c => if c.path = path then c.value else value) .null

/-- The table of changes: each path once, in the order of first change, with its last
value. -/
def table (changes : List Change) : Entries Value :=
  Entries.tabulate FieldPath.toText (lastValue changes) (changes.map Change.path).eraseDups

/-- The bucket of an operator. -/
def bucket (changes : List Change) (op : FieldChange) : Value :=
  bundle ((table (changes.filter (·.op = op))).map (item op))

/-- The buckets of the operators, in the order of first use. -/
def buckets (changes : List Change) : Entries Value :=
  Entries.tabulate FieldChange.key (bucket changes) (changes.map Change.op).eraseDups

/-! ### What one call does -/

theorem target_of_parse {text : String} {p : FieldPath} (h : FieldPath.parse text = .ok p)
    (hempty : p.isEmpty = false) (hid : p.isIdentity = false) : target text = .ok p.toText := by
  rw [target, h]
  show (if p.isEmpty = true then _ else if p.isIdentity = true then _ else _) = _
  rw [hempty, hid]
  rfl

/-- Neither the document as a whole nor its identity is a target. -/
theorem target_error_of_parse {text : String} {p : FieldPath} (h : FieldPath.parse text = .ok p)
    (hbad : p.isEmpty = true ∨ p.isIdentity = true) :
    ∃ e, target text = .error e ∧ e.kind = .malformedPath := by
  rw [target, h]
  show ∃ e, (if p.isEmpty = true then _ else if p.isIdentity = true then _ else _) = _ ∧ _
  rcases hbad with hempty | hid
  · rw [hempty]
    exact ⟨_, rfl, rfl⟩
  · rw [hid]
    split <;> exact ⟨_, rfl, rfl⟩

/-- Nor is what cannot be read. -/
theorem target_error_of_error {text : String} {e : Error} (h : FieldPath.parse text = .error e) :
    ∃ e, target text = .error e ∧ e.kind = .malformedPath := by
  refine ⟨e, ?_, FieldPath.kind_of_parse_error h⟩
  simp only [target, h]
  rfl

/-- A mutation with the path of a text given a value under an operator. -/
def amended (m : Mutation) (op : FieldChange) (path : String) (value : Value) : Mutation :=
  ⟨m.content.insert op.key (amend op (m.content.get? op.key) path value)⟩

theorem record_of_target (m : Mutation) {op : FieldChange} (hop : op ≠ .delete)
    {text path : String} (h : target text = .ok path) (value : Value) :
    m.record op text value = .ok (m.amended op path value) := by
  simp only [record, h, amended, amend, if_neg hop]
  rfl

theorem record_error (m : Mutation) (op : FieldChange) {text : String} {e : Error}
    (h : target text = .error e) (value : Value) : m.record op text value = .error e := by
  simp only [record, h]
  rfl

theorem delete_of_target (m : Mutation) {text path : String} (h : target text = .ok path)
    (value : Value) : m.delete text = .ok (m.amended .delete path value) := by
  simp only [delete, h, amended, amend, if_true]
  rfl

theorem delete_error (m : Mutation) {text : String} {e : Error} (h : target text = .error e) :
    m.delete text = .error e := by
  simp only [delete, h]
  rfl

/-- Once its amount is found positive, where it has one, a call records its value or a deletion. -/
theorem apply_of_positiveAmount (m : Mutation) {call : Call} (h : call.hasPositiveAmount = true) :
    call.apply m =
      if call.op = .delete then m.delete call.path
      else m.record call.op call.path call.value := by
  cases call with
  | incrementInt | decrementInt =>
    have hamount := of_decide_eq_true h
    simp only [Call.apply, incrementInt, decrementInt, changeByInt, if_pos hamount]
    rfl
  | incrementFloat | decrementFloat =>
    have hamount : Binary64.isPositive _ = true := h
    simp only [Call.apply, incrementFloat, decrementFloat, changeByFloat, if_pos hamount]
    rfl
  | _ => rfl

/-- A call whose path may be changed and whose amount is positive gives the path its value
under its operator. -/
theorem apply_of_target (m : Mutation) {call : Call} {path : String}
    (h : target call.path = .ok path) (hpos : call.hasPositiveAmount = true) :
    call.apply m = .ok (m.amended call.op path call.value) := by
  rw [apply_of_positiveAmount m hpos]
  by_cases hop : call.op = .delete
  · rw [if_pos hop, hop, delete_of_target m h]
  · rw [if_neg hop, record_of_target m hop h]

/-- A call whose path may not be changed fails as the check of the path does. -/
theorem apply_of_target_error (m : Mutation) {call : Call} {e : Error}
    (h : target call.path = .error e) (hpos : call.hasPositiveAmount = true) :
    call.apply m = .error e := by
  rw [apply_of_positiveAmount m hpos]
  by_cases hop : call.op = .delete
  · rw [if_pos hop, delete_error m h]
  · rw [if_neg hop, record_error m call.op h]

/-- A call whose amount is not positive fails, whatever its path is. -/
theorem apply_of_amount (m : Mutation) {call : Call} (h : call.hasPositiveAmount = false) :
    ∃ e, call.apply m = .error e ∧ e.kind = .invalidMagnitude := by
  cases call with
  | incrementInt | decrementInt =>
    have hamount := of_decide_eq_false h
    simp only [Call.apply, incrementInt, decrementInt, changeByInt, if_neg hamount]
    exact ⟨_, rfl, rfl⟩
  | incrementFloat | decrementFloat =>
    have hamount : Binary64.isPositive _ = false := h
    simp only [Call.apply, incrementFloat, decrementFloat, changeByFloat, hamount]
    exact ⟨_, rfl, rfl⟩
  | _ => cases h

/-- A call asks for a change if it has an amount that is positive, where it has one, and a path
that can be read and may be changed. -/
theorem change?_eq_some_iff {call : Call} {c : Change} :
    call.change? = some c ↔ call.hasPositiveAmount = true ∧ c.path.isEmpty = false ∧
      c.path.isIdentity = false ∧ FieldPath.parse call.path = .ok c.path ∧ c.op = call.op ∧
      c.value = call.value := by
  obtain ⟨op, path, value, written⟩ := c
  rw [Call.change?]
  split
  · next p hparse =>
    have hpath : FieldPath.parse call.path = .ok path ↔ p = path := by rw [hparse, Except.ok.injEq]
    simp only [hpath, Option.ite_none_right_eq_some, Option.some.injEq, Change.mk.injEq,
      Bool.and_eq_true, Bool.not_eq_true']
    constructor
    · rintro ⟨⟨⟨hpos, hempty⟩, hid⟩, rfl, rfl, rfl⟩
      exact ⟨hpos, hempty, hid, rfl, rfl, rfl⟩
    · rintro ⟨hpos, hempty, hid, rfl, rfl, rfl⟩
      exact ⟨⟨⟨hpos, hempty⟩, hid⟩, rfl, rfl, rfl⟩
  · next e hparse =>
    refine iff_of_false nofun fun hgiven => ?_
    obtain ⟨-, -, -, hpath, -⟩ := hgiven
    rw [hparse] at hpath
    cases hpath

theorem apply_of_change? (m : Mutation) {call : Call} {c : Change} (h : call.change? = some c) :
    call.op = c.op ∧ call.apply m = .ok (m.amended c.op c.path.toText c.value) := by
  obtain ⟨hpos, hempty, hid, hparse, hop, hvalue⟩ := change?_eq_some_iff.1 h
  rw [hop, hvalue]
  exact ⟨rfl, apply_of_target m (target_of_parse hparse hempty hid) hpos⟩

/-- A call that asks for no change fails, for its amount before its path. -/
theorem apply_of_no_change? (m : Mutation) {call : Call} (h : call.change? = none) :
    ∃ e, call.apply m = .error e ∧
      e.kind = if call.hasPositiveAmount then .malformedPath else .invalidMagnitude := by
  cases hpos : call.hasPositiveAmount with
  | false => exact apply_of_amount m hpos
  | true =>
    obtain ⟨e, htarget, hkind⟩ :
        ∃ e, target call.path = .error e ∧ e.kind = .malformedPath := by
      cases hparse : FieldPath.parse call.path with
      | error e => exact target_error_of_error hparse
      | ok p =>
        refine target_error_of_parse hparse ?_
        by_contra hgood
        rw [not_or, Bool.not_eq_true, Bool.not_eq_true] at hgood
        have hsome := change?_eq_some_iff (c := ⟨call.op, p, call.value, call.path, hparse⟩).2
          ⟨hpos, hgood.1, hgood.2, hparse, rfl, rfl⟩
        rw [h] at hsome
        cases hsome
    exact ⟨e, apply_of_target_error m htarget hpos, hkind⟩

/-! ### What a run does -/

theorem run_concat (calls : List Call) (call : Call) :
    run (calls ++ [call]) = (run calls).after call := by
  simp [run, List.foldl_append]

theorem changes_concat (calls : List Call) (call : Call) :
    changes (calls ++ [call]) = changes calls ++ call.change?.toList := by
  cases h : call.change? <;> simp [changes, List.filterMap_append, h]

theorem lastValue_concat (changes : List Change) (c : Change) :
    lastValue (changes ++ [c]) = Function.update (lastValue changes) c.path c.value := by
  funext p
  simp [lastValue, List.foldl_append, Function.update_apply, eq_comm]

/-- Paths that texts are written for have different canonical texts. -/
theorem Change.path_inj {c d : Change} (h : c.path.toText = d.path.toText) : c.path = d.path := by
  obtain ⟨s, hs⟩ := c.written
  obtain ⟨t, ht⟩ := d.written
  exact (FieldPath.toText_inj_of_parse hs ht).1 h

/-- A further change gives its path a value in the table. -/
theorem table_concat (changes : List Change) (c : Change) :
    table (changes ++ [c]) = (table changes).insert c.path.toText c.value := by
  have htold : ∀ p ∈ changes.map Change.path, p.toText = c.path.toText → p = c.path := by
    intro p hp h
    obtain ⟨d, -, rfl⟩ := List.mem_map.1 hp
    exact Change.path_inj h
  rw [table, table, List.map_append, List.map_singleton, lastValue_concat,
    Entries.insert_tabulate_eraseDups htold]

theorem table_ne_nil {changes : List Change} {c : Change} (h : c ∈ changes) :
    table changes ≠ [] := by
  have hpath : c.path ∈ (changes.map Change.path).eraseDups :=
    List.mem_eraseDups.2 (List.mem_map_of_mem h)
  intro hnil
  rw [table, Entries.tabulate, List.map_eq_nil_iff] at hnil
  rw [hnil] at hpath
  cases hpath

theorem key_inj {a b : FieldChange} (h : a.key = b.key) : a = b := by
  cases a <;> cases b <;> first | rfl | simp [FieldChange.key] at h

theorem get?_buckets (changes : List Change) (op : FieldChange) :
    (buckets changes).get? op.key =
      if op ∈ changes.map Change.op then some (bucket changes op) else none := by
  rw [buckets, Entries.get?_tabulate fun _ _ h => key_inj h]
  simp only [List.mem_eraseDups]

/-- A further change gives its path a value in the bucket of its operator, and changes no
other bucket. -/
theorem bucket_concat (changes : List Change) (c : Change) :
    bucket (changes ++ [c]) = Function.update (bucket changes) c.op
      (amend c.op ((buckets changes).get? c.op.key) c.path.toText c.value) := by
  funext op
  rw [bucket, List.filter_append, Function.update_apply]
  by_cases hop : op = c.op
  · subst hop
    have hlast : [c].filter (·.op = c.op) = [c] := by simp
    rw [if_pos rfl, hlast, table_concat, get?_buckets]
    by_cases hused : c.op ∈ changes.map Change.op
    · obtain ⟨d, hd, heq⟩ := List.mem_map.1 hused
      have hne : table (changes.filter (·.op = c.op)) ≠ [] :=
        table_ne_nil (List.mem_filter.2 ⟨hd, by simpa using heq⟩)
      rw [if_pos hused, bucket, amend_bundle c.op hne]
    · have hnone : changes.filter (·.op = c.op) = [] := by
        rw [List.filter_eq_nil_iff]
        intro d hd h
        exact hused (List.mem_map.2 ⟨d, hd, by simpa using h⟩)
      rw [if_neg hused, amend_none, hnone]
      rfl
  · have hlast : [c].filter (·.op = op) = [] := by simpa using Ne.symm hop
    rw [if_neg hop, hlast, List.append_nil]
    rfl

theorem buckets_concat (changes : List Change) (c : Change) :
    buckets (changes ++ [c]) = (buckets changes).insert c.op.key
      (amend c.op ((buckets changes).get? c.op.key) c.path.toText c.value) := by
  have htold : ∀ op ∈ changes.map Change.op, op.key = c.op.key → op = c.op :=
    fun _ _ h => key_inj h
  rw [buckets, List.map_append, List.map_singleton, bucket_concat,
    ← Entries.insert_tabulate_eraseDups htold]
  rfl

/-- A mutation tells the tables of the changes that its calls asked for. -/
theorem content_run (calls : List Call) : (run calls).content = buckets (changes calls) := by
  induction calls using List.reverseRecOn with
  | nil => rfl
  | append_singleton calls call ih =>
    rw [run_concat, changes_concat, after]
    cases h : call.change? with
    | none =>
      obtain ⟨e, hfail, -⟩ := apply_of_no_change? (run calls) h
      rw [hfail]
      simpa using ih
    | some c =>
      rw [(apply_of_change? (run calls) h).2]
      show (amended (run calls) c.op c.path.toText c.value).content = buckets (changes calls ++ [c])
      rw [buckets_concat, amended, ih]

theorem nodup_keys_table (changes : List Change) : (table changes).keys.Nodup := by
  rw [table, Entries.keys_tabulate]
  refine List.Nodup.map_on ?_ (Entries.nodup_eraseDups _)
  intro p hp q hq h
  obtain ⟨c, -, rfl⟩ := List.mem_map.1 (List.mem_eraseDups.1 hp)
  obtain ⟨d, -, rfl⟩ := List.mem_map.1 (List.mem_eraseDups.1 hq)
  exact Change.path_inj h

theorem apply_isOk_iff (m : Mutation) (call : Call) :
    (∃ m', call.apply m = .ok m') ↔ call.change?.isSome = true := by
  cases h : call.change? with
  | none =>
    obtain ⟨e, hfail, -⟩ := apply_of_no_change? m h
    simp [hfail]
  | some c => simp [(apply_of_change? m h).2]

/-- A call changes the bucket of its operator only. -/
theorem get?_of_apply {m m' : Mutation} {call : Call} (h : call.apply m = .ok m')
    {op : FieldChange} (hop : op ≠ call.op) :
    m'.content.get? op.key = m.content.get? op.key := by
  cases hchange : call.change? with
  | none =>
    obtain ⟨e, hfail, -⟩ := apply_of_no_change? m hchange
    rw [hfail] at h
    cases h
  | some c =>
    obtain ⟨hcall, hdone⟩ := apply_of_change? m hchange
    rw [hdone] at h
    cases h
    rw [amended, Entries.get?_insert, if_neg]
    intro hkey
    exact hop ((key_inj hkey).symm.trans hcall.symm)

/-- **A mutation tells one table for each operator.** The operators stand in the order of first
use, and the bucket of each tells the paths that were changed under it: once each, in the order
of first change, with the last value. Calls that ask for no change fail and leave no trace; two
texts name one entry exactly if they are texts of one path; and a call leaves the buckets of
the other operators as they were. -/
theorem run_tells_tables (calls : List Call) :
    (run calls).content = buckets (changes calls) ∧
      (∀ op, (table ((changes calls).filter (·.op = op))).keys.Nodup) ∧
      (∀ (m : Mutation) (call : Call),
        (∃ m', call.apply m = .ok m') ↔ call.change?.isSome = true) ∧
      (∀ (s t : String) (p q : FieldPath), FieldPath.parse s = .ok p → FieldPath.parse t = .ok q →
        (p.toText = q.toText ↔ p = q)) ∧
      ∀ (m m' : Mutation) (call : Call), call.apply m = .ok m' →
        ∀ op, op ≠ call.op → m'.content.get? op.key = m.content.get? op.key := by
  refine ⟨content_run calls, fun op => nodup_keys_table _, apply_isOk_iff, ?_, ?_⟩
  · intro s t p q hp hq
    exact FieldPath.toText_inj_of_parse hp hq
  · intro m m' call h op hop
    exact get?_of_apply h hop

example :
    (run [.set "a" .null, .delete "b.c", .set "[1].c" .null, .set " a " (.int 1)]).content =
      [("$set", .list [.map [("a", .int 1)], .map [("[1].c", .null)]]),
        ("$delete", .string "b.c")] := by
  cbv

end DocumentModel.Mutation

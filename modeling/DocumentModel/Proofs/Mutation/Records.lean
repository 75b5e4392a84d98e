import DocumentModel.Proofs.Mutation.Tables

/-! What a mutation has on record.

`recorded` reads the entries of an operator off its bucket, in whichever form the bucket has, and
every bucket is told by what is read off it (`bucket_run`). Each entry comes of a call that asked
for it (`exists_change_of_mem`), so its path was checked on the way in, and so was its value where
it is an amount. A call that fails a check leaves nothing: `run_records_checked` says what is on
record after a run, and which calls fail, and how. -/
namespace DocumentModel

/-! ### Amounts -/

/-- Greater than zero is what has no sign and is neither zero nor no number at all. -/
theorem Binary64.isPositive_iff {x : Binary64} :
    x.isPositive = true ↔ x.isNaN = false ∧ x.isNegative = false ∧ x.magnitude ≠ 0 := by
  have hplace : 0 < x.place ↔ x.isNegative = false ∧ x.magnitude ≠ 0 := by
    rw [place]
    split <;> simp [*, Nat.pos_iff_ne_zero]
  simp [isPositive, hplace]

/-- A number greater than zero: an integer of at least one, or a floating-point number without a
sign that is neither zero nor no number at all. -/
def Value.IsPositive : Value → Prop
  | .int n => 1 ≤ n.toInt
  | .float x => x.isNaN = false ∧ x.isNegative = false ∧ x.magnitude ≠ 0
  | _ => False

theorem Value.isPositive_int_iff {n : Int64} : (Value.int n).IsPositive ↔ 0 < n := by
  rw [Int64.lt_iff_toInt_lt]
  exact Iff.rfl

namespace Mutation

/-! ### Reading a bucket -/

/-- The entries that one item of a bucket tells. A deletion has no value. -/
def itemEntries : Value → Entries Value
  | .map fields => fields
  | .string path => [(path, .null)]
  | _ => []

/-- The entries that a bucket tells. -/
def bucketEntries : Value → Entries Value
  | .list items => items.flatMap itemEntries
  | single => itemEntries single

/-- The paths on record under an operator, with their values. -/
def recorded (m : Mutation) (op : FieldChange) : Entries Value :=
  match m.content.get? op.key with
  | some bucket => bucketEntries bucket
  | none => []

variable {op : FieldChange} {table : Entries Value} {e : String × Value}

theorem itemEntries_item (h : op = .delete → e.2 = .null) : itemEntries (item op e) = [e] := by
  obtain ⟨path, value⟩ := e
  by_cases hop : op = .delete
  · have hvalue : value = .null := h hop
    rw [item, if_pos hop, hvalue]
    rfl
  · rw [item, if_neg hop]
    rfl

theorem bucketEntries_item : bucketEntries (item op e) = itemEntries (item op e) := by
  rw [item]
  split <;> rfl

/-- The bucket of a table tells the table. -/
theorem bucketEntries_bundle (h : op = .delete → ∀ e ∈ table, e.2 = .null) :
    bucketEntries (bundle (table.map (item op))) = table := by
  have hitem : ∀ e ∈ table, itemEntries (item op e) = [e] :=
    fun e he => itemEntries_item fun hop => h hop e he
  have hitems : (table.map (item op)).flatMap itemEntries = table := by
    rw [List.flatMap_map, List.flatMap_congr hitem, List.flatMap_singleton']
  cases table with
  | nil => rfl
  | cons first rest =>
    cases rest with
    | nil => exact bucketEntries_item.trans (hitem first (List.mem_singleton_self _))
    | cons second rest => exact hitems

/-! ### What is on record -/

theorem lastValue_mem {changes : List Change} {path : FieldPath}
    (h : path ∈ changes.map Change.path) :
    ∃ c ∈ changes, c.path = path ∧ c.value = lastValue changes path := by
  induction changes using List.reverseRecOn with
  | nil => cases h
  | append_singleton changes c ih =>
    rw [lastValue_concat, Function.update_apply]
    by_cases hlast : path = c.path
    · exact ⟨c, List.mem_append_right _ (List.mem_singleton_self _), hlast.symm, by simp [hlast]⟩
    · have hearlier : path ∈ changes.map Change.path := by simpa [hlast] using h
      obtain ⟨d, hd, hpath, hvalue⟩ := ih hearlier
      exact ⟨d, List.mem_append_left _ hd, hpath, by simp [hlast, hvalue]⟩

/-- An entry of a table is what some change asked for. -/
theorem exists_change_of_mem_table {changes : List Change} (h : e ∈ Mutation.table changes) :
    ∃ c ∈ changes, e = (c.path.toText, c.value) := by
  obtain ⟨path, hpath, rfl⟩ := Entries.mem_tabulate_iff.1 h
  obtain ⟨c, hc, rfl, hvalue⟩ := lastValue_mem (List.mem_eraseDups.1 hpath)
  exact ⟨c, hc, by rw [hvalue]⟩

/-- A deletion gives its path no value. -/
theorem value_of_delete {call : Call} (h : call.op = .delete) : call.value = .null := by
  cases call with
  | delete => rfl
  | _ => cases h

theorem exists_call_of_mem_changes {calls : List Call} {c : Change} (h : c ∈ changes calls) :
    ∃ call ∈ calls, call.change? = some c := List.mem_filterMap.1 h

/-- What is on record under an operator is the table of the changes that it was asked for. -/
theorem recorded_run (calls : List Call) (op : FieldChange) :
    (run calls).recorded op = Mutation.table ((changes calls).filter (·.op = op)) := by
  -- The bucket of a deletion holds paths only, which is all of its table if that has no values.
  have hnull : op = .delete → ∀ e ∈ Mutation.table ((changes calls).filter (·.op = op)),
      e.2 = .null := by
    rintro rfl e he
    obtain ⟨c, hc, rfl⟩ := exists_change_of_mem_table he
    obtain ⟨hmem, hop⟩ := List.mem_filter.1 hc
    obtain ⟨call, -, hcall⟩ := exists_call_of_mem_changes hmem
    obtain ⟨-, -, -, -, hcallOp, hvalue⟩ := change?_eq_some_iff.1 hcall
    rw [hvalue]
    exact value_of_delete (hcallOp ▸ of_decide_eq_true hop)
  rw [recorded, content_run, get?_buckets]
  by_cases hused : op ∈ (changes calls).map Change.op
  · rw [if_pos hused]
    exact bucketEntries_bundle hnull
  · have hnone : (changes calls).filter (·.op = op) = [] := by
      rw [List.filter_eq_nil_iff]
      intro c hc hop
      exact hused (List.mem_map.2 ⟨c, hc, of_decide_eq_true hop⟩)
    rw [if_neg hused, hnone]
    rfl

/-- A bucket holds what is on record under its operator, and nothing else. -/
theorem bucket_run (calls : List Call) {entry : String × Value}
    (h : entry ∈ (run calls).content) :
    ∃ op : FieldChange, entry =
      (op.key, bundle (((run calls).recorded op).map (item op))) := by
  rw [content_run] at h
  obtain ⟨op, -, rfl⟩ := Entries.mem_tabulate_iff.1 h
  exact ⟨op, by rw [recorded_run]; rfl⟩

/-- What is on record stands in the bucket of its operator. -/
theorem bucket_mem_of_recorded {calls : List Call} (h : e ∈ (run calls).recorded op) :
    (op.key, bundle (((run calls).recorded op).map (item op))) ∈ (run calls).content := by
  cases hbucket : (run calls).content.get? op.key with
  | none =>
    rw [recorded, hbucket] at h
    cases h
  | some bucket =>
    have hmem := Entries.mem_of_get? hbucket
    obtain ⟨op', hop⟩ := bucket_run calls hmem
    obtain rfl : op = op' := key_inj (congrArg Prod.fst hop)
    rwa [hop] at hmem

/-- An entry on record is what some call asked for. -/
theorem exists_change_of_mem {calls : List Call} (h : e ∈ (run calls).recorded op) :
    ∃ call ∈ calls, ∃ c, call.change? = some c ∧ c.op = op ∧ e = (c.path.toText, c.value) := by
  rw [recorded_run] at h
  obtain ⟨c, hc, rfl⟩ := exists_change_of_mem_table h
  obtain ⟨hmem, hop⟩ := List.mem_filter.1 hc
  obtain ⟨call, hcall, hchange⟩ := exists_call_of_mem_changes hmem
  exact ⟨call, hcall, c, hchange, of_decide_eq_true hop, rfl⟩

/-! ### Checks -/

/-- A text is that of a path which a mutation may change: it can be read, and is neither the
document as a whole nor its identity. -/
def IsTarget (text : String) (p : FieldPath) : Prop :=
  FieldPath.parse text = .ok p ∧ p.isEmpty = false ∧ p.isIdentity = false

/-- The amount that a call is given to change a number by, if it is given one. -/
def Call.amount? : Call → Option Value
  | .incrementInt _ amount | .decrementInt _ amount => some (.int amount)
  | .incrementFloat _ amount | .decrementFloat _ amount => some (.float amount)
  | _ => none

variable {call : Call} {c : Change}

theorem hasPositiveAmount_iff :
    call.hasPositiveAmount = true ↔ ∀ v ∈ call.amount?, v.IsPositive := by
  cases call with
  | incrementInt _ amount | decrementInt _ amount =>
    simp [Call.hasPositiveAmount, Call.amount?, Value.isPositive_int_iff]
  | incrementFloat _ amount | decrementFloat _ amount =>
    simp [Call.hasPositiveAmount, Call.amount?, Value.IsPositive, Binary64.isPositive_iff]
  | _ => simp [Call.hasPositiveAmount, Call.amount?]

/-- What a number is changed by is positive: the amount that is given, and one without it. -/
theorem isPositive_value (h : call.hasPositiveAmount = true)
    (hop : call.op = .increment ∨ call.op = .decrement) : call.value.IsPositive := by
  rw [hasPositiveAmount_iff] at h
  cases call with
  | incrementInt | decrementInt | incrementFloat | decrementFloat => exact h _ rfl
  | incrementIntByOne | decrementIntByOne => exact Value.isPositive_int_iff.2 (by decide)
  | incrementFloatByOne | decrementFloatByOne => exact Binary64.isPositive_iff.1 (by decide)
  | _ => simp [Call.op] at hop

/-- The canonical text of a path that was checked passes the check, as the same path. -/
theorem isTarget_toText (h : call.change? = some c) : IsTarget c.path.toText c.path := by
  obtain ⟨-, hempty, hid, hparse, -⟩ := change?_eq_some_iff.1 h
  exact ⟨FieldPath.parse_toText_of_parse hparse, hempty, hid⟩

theorem isSome_change?_iff :
    call.change?.isSome = true ↔
      (∀ v ∈ call.amount?, v.IsPositive) ∧ ∃ p, IsTarget call.path p := by
  rw [Option.isSome_iff_exists, ← hasPositiveAmount_iff]
  constructor
  · rintro ⟨c, hc⟩
    obtain ⟨hpos, hempty, hid, hparse, -⟩ := change?_eq_some_iff.1 hc
    exact ⟨hpos, c.path, hparse, hempty, hid⟩
  · rintro ⟨hpos, p, hparse, hempty, hid⟩
    exact ⟨⟨call.op, p, call.value, call.path, hparse⟩,
      change?_eq_some_iff.2 ⟨hpos, hempty, hid, hparse, rfl, rfl⟩⟩

/-- A call fails for its amount if that is not positive, and otherwise for its path if that is no
target. -/
theorem apply_error_iff (m : Mutation) (call : Call) (kind : ErrorKind) :
    (∃ e, call.apply m = .error e ∧ e.kind = kind) ↔
      (kind = .invalidMagnitude ∧ ∃ v ∈ call.amount?, ¬ v.IsPositive) ∨
      (kind = .malformedPath ∧ (∀ v ∈ call.amount?, v.IsPositive) ∧
        ¬ ∃ p, IsTarget call.path p) := by
  have hamount : call.hasPositiveAmount = false ↔ ∃ v ∈ call.amount?, ¬ v.IsPositive := by
    rw [← Bool.not_eq_true, hasPositiveAmount_iff]
    simp only [not_forall, exists_prop]
  have hsome : call.change?.isSome = true ↔
      call.hasPositiveAmount = true ∧ ∃ p, IsTarget call.path p := by
    rw [isSome_change?_iff, hasPositiveAmount_iff]
  rw [← hasPositiveAmount_iff, ← hamount]
  cases hchange : call.change? with
  | some c =>
    rw [hchange] at hsome
    obtain ⟨hpos, htarget⟩ := hsome.1 rfl
    simp [(apply_of_change? m hchange).2, hpos, htarget]
  | none =>
    rw [hchange] at hsome
    obtain ⟨e, hfail, hkind⟩ := apply_of_no_change? m hchange
    have hfails : (∃ e, call.apply m = .error e ∧ e.kind = kind) ↔ kind = e.kind := by
      simp [hfail, eq_comm]
    rw [hfails, hkind]
    cases hpos : call.hasPositiveAmount with
    | false => simp
    | true =>
      have hbad : ¬ ∃ p, IsTarget call.path p := fun hp => by cases hsome.2 ⟨hpos, hp⟩
      simp [hbad]

/-- **Nothing gets on record unchecked.** After any calls the buckets hold what is on record and
nothing else. Each path there is the canonical text of one that may be changed, however it was
spelled, and each value under an increment or decrement is a number greater than zero. A call
succeeds exactly if the amount that it is given, if any, is positive and its path may be changed; it
fails for the amount wherever that is not positive, and for the path only otherwise. -/
theorem run_records_checked (calls : List Call) :
    (∀ entry ∈ (run calls).content, ∃ op : FieldChange, entry =
      (op.key, bundle (((run calls).recorded op).map (item op)))) ∧
    (∀ op, ∀ path ∈ ((run calls).recorded op).keys, ∃ p, IsTarget path p ∧ p.toText = path) ∧
    (∀ op, op = .increment ∨ op = .decrement → ∀ e ∈ (run calls).recorded op, e.2.IsPositive) ∧
    ∀ (m : Mutation) (call : Call),
      ((∃ m', call.apply m = .ok m') ↔
        (∀ v ∈ call.amount?, v.IsPositive) ∧ ∃ p, IsTarget call.path p) ∧
      ((∃ e, call.apply m = .error e ∧ e.kind = .invalidMagnitude) ↔
        ∃ v ∈ call.amount?, ¬ v.IsPositive) ∧
      ((∃ e, call.apply m = .error e ∧ e.kind = .malformedPath) ↔
        (∀ v ∈ call.amount?, v.IsPositive) ∧ ¬ ∃ p, IsTarget call.path p) := by
  refine ⟨fun entry => bucket_run calls, fun op path hpath => ?_, fun op hop e he => ?_,
    fun m call => ⟨?_, ?_, ?_⟩⟩
  · obtain ⟨e, he, rfl⟩ := List.mem_map.1 hpath
    obtain ⟨call, -, c, hc, -, rfl⟩ := exists_change_of_mem he
    exact ⟨c.path, isTarget_toText hc, rfl⟩
  · obtain ⟨call, -, c, hc, rfl, rfl⟩ := exists_change_of_mem he
    obtain ⟨hpos, -, -, -, hcall, hvalue⟩ := change?_eq_some_iff.1 hc
    rw [hcall] at hop
    rw [hvalue]
    exact isPositive_value hpos hop
  · exact (apply_isOk_iff m call).trans isSome_change?_iff
  · simp [apply_error_iff]
  · simp [apply_error_iff]

/-- However it is spelled, a path is on record in one spelling, and the identity is not. -/
example :
    (run [.incrementInt " 'visits' ." 2, .decrementFloat "visits" (.zero true),
        .incrementFloatByOne "visits.'a b'", .set ".\"_id\"" .null]).content =
      [("$increment", .list [.map [("visits", .int 2)], .map [("visits.a b", .float .one)]])] := by
  cbv

end Mutation
end DocumentModel

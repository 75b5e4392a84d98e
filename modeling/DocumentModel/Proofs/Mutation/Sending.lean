import DocumentModel.Proofs.Mutation.Records
import DocumentModel.Proofs.Wire.Decoded

/-! Mutations on the wire.

An entry of a bucket is a map with a single field, whose key is a path, and this is what a tagged
scalar looks like. So a path that is spelled as a type tag is misread, unless it is the path of a
deletion, which is told by a string. Nothing else of a mutation can be: `run_sent_iff`. -/
namespace DocumentModel.Mutation
open Value (Misread Readable forall_contains_scalar_iff forall_contains_list_iff
  forall_contains_map_iff)

/-! ### What holds throughout a bucket -/

section
variable {P : Value → Prop} {op : FieldChange} {table : Entries Value}

theorem forall_contains_bundle_iff (hlist : ∀ items, P (.list items)) {items : List Value} :
    (∀ u, (bundle items).Contains u → P u) ↔ ∀ item ∈ items, ∀ u, item.Contains u → P u := by
  have hitems := forall_contains_list_iff.trans (and_iff_right (hlist items))
  cases items with
  | nil => exact hitems
  | cons first rest =>
    cases rest with
    | nil => simp only [bundle, List.forall_mem_singleton]
    | cons second rest => exact hitems

/-- What holds of lists and strings as such holds throughout a bucket if it holds of each entry and
throughout its value. -/
theorem forall_contains_bucket_iff (hlist : ∀ items, P (.list items))
    (hstring : ∀ s, P (.string s)) :
    (∀ u, (bundle (table.map (item op))).Contains u → P u) ↔
      op = .delete ∨ ∀ e ∈ table, P (.map [e]) ∧ ∀ u, e.2.Contains u → P u := by
  rw [forall_contains_bundle_iff hlist, List.forall_mem_map]
  by_cases hop : op = .delete
  · refine iff_of_true (fun e _ => ?_) (.inl hop)
    rw [item, if_pos hop]
    exact (forall_contains_scalar_iff rfl).2 (hstring e.1)
  · simp only [item_of_ne hop, entry, forall_contains_map_iff, List.forall_mem_singleton, hop,
      false_or]

/-- A bucket has a wire form exactly if the values in it have one. -/
theorem exists_encode_bucket_iff :
    (∃ w, Wire.encode (bundle (table.map (item op))) = .ok w) ↔
      op = .delete ∨ ∀ e ∈ table, ∃ w, Wire.encode e.2 = .ok w := by
  simp only [Wire.exists_encode_iff]
  rw [forall_contains_bucket_iff (fun _ => trivial) fun _ => trivial]
  simp only [Value.Sendable, true_and]

/-- Nothing in a bucket is misread exactly if no path is spelled as a tag and nothing in the values
is misread. -/
theorem readable_bucket_iff :
    (bundle (table.map (item op))).Readable ↔
      op = .delete ∨ ∀ e ∈ table, (∀ tag : Tag, e.1 ≠ tag.key) ∧ e.2.Readable := by
  refine (forall_contains_bucket_iff (fun _ h => ?_) fun _ h => ?_).trans ?_
  · cases h
  · cases h
  · simp only [Wire.misread_map_iff, List.map_singleton, List.singleton_inj, not_exists, Readable]

end

/-! ### What comes back -/

/-- **A mutation comes back from the wire unless a path in it is spelled as a type tag.** If each
value on record comes back by itself, the mutation has a wire form, and a document read from it has
the buckets of the mutation at its root exactly if no path on record under an operator that gives
values is a tag. -/
theorem run_sent_iff (calls : List Call)
    (h : ∀ op, op ≠ .delete → ∀ e ∈ (run calls).recorded op, Wire.Returns e.2) :
    ∃ w, (run calls).toWire = .ok w ∧
      (Document.ofWire w = .ok ⟨(run calls).content⟩ ↔
        ∀ op, op ≠ .delete → ∀ path ∈ ((run calls).recorded op).keys,
          ∀ tag : Tag, path ≠ tag.key) := by
  have hencodes : ∀ bucket ∈ (run calls).content, ∃ w, Wire.encode bucket.2 = .ok w := by
    intro bucket hbucket
    obtain ⟨op, rfl⟩ := bucket_run calls hbucket
    rw [exists_encode_bucket_iff, or_iff_not_imp_left]
    exact fun hop e he => (Wire.returns_iff.1 (h op hop e he)).1
  obtain ⟨ws, hws⟩ := Wire.exists_encodeFields_iff.2 hencodes
  refine ⟨.object ws, by rw [toWire, Document.wireOfMap, hws]; rfl, ?_⟩
  have hread : Document.ofWire (.object ws) = .ok ⟨(run calls).content⟩ ↔
      Wire.decodeFields ws = .ok (run calls).content := by
    rw [Document.ofWire]
    cases Wire.decodeFields ws <;> simp [bind, Except.bind, pure, Except.pure]
  -- The buckets are fields of a document: their own keys are not what is misread.
  rw [hread, Wire.decodeFields_encodeFields_iff hws]
  constructor
  · intro hreadable op hop path hpath
    obtain ⟨e, he, rfl⟩ := List.mem_map.1 hpath
    have hbucket := readable_bucket_iff.1 (hreadable _ (bucket_mem_of_recorded he))
    exact ((or_iff_right hop).1 hbucket e he).1
  · intro huntagged bucket hbucket
    obtain ⟨op, rfl⟩ := bucket_run calls hbucket
    rw [readable_bucket_iff, or_iff_not_imp_left]
    exact fun hop e he => ⟨huntagged op hop e.1 (List.mem_map_of_mem he),
      (Wire.returns_iff.1 (h op hop e he)).2⟩

/-- A field whose name is a type tag gets a text that could be the payload. -/
def setsTag : List Call :=
  [.set "visits" (.int 1), .set "'$date'" (.string "2024-02-29T23:00:00Z"), .delete "$time"]

/-- A field of this name is deleted, and one within another field gets the text. -/
def deletesTag : List Call :=
  [.delete "$date", .set "at.'$date'" (.string "2024-02-29T23:00:00Z"), .delete "$time"]

/-- A mutation that sets a field named as a tag is read as something else, and one that deletes it
comes back. -/
theorem run_sent_iff_dates :
    (∃ w, (run setsTag).toWire = .ok w ∧ Document.ofWire w ≠ .ok ⟨(run setsTag).content⟩) ∧
      ∃ w, (run deletesTag).toWire = .ok w ∧
        Document.ofWire w = .ok ⟨(run deletesTag).content⟩ := by
  have hset : (run setsTag).content =
      [("$set", .list [.map [("visits", .int 1)],
          .map [("$date", .string "2024-02-29T23:00:00Z")]]),
        ("$delete", .string "$time")] := by cbv
  have hdelete : (run deletesTag).content =
      [("$delete", .list [.string "$date", .string "$time"]),
        ("$set", .map [("at.$date", .string "2024-02-29T23:00:00Z")])] := by cbv
  constructor
  · have hrecorded : (run setsTag).recorded .set =
        [("visits", .int 1), ("$date", .string "2024-02-29T23:00:00Z")] := by
      rw [recorded, hset]
      rfl
    obtain ⟨w, hw, hiff⟩ := run_sent_iff setsTag fun op hop e he => by
      cases op with
      | delete => exact absurd rfl hop
      | set =>
        rw [hrecorded] at he
        rcases List.mem_pair.1 he with rfl | rfl
        · exact ⟨_, rfl, rfl⟩
        · exact ⟨_, rfl, rfl⟩
      | _ =>
        rw [recorded, hset] at he
        cases he
    refine ⟨w, hw, fun hback => ?_⟩
    have hpath : "$date" ∈ ((run setsTag).recorded .set).keys := by
      rw [hrecorded]
      exact List.mem_pair.2 (.inr rfl)
    exact hiff.1 hback .set (by decide) "$date" hpath .date rfl
  · have hrecorded : (run deletesTag).recorded .set =
        [("at.$date", .string "2024-02-29T23:00:00Z")] := by
      rw [recorded, hdelete]
      rfl
    obtain ⟨w, hw, hiff⟩ := run_sent_iff deletesTag fun op hop e he => by
      cases op with
      | delete => exact absurd rfl hop
      | set =>
        rw [hrecorded, List.mem_singleton] at he
        subst he
        exact ⟨_, rfl, rfl⟩
      | _ =>
        rw [recorded, hdelete] at he
        cases he
    refine ⟨w, hw, hiff.2 fun op hop path hpath tag => ?_⟩
    cases op with
    | delete => exact absurd rfl hop
    | set =>
      rw [hrecorded] at hpath
      obtain rfl := List.mem_singleton.1 hpath
      cases tag <;> decide
    | _ =>
      rw [recorded, hdelete] at hpath
      cases hpath

end DocumentModel.Mutation

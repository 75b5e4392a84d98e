import DocumentModel.Proofs.Query.Clauses
import DocumentModel.Proofs.Wire.Decoded

/-! Queries on the wire.

The filter of a query is written as a value is, with type tags, and the other clauses are plain
(`Written`). Those hold words and counts only, so nothing but the filter can keep a query from the
wire (`toWire_eq_error_iff`). What is plain is read back as it was, except that a sort key is a map
with a single field, which looks like a tagged scalar if the field is spelled as a tag. So a query
comes back exactly if its filter does and no sort key is spelled in this way: `run_sent_iff`. -/
namespace DocumentModel.Query
open Value (Misread)

/-! ### Clauses on the wire -/

/-- What a clause is on the wire. -/
inductive Written : ClauseName → Value → Json → Prop
  | select (fields : List String) :
    Written .select (.list (fields.map .string)) (.array (fields.map .string))
  | filter {condition : Entries Value} {w : Json} :
    Wire.encode (.map condition) = .ok w → Written .filter (.map condition) w
  | orderBy (keys : List (String × SortDirection)) :
    Written .orderBy (.list (keys.map fun key => .map [(key.1, .string key.2.key)]))
      (.array (keys.map fun key => .single key.1 (.string key.2.key)))
  | offset (n : Count) : Written .offset (.int n) (.number (.ofInt64 n))
  | limit (n : Count) : Written .limit (.int n) (.number (.ofInt64 n))

/-- A clause other than the filter can always be written, and is plain. -/
theorem written_plain {x : ClauseName} (hx : x ≠ .filter) (earlier : List (Share x)) :
    ∃ w, Wire.encodeUntagged (tell x earlier) = .ok w ∧ Written x (tell x earlier) w := by
  cases x with
  | filter => exact absurd rfl hx
  | select =>
    exact ⟨_, Wire.encodeUntagged_list fun _ _ => rfl, .select (joined earlier)⟩
  | orderBy =>
    have hkeys : tell .orderBy earlier = .list
        ((earlier.flatMap fun order => order.2.map (·, order.1)).map fun key =>
          .map [(key.1, .string key.2.key)]) := by
      simp only [tell, List.map_flatMap, List.map_map]
      rfl
    rw [hkeys]
    exact ⟨_, Wire.encodeUntagged_list fun _ _ => rfl, .orderBy _⟩
  | offset => exact ⟨_, rfl, .offset _⟩
  | limit => exact ⟨_, rfl, .limit _⟩

/-! ### The JSON of a query -/

/-- The field that a clause is in the JSON of a query. -/
def clauseField (clause : String × Value) : Except Error (String × Json) :=
  (encodeClause clause.1 clause.2).map (clause.1, ·)

/-- A query that is ready is written clause by clause, and no other is. -/
theorem toWire_eq (q : Query) :
    q.toWire =
      if q.built then (q.content.mapM clauseField).map .object
      else .error (.because .notBuilt "query must be built before it is serialized") := by
  have hfield : (fun (clause : String × Value) => do
      return (clause.1, ← encodeClause clause.1 clause.2)) = clauseField := by
    funext clause
    rw [clauseField]
    cases encodeClause clause.1 clause.2 <;> rfl
  rw [toWire, map?]
  cases hbuilt : q.built with
  | false => rfl
  | true =>
    show (q.content.mapM _ >>= fun fields => pure (Json.object fields)) = _
    rw [hfield]
    cases q.content.mapM clauseField <;> rfl

/-- A clause of a run is told by contributions. -/
theorem exists_tell_of_mem {calls : List Call} {clause : String × Value}
    (h : clause ∈ (run calls).content) :
    ∃ (x : ClauseName) (earlier : List (Share x)), clause = (x.key, tell x earlier) := by
  rw [content_run] at h
  obtain ⟨x, -, rfl⟩ := Entries.mem_tabulate_iff.1 h
  exact ⟨x, _, rfl⟩

theorem nodup_keys_run (calls : List Call) : (run calls).content.keys.Nodup := by
  rw [content_run]
  exact nodup_keys_clauses _

theorem encodeClause_filter (value : Value) :
    encodeClause ClauseName.filter.key value = Wire.encode value := if_pos rfl

theorem encodeClause_plain {x : ClauseName} (hx : x ≠ .filter) (value : Value) :
    encodeClause x.key value = Wire.encodeUntagged value :=
  if_neg fun hkey => hx (key_inj hkey)

/-- A clause that is written is written in the way of its kind. -/
theorem written_of_clauseField {x : ClauseName} {earlier : List (Share x)}
    {field : String × Json} (h : clauseField (x.key, tell x earlier) = .ok field) :
    field.1 = x.key ∧ Written x (tell x earlier) field.2 := by
  obtain ⟨w, hw, rfl⟩ := map_eq_ok_iff.1 h
  refine ⟨rfl, ?_⟩
  by_cases hx : x = .filter
  · subst hx
    exact .filter ((encodeClause_filter _).symm.trans hw)
  · obtain ⟨w', hw', hwritten⟩ := written_plain hx earlier
    rw [encodeClause_plain hx, hw'] at hw
    cases hw
    exact hwritten

/-- A query that is ready is refused for its filter, with the error of that, and for nothing
else. -/
theorem toWire_eq_error_iff {calls : List Call} (hbuilt : .build ∈ calls) {e : Error} :
    (run calls).toWire = .error e ↔
      ∃ v, (run calls).content.get? ClauseName.filter.key = some v ∧ Wire.encode v = .error e := by
  have hclause : ∀ clause ∈ (run calls).content, ∀ e, clauseField clause = .error e ↔
      (if clause.1 = ClauseName.filter.key then Wire.refusal? clause.2.floats else none) =
        some e := by
    intro clause hmem e
    obtain ⟨x, earlier, rfl⟩ := exists_tell_of_mem hmem
    rw [clauseField, map_eq_error_iff]
    by_cases hx : x = .filter
    · subst hx
      rw [if_pos rfl, encodeClause_filter, Wire.encode_eq_error_iff]
    · obtain ⟨w, hw, -⟩ := written_plain hx earlier
      rw [if_neg fun hkey => hx (key_inj hkey), encodeClause_plain hx, hw]
      exact iff_of_false nofun nofun
  -- No key stands twice, so the first clause that fails is the filter there is.
  rw [toWire_eq, if_pos ((built_run_iff calls).2 hbuilt), map_eq_error_iff,
    mapM_eq_error_iff_findSome? hclause,
    Entries.findSome?_of_key (nodup_keys_run calls) _ fun v => Wire.refusal? v.floats,
    Option.bind_eq_some_iff]
  simp only [Wire.encode_eq_error_iff]

/-! ### Clauses read back -/

/-- The fields of the sort keys in a clause. -/
def sortedBy : Value → List String
  | .list keys => keys.flatMap fun key => (key.map?.getD []).keys
  | _ => []

theorem sortedBy_keys (keys : List (String × SortDirection)) :
    sortedBy (.list (keys.map fun key => .map [(key.1, .string key.2.key)])) =
      keys.map Prod.fst := by
  rw [sortedBy, List.flatMap_map]
  exact List.map_eq_flatMap.symm

/-- A map of one word is read back unless its key is a tag. -/
theorem decode_single_iff (key word : String) :
    Wire.decode (.single key (.string word)) = .ok (.map [(key, .string word)]) ↔
      ∀ tag : Tag, key ≠ tag.key := by
  have hword : (Value.string word).Readable := Wire.readable_of_scalar rfl nofun
  have hencode : Wire.encode (.map [(key, .string word)]) = .ok (.single key (.string word)) := rfl
  rw [Wire.decode_encode_iff hencode, Value.readable_map_iff, Wire.misread_map_iff]
  simp [hword]

/-- A clause is read back unless it is a filter that does not come back, or holds a sort key that
is spelled as a tag. -/
theorem Written.decode_iff {x : ClauseName} {v : Value} {w : Json} (h : Written x v w) :
    Wire.decode w = .ok v ↔ (x = .filter → Wire.Returns v) ∧
      (x = .orderBy → ∀ field ∈ sortedBy v, ∀ tag : Tag, field ≠ tag.key) := by
  cases h with
  | select fields => exact iff_of_true (Wire.decode_list_iff.2 fun _ _ => rfl) ⟨nofun, nofun⟩
  | filter hw => simp [Wire.Returns, hw]
  | orderBy keys => simp [Wire.decode_list_iff, decode_single_iff, sortedBy_keys]
  | offset n | limit n => exact iff_of_true (Wire.decode_int n) ⟨nofun, nofun⟩

/-- The fields that a query sorts by. -/
def sortFields (q : Query) : List String :=
  ((q.content.get? ClauseName.orderBy.key).map sortedBy).getD []

/-- A query is read back exactly if its filter comes back and no sort key is spelled as a tag. -/
theorem decodeFields_iff {calls : List Call} {fields : List (String × Json)}
    (h : (run calls).content.mapM clauseField = .ok fields) :
    Wire.decodeFields fields = .ok (run calls).content ↔
      (∀ v, (run calls).content.get? ClauseName.filter.key = some v → Wire.Returns v) ∧
      ∀ field ∈ (run calls).sortFields, ∀ tag : Tag, field ≠ tag.key := by
  -- What a clause needs to be read back, said by its key, since the clauses are found by theirs.
  have hback : ∀ clause ∈ (run calls).content, ∀ field, clauseField clause = .ok field →
      ((Wire.decode field.2).map (field.1, ·) = .ok clause ↔
        (clause.1 = ClauseName.filter.key → Wire.Returns clause.2) ∧
        (clause.1 = ClauseName.orderBy.key →
          ∀ field ∈ sortedBy clause.2, ∀ tag : Tag, field ≠ tag.key)) := by
    intro clause hmem field hfield
    obtain ⟨x, earlier, rfl⟩ := exists_tell_of_mem hmem
    obtain ⟨hkey, hwritten⟩ := written_of_clauseField hfield
    have hname : ∀ y : ClauseName, x.key = y.key ↔ x = y :=
      fun y => ⟨key_inj, congrArg ClauseName.key⟩
    simp only [hname, ← hwritten.decode_iff, hkey, map_eq_ok_iff, Prod.mk.injEq, true_and,
      exists_eq_right]
  rw [Wire.decodeFields_eq_mapM, mapM_back_iff h hback]
  constructor
  · intro hall
    refine ⟨fun v hv => (hall _ (Entries.mem_of_get? hv)).1 rfl, ?_⟩
    rw [sortFields]
    cases hkeys : (run calls).content.get? ClauseName.orderBy.key with
    | none => exact fun field hfield => by cases hfield
    | some v => exact (hall _ (Entries.mem_of_get? hkeys)).2 rfl
  · rintro ⟨hfilter, hsorted⟩ clause hmem
    have hget := Entries.get?_of_mem (nodup_keys_run calls) hmem
    refine ⟨fun hkey => hfilter _ (hkey ▸ hget), fun hkey => ?_⟩
    rwa [sortFields, ← hkey, hget] at hsorted

/-! ### Queries sent -/

/-- The error before a build is none that a value gives. -/
theorem toWire_not_built {calls : List Call} (h : .build ∉ calls) :
    ∃ e, (run calls).toWire = .error e ∧ e.kind = .notBuilt := by
  rw [toWire_eq, if_neg fun hbuilt => h ((built_run_iff calls).1 hbuilt)]
  exact ⟨_, rfl, rfl⟩

/-- **A query is sent as its clauses are, and comes back unless its filter does not or a sort key is
spelled as a type tag.** After any calls, a query that was never built is refused as such. One that
was is refused exactly if its filter holds a number that is not finite, with the error of that, and
is otherwise an object with one field for each clause, in their order, each written in the way of
its kind. Read field by field, the object gives the clauses again exactly if the filter comes back
by itself and no field that the query sorts by is a tag. -/
theorem run_sent (calls : List Call) :
    ((∃ e, (run calls).toWire = .error e ∧ e.kind = .notBuilt) ↔ .build ∉ calls) ∧
    (.build ∈ calls →
      (∀ e, (run calls).toWire = .error e ↔
        ∃ v, (run calls).content.get? ClauseName.filter.key = some v ∧ Wire.encode v = .error e) ∧
      ((∃ e, (run calls).toWire = .error e) ↔
        ∃ v x, (run calls).content.get? ClauseName.filter.key = some v ∧
          v.Contains (.float x) ∧ x.isFinite = false) ∧
      ∀ w, (run calls).toWire = .ok w → ∃ fields, w = .object fields ∧
        List.Forall₂ (fun clause field => ∃ x : ClauseName,
          clause.1 = x.key ∧ field.1 = x.key ∧ Written x clause.2 field.2)
          (run calls).content fields ∧
        (Wire.decodeFields fields = .ok (run calls).content ↔
          (∀ v, (run calls).content.get? ClauseName.filter.key = some v → Wire.Returns v) ∧
          ∀ field ∈ (run calls).sortFields, ∀ tag : Tag, field ≠ tag.key)) := by
  constructor
  · constructor
    · rintro ⟨e, he, hkind⟩ hbuild
      obtain ⟨v, -, hv⟩ := (toWire_eq_error_iff hbuild).1 he
      rw [Wire.kind_of_encode_error hv] at hkind
      cases hkind
    · exact toWire_not_built
  intro hbuild
  refine ⟨fun e => toWire_eq_error_iff hbuild, ?_, fun w hw => ?_⟩
  · simp only [toWire_eq_error_iff hbuild]
    rw [exists_comm]
    simp only [exists_and_left, Wire.exists_encode_error_iff]
  · rw [toWire_eq, if_pos ((built_run_iff calls).2 hbuild)] at hw
    obtain ⟨fields, hfields, rfl⟩ := map_eq_ok_iff.1 hw
    refine ⟨fields, rfl, ?_, decodeFields_iff hfields⟩
    have htold := (List.forall₂_and_left _ _).2
      ⟨fun clause hmem => exists_tell_of_mem hmem, mapM_eq_ok_iff.1 hfields⟩
    refine htold.imp ?_
    rintro _ field ⟨⟨x, earlier, rfl⟩, hfield⟩
    obtain ⟨hkey, hwritten⟩ := written_of_clauseField hfield
    exact ⟨x, rfl, hkey, hwritten⟩

/-- The latest five after a time, by two sort keys. -/
def latest : List Call :=
  [.filterMap [("$gt", .map [("at", .int 7)])], .orderBy .descending ["at", "$name"], .limit 5,
    .build]

/-- The word for a direction can be a payload, so that a sort key under a tag is read as a
scalar. -/
theorem run_sent_latest :
    (∃ fields, (run latest).toWire = .ok (.object fields) ∧
      Wire.decodeFields fields = .ok (run latest).content) ∧
    ∃ fields, (run (latest ++ [.orderBy .descending ["$binary"]])).toWire = .ok (.object fields) ∧
      Wire.decodeFields fields ≠
        .ok (run (latest ++ [.orderBy .descending ["$binary"]])).content := by
  constructor
  · have hwire : (run latest).toWire = .ok _ := rfl
    obtain ⟨fields, hfields, -, hiff⟩ := ((run_sent latest).2 (by simp [latest])).2.2 _ hwire
    refine ⟨fields, hwire.trans (congrArg _ hfields),
      hiff.2 ⟨fun v hv => ?_, fun field hmem tag => ?_⟩⟩
    · cases hv
      exact ⟨_, rfl, rfl⟩
    · have hsorted : (run latest).sortFields = ["at", "$name"] := rfl
      rw [hsorted] at hmem
      rcases List.mem_pair.1 hmem with rfl | rfl <;> cases tag <;> decide
  · have hwire : (run (latest ++ [.orderBy .descending ["$binary"]])).toWire = .ok _ := rfl
    obtain ⟨fields, hfields, -, hiff⟩ := ((run_sent _).2 (by simp [latest])).2.2 _ hwire
    refine ⟨fields, hwire.trans (congrArg _ hfields), fun hback => ?_⟩
    have hsorted : (run (latest ++ [.orderBy .descending ["$binary"]])).sortFields =
        ["at", "$name", "$binary"] := rfl
    have hmem : "$binary" ∈ (run (latest ++ [.orderBy .descending ["$binary"]])).sortFields := by
      rw [hsorted]
      simp
    exact (hiff.1 hback).2 _ hmem .binary rfl

end DocumentModel.Query

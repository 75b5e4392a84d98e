import DocumentModel.Proofs.Merge.Alike
import DocumentModel.Proofs.Wire.RoundTrip

/-! Equal values on the wire.

Values equal themselves unless they hold what is no number (`beq_self_iff`), and the floating-point
numbers of equal values are equal as numbers, one to one (`exists_float_of_same`). So equal values
are refused by the encoding together, and otherwise their wire forms are equal JSON: arrays item by
item, objects key by key, and numbers as numbers, as JSON itself compares them (`beq_of_encode`).
`SentAlike` says both. What a merge of lists leaves out for the sake of an equal item is therefore
sent by that item (`exists_sentAlike_of_mem`). All that deduplication rests on is put together in
`equality_sound`. -/
namespace DocumentModel

/-! ### Floating-point numbers -/

namespace Binary64
variable {x y : Binary64}

theorem natAbs_place (x : Binary64) : x.place.natAbs = x.magnitude := by
  unfold place
  split
  · rw [Int.natAbs_neg, Int.natAbs_natCast]
  · rw [Int.natAbs_natCast]

theorem numEq_self_iff : x.numEq x = true ↔ x.isNaN = false := by
  rw [numEq_iff, and_self_left, and_iff_left rfl]

/-- Numbers that are equal are both finite or both infinite. -/
theorem isFinite_eq_of_numEq (h : x.numEq y = true) : x.isFinite = y.isFinite := by
  obtain ⟨-, -, hplace⟩ := numEq_iff.1 h
  have hmagnitude : x.magnitude = y.magnitude := by rw [← natAbs_place, hplace, natAbs_place]
  rw [isFinite, isFinite, exponentField, exponentField, hmagnitude]

/-- What is no number is not finite. -/
theorem isFinite_of_isNaN (h : x.isNaN = true) : x.isFinite = false := by
  obtain ⟨hfield, -⟩ : x.exponentField = 2047 ∧ x.fraction ≠ 0 := by simpa [isNaN] using h
  rw [isFinite, hfield]
  rfl

end Binary64

/-! ### Equality of JSON -/

namespace Json

theorem beq_string (s t : String) : (Json.string s == .string t) = (s == t) := rfl

theorem beq_array_iff {xs ys : List Json} :
    (Json.array xs == .array ys) = true ↔ List.Forall₂ (fun x y => (x == y) = true) xs ys := by
  change equals _ _ = true ↔ _
  rw [equals]
  exact forall₂_iff_of_step equals equalItems rfl (fun _ _ => rfl) (fun _ _ => rfl)
    (fun _ _ _ _ => rfl) xs ys

theorem equalFields_iff {a b : Entries Json} :
    equalFields a b = true ↔
      ∀ field ∈ a, ∃ held, b.get? field.1 = some held ∧ (field.2 == held) = true := by
  refine Entries.forall_get?_iff_of_step equals equalFields (fun _ => rfl) (fun key x rest b => ?_) a b
  rw [equalFields]
  cases b.get? key <;> rfl

/-- Objects are equal exactly if each key has equal values in both, or no value. -/
theorem beq_object_iff {a b : Entries Json} (ha : a.keys.Nodup) (hb : b.keys.Nodup) :
    (Json.object a == .object b) = true ↔
      ∀ key, Option.Rel (fun x y => (x == y) = true) (a.get? key) (b.get? key) := by
  change equals _ _ = true ↔ _
  rw [equals, Bool.and_eq_true, equalFields_iff, beq_iff_eq]
  exact Entries.length_eq_and_forall_get?_iff (E := fun x y => (x == y) = true) ha hb

end Json

/-! ### Values that equal themselves -/

namespace Value
variable {v w : Value}

theorem beq_map_self_iff {fields : Entries Value} (h : fields.keys.Nodup) :
    (Value.map fields == .map fields) = true ↔
      ∀ field ∈ fields, (field.2 == field.2) = true := by
  change equals _ _ = true ↔ _
  rw [equals, Bool.and_eq_true, equalFields_iff, and_iff_right (beq_self_eq_true _)]
  refine forall₂_congr fun field hmem => ?_
  rw [Entries.get?_of_mem h hmem]
  simp only [Option.some.injEq, exists_eq_left']

/-- A value equals itself exactly if each floating-point number in it is a number. -/
theorem beq_self_iff (h : v.Distinct) : (v == v) = true ↔ ∀ x ∈ v.floats, x.isNaN = false := by
  induction v using induct with
  | scalar v hv =>
    rw [beq_scalar_iff hv]
    cases v with
    | list | map => cases hv
    | float x => simp [floats, float?, Binary64.numEq_self_iff]
    | _ => simp [floats, float?]
  | list items ih =>
    rw [distinct_list_iff] at h
    rw [beq_list_iff, List.forall₂_same, floats_list, List.forall_mem_flatMap]
    exact forall₂_congr fun item hmem => ih item hmem (h item hmem)
  | map fields ih =>
    obtain ⟨hnodup, hfields⟩ := distinct_map_iff.1 h
    rw [beq_map_self_iff hnodup, floats_map, List.forall_mem_flatMap]
    exact forall₂_congr fun field hmem => ih field hmem (hfields field hmem)

/-- Of a floating-point number in a value there is an equal one in every value that equals it. -/
theorem exists_float_of_same {x : Binary64} (h : Same v w) (hx : v.Contains (.float x)) :
    ∃ y, w.Contains (.float y) ∧ x.numEq y = true := by
  generalize hu : Value.float x = u at hx
  induction hx generalizing w with
  | self v =>
    subst hu
    rcases (beq_scalar_iff rfl).1 h.2.2 with ⟨-, hfloat⟩ | ⟨x', y, hx, rfl, hxy⟩
    · cases hfloat
    · cases hx
      exact ⟨y, .self _, hxy⟩
  | item hmem _ ih =>
    obtain ⟨ys, rfl⟩ := likeness_equal.exists_list h
    obtain ⟨other, hother, hsame⟩ := exists_of_mem_of_forall₂ (likeness_equal.alike_list_iff.1 h) hmem
    obtain ⟨y, hy, hxy⟩ := ih hsame hu
    exact ⟨y, .item hother hy, hxy⟩
  | @field fields field _ hmem _ ih =>
    obtain ⟨b, rfl⟩ := likeness_equal.exists_map h
    obtain ⟨hnodup, -, hkeys⟩ := likeness_equal.alike_map_iff.1 h
    have hkey := hkeys field.1
    rw [Entries.get?_of_mem hnodup hmem] at hkey
    obtain ⟨held, hheld, hsame⟩ := exists_of_some_rel hkey
    obtain ⟨y, hy, hxy⟩ := ih hsame hu
    exact ⟨y, .field (Entries.mem_of_get? hheld) hy, hxy⟩

end Value

namespace Wire
open Value (Distinct Same Reordered likeness_equal)

variable {u v w : Value} {j k : Json}

/-! ### Equal wire forms -/

/-- Equal values are refused together. -/
theorem refused_of_same (h : Same v w) (hv : ∃ e, encode v = .error e) :
    ∃ e, encode w = .error e := by
  rw [exists_encode_error_iff] at hv ⊢
  obtain ⟨x, hx, hinfinite⟩ := hv
  obtain ⟨y, hy, hxy⟩ := Value.exists_float_of_same h hx
  exact ⟨y, hy, (Binary64.isFinite_eq_of_numEq hxy).symm.trans hinfinite⟩

theorem beq_tagged (tag : Tag) (p q : Json) : (tagged tag p == tagged tag q) = (p == q) := by
  change Json.equals _ _ = Json.equals p q
  simp [tagged, Json.single, Json.equals, Json.equalFields, Entries.get?]

/-- The wire forms of scalars are equal if the scalars are. -/
theorem beq_of_encode_scalar (hscalar : v.isContainer = false) (h : (v == w) = true)
    (hj : encode v = .ok j) (hk : encode w = .ok k) : (j == k) = true := by
  rcases (Value.beq_scalar_iff hscalar).1 h with ⟨rfl, hfloat⟩ | ⟨x, y, rfl, rfl, hxy⟩
  · cases hj.symm.trans hk
    cases v with
    | list | map => cases hscalar
    | float => cases hfloat
    | null =>
      cases hj
      rfl
    | bool b =>
      cases hj
      exact beq_self_eq_true b
    | string s =>
      cases hj
      rw [Json.beq_string, beq_self_eq_true]
    | int n =>
      cases hj
      rw [beq_tagged]
      exact beq_self_eq_true n.toInt
    | binary | time | date | timestamp =>
      cases hj
      rw [beq_tagged, Json.beq_string, beq_self_eq_true]
  · obtain ⟨m, hm, hj⟩ := bind_eq_ok_iff.1 hj
    obtain ⟨n, hn, hk⟩ := bind_eq_ok_iff.1 hk
    obtain ⟨_, rfl⟩ := floatNumber_eq_ok_iff.1 hm
    obtain ⟨_, rfl⟩ := floatNumber_eq_ok_iff.1 hn
    cases hj
    cases hk
    rw [beq_tagged]
    exact hxy

/-- Encoding goes through fields key by key. -/
theorem rel_of_encodeFields {fields : Entries Value} {ws : Entries Json}
    (h : encodeFields fields = .ok ws) (key : String) :
    Option.Rel (fun v w => encode v = .ok w) (fields.get? key) (ws.get? key) := by
  rw [encodeFields_eq_mapM, mapM_eq_ok_iff] at h
  refine Entries.rel_of_forall₂ (h.imp fun field w hw => ?_) key
  obtain ⟨json, hjson, rfl⟩ := map_eq_ok_iff.1 hw
  exact ⟨rfl, hjson⟩

theorem nodup_keys_of_encodeFields {fields : Entries Value} {ws : Entries Json}
    (h : encodeFields fields = .ok ws) (hnodup : fields.keys.Nodup) : ws.keys.Nodup := by
  rw [Entries.keys, keys_of_encodeFields h]
  exact hnodup

/-- The wire forms of equal values are equal. -/
theorem beq_of_encode (h : Same v w) (hj : encode v = .ok j) (hk : encode w = .ok k) :
    (j == k) = true := by
  induction v using Value.induct generalizing w j k with
  | scalar v hscalar => exact beq_of_encode_scalar hscalar h.2.2 hj hk
  | list items ih =>
    obtain ⟨others, rfl⟩ := likeness_equal.exists_list h
    obtain ⟨js, hjs, hj⟩ := bind_eq_ok_iff.1 hj
    obtain ⟨ks, hks, hk⟩ := bind_eq_ok_iff.1 hk
    cases hj
    cases hk
    rw [encodeItems_eq_mapM, mapM_eq_ok_iff] at hjs hks
    -- The wire forms are joined over the items that they come from, one list after the other.
    have hothers : List.Forall₂ (fun other j => ∀ k, encode other = .ok k → (j == k) = true)
        others js :=
      forall₂_join (likeness_equal.alike_list_iff.1 h) hjs
        fun item hmem _ _ hsame hj k hk => ih item hmem hsame hj hk
    exact Json.beq_array_iff.2 (forall₂_join hothers hks fun _ _ _ k hequal hk => hequal k hk)
  | map fields ih =>
    obtain ⟨others, rfl⟩ := likeness_equal.exists_map h
    obtain ⟨hnodup, hnodup', hkeys⟩ := likeness_equal.alike_map_iff.1 h
    obtain ⟨js, hjs, hj⟩ := bind_eq_ok_iff.1 hj
    obtain ⟨ks, hks, hk⟩ := bind_eq_ok_iff.1 hk
    cases hj
    cases hk
    refine (Json.beq_object_iff (nodup_keys_of_encodeFields hjs hnodup)
      (nodup_keys_of_encodeFields hks hnodup')).2 fun key => ?_
    have hothers : Option.Rel (fun other j => ∀ k, encode other = .ok k → (j == k) = true)
        (Entries.get? others key) (Entries.get? js key) :=
      rel_join (hkeys key) (rel_of_encodeFields hjs key)
        fun value hvalue _ _ hsame hj k hk => ih _ (Entries.mem_of_get? hvalue) hsame hj hk
    exact rel_join hothers (rel_of_encodeFields hks key) fun _ _ _ k hequal hk => hequal k hk

/-! ### Values that are sent alike -/

/-- Both values are refused, or both have wire forms, and these are equal JSON. -/
def SentAlike (v w : Value) : Prop :=
  (∃ e, encode v = .error e) ∧ (∃ e, encode w = .error e) ∨
    ∃ j k, encode v = .ok j ∧ encode w = .ok k ∧ (j == k) = true

theorem sentAlike_of_same (h : Same v w) : SentAlike v w := by
  cases hv : encode v with
  | error e => exact .inl ⟨⟨e, hv⟩, refused_of_same h ⟨e, hv⟩⟩
  | ok j =>
    cases hw : encode w with
    | error e =>
      obtain ⟨e', hv'⟩ := refused_of_same (Value.same_symm h) ⟨e, hw⟩
      rw [hv] at hv'
      cases hv'
    | ok k => exact .inr ⟨j, k, hv, hw, beq_of_encode h hv hw⟩

/-- Every value is sent like itself, even if it does not equal itself. -/
theorem sentAlike_self (h : v.Distinct) : SentAlike v v := by
  by_cases hrefused : ∃ e, encode v = .error e
  · exact .inl ⟨hrefused, hrefused⟩
  · rw [exists_encode_error_iff] at hrefused
    have hnumbers : ∀ x ∈ v.floats, x.isNaN = false := by
      intro x hx
      refine Bool.of_not_eq_true fun hnan => hrefused ?_
      exact ⟨x, Value.mem_floats_iff.1 hx, Binary64.isFinite_of_isNaN hnan⟩
    exact sentAlike_of_same ⟨h, h, (Value.beq_self_iff h).2 hnumbers⟩

section
open Merge
variable {base items : List Value} {item : Value}

/-- For an item that comes into a list and is no map, the merged list has one that is sent alike: the
item itself, or the one for which it was left out. -/
theorem exists_sentAlike_of_mem (hbase : Distinct (.list base)) (hitems : Distinct (.list items))
    (hmem : item ∈ items) (hmap : item.isMap = false) :
    ∃ held ∈ combineLists base items, SentAlike item held := by
  have hdistinct : Distinct (.list (combineLists base items)) :=
    (alike_combineLists Value.likeness_reordered Value.beq_eq_of_rearranged
      (Value.rearranged_self hbase) (Value.rearranged_self hitems)).1
  rw [Value.distinct_list_iff] at hitems hdistinct
  obtain ⟨before, hkept⟩ := exists_extends_of_mem hmem base
  rcases mem_or_beq_of_combineItem hmap before with hitem | ⟨held, hheld, hheldMap, hequal⟩
  · exact ⟨item, hkept.mem hitem hmap, sentAlike_self (hitems item hmem)⟩
  · have hstays := hkept.mem hheld hheldMap
    have hsame : Same item held := ⟨hitems item hmem, hdistinct held hstays, hequal⟩
    exact ⟨held, hstays, sentAlike_of_same hsame⟩

end

/-! ### The main statement -/

/-- **Equality is fit to tell repeated values.** A value equals itself unless it holds what is no
number. Equality is symmetric and transitive, and the order of map entries, at any depth and on
either side, decides nothing about it. Equal values are both refused by the encoding, or their wire
forms are equal JSON. So a merge of lists may leave out an item for one that equals it: for whatever
comes in and is no map, the merged list has an item that is sent alike. -/
theorem equality_sound (hu : u.Distinct) (hv : v.Distinct) (hw : w.Distinct) :
    ((v == v) = true ↔ ∀ x, v.Contains (.float x) → x.isNaN = false) ∧
    (v == w) = (w == v) ∧
    ((u == v) = true → (v == w) = true → (u == w) = true) ∧
    (∀ v' w', Reordered v v' → Reordered w w' → (v' == w') = (v == w)) ∧
    ((v == w) = true → SentAlike v w) ∧
    (∀ base items, Distinct (.list base) → Distinct (.list items) → v ∈ items → v.isMap = false →
      ∃ held ∈ Merge.combineLists base items, SentAlike v held) := by
  have hsymm : ∀ {v w : Value}, v.Distinct → w.Distinct → (v == w) = true → (w == v) = true :=
    fun hv hw h => (Value.same_symm ⟨hv, hw, h⟩).2.2
  refine ⟨?_, ?_, fun huv hvw => ?_, fun v' w' hv' hw' => ?_, fun h => ?_, ?_⟩
  · simp only [Value.beq_self_iff hv, Value.mem_floats_iff]
  · exact Bool.eq_iff_iff.2 ⟨hsymm hv hw, hsymm hw hv⟩
  · have hsame : Same u v := ⟨hu, hv, huv⟩
    have hsame' : Same v w := ⟨hv, hw, hvw⟩
    exact (Value.same_trans hsame hsame').2.2
  · exact (Value.beq_eq_of_rearranged ⟨hv, hv'.distinct hv, hv'⟩ ⟨hw, hw'.distinct hw, hw'⟩).symm
  · exact sentAlike_of_same ⟨hv, hw, h⟩
  · exact fun base items hbase hitems hmem hmap => exists_sentAlike_of_mem hbase hitems hmem hmap

/-- A list of a map with a zero and a map of two entries. -/
def tally : Value :=
  .list [.map [("z", .float (.zero false)), ("m", .map [("p", .int 1), ("q", .null)])]]

/-- The same in another order, with the other zero. -/
def recount : Value :=
  .list [.map [("m", .map [("q", .null), ("p", .int 1)]), ("z", .float (.zero true))]]

/-- The entries of the outer map turned round. -/
def turned : Value :=
  .list [.map [("m", .map [("p", .int 1), ("q", .null)]), ("z", .float (.zero false))]]

/-- The lists are equal, each to itself and to the other, also with entries turned round, and either
is sent for the other. -/
theorem equality_sound_recount :
    tally.Distinct ∧ recount.Distinct ∧ (tally == tally) = true ∧ (tally == recount) = true ∧
    (recount == tally) = true ∧ (recount == recount) = true ∧ Reordered tally turned ∧
    (turned == recount) = true ∧ SentAlike tally recount ∧
    ∃ held ∈ Merge.combineLists [recount] [.int 1, tally], SentAlike tally held := by
  have hdistinct : Distinct (.list [recount, .int 1, tally]) := by
    simp [tally, recount, Value.distinct_map_iff, Value.distinct_list_iff, Value.distinct_of_scalar,
      Entries.keys, Value.isContainer, Value.isMap, Value.isList]
  simp only [Value.distinct_list_iff, List.forall_mem_cons] at hdistinct
  obtain ⟨hrecount, hint, htally, -⟩ := hdistinct
  have hbase : Distinct (.list [recount]) := by simpa [Value.distinct_list_iff] using hrecount
  have hitems : Distinct (.list [.int 1, tally]) := by
    simpa [Value.distinct_list_iff] using And.intro hint htally
  have hturned : Reordered tally turned := .item [] [] (.entries (.swap ..))
  have hequal : (tally == recount) = true := by decide
  obtain ⟨hself, hsymm, -, horder, hsent, hkept⟩ := equality_sound htally htally hrecount
  obtain ⟨-, -, htrans, -⟩ := equality_sound hrecount htally hrecount
  have hback : (recount == tally) = true := hsymm ▸ hequal
  refine ⟨htally, hrecount, hself.2 fun x hx => ?_, hequal, hback, htrans hback hequal, hturned,
    (horder _ _ hturned (.refl _)).trans hequal, hsent hequal,
    hkept _ _ hbase hitems (List.mem_cons_of_mem _ (List.mem_singleton_self _)) rfl⟩
  rw [← Value.mem_floats_iff] at hx
  obtain rfl := List.mem_singleton.1 hx
  rfl

/-- Equal wire forms can differ in their texts, in the order of fields and in the sign of zeros. -/
example :
    (tagged .numberFloat (.number (.double (.zero true) rfl)) ==
        tagged .numberFloat (.number (.double (.zero false) rfl))) = true ∧
      (Json.Number.double (.zero true) rfl).toText = "-0.0" ∧
      (Json.Number.double (.zero false) rfl).toText = "0.0" :=
  ⟨rfl, rfl, rfl⟩

end Wire
end DocumentModel

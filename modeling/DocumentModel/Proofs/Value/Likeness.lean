import DocumentModel.Proofs.Entries.Relations
import DocumentModel.Proofs.Merge.Paths
import DocumentModel.Proofs.Value.Contents
import DocumentModel.Proofs.Value.Reordered
import Mathlib.Tactic.Tauto

/-! Relations that look at values part by part.

A `Likeness` relates lists item by item, and maps key by key, so that the order of map entries does
not count. Equality is one (`likeness_equal`), and so is the relation of values that differ in
nothing but that order (`likeness_reordered`); what a likeness adds to these rules is how it relates
scalars. What follows for all values from what holds for scalars is proved once, by induction over
values (`Likeness.join`). Between values that hold no key twice equality is symmetric and transitive
by that (`same_symm`, `same_trans`), and no comparison tells reordered values apart:
`beq_eq_of_rearranged`. -/
namespace DocumentModel.Value

variable {E F G : Value → Value → Prop} {u v w v' w' : Value} {xs ys zs : List Value}
  {a b : Entries Value}

/-! ### Likenesses -/

/-- A relation that goes into lists item by item, and into maps key by key. -/
structure Likeness (E : Value → Value → Prop) : Prop where
  isList_eq : ∀ {v w}, E v w → v.isList = w.isList
  isMap_eq : ∀ {v w}, E v w → v.isMap = w.isMap
  list_iff : ∀ {xs ys}, E (.list xs) (.list ys) ↔ List.Forall₂ E xs ys
  map_iff : ∀ {a b : Entries Value}, a.keys.Nodup → b.keys.Nodup →
    (E (.map a) (.map b) ↔ ∀ key, Option.Rel E (a.get? key) (b.get? key))

/-- A relation, between values that hold no key twice. -/
def Alike (E : Value → Value → Prop) (v w : Value) : Prop := v.Distinct ∧ w.Distinct ∧ E v w

namespace Likeness

theorem exists_list (h : Likeness E) (hlike : Alike E (.list xs) w) : ∃ ys, w = .list ys := by
  have hlist := h.isList_eq hlike.2.2
  cases w with
  | list ys => exact ⟨ys, rfl⟩
  | _ => cases hlist

theorem exists_map (h : Likeness E) (hlike : Alike E (.map a) w) : ∃ b, w = .map b := by
  have hmap := h.isMap_eq hlike.2.2
  cases w with
  | map b => exact ⟨b, rfl⟩
  | _ => cases hmap

theorem isContainer_eq (h : Likeness E) (hlike : Alike E v w) : v.isContainer = w.isContainer := by
  rw [isContainer, isContainer, h.isList_eq hlike.2.2, h.isMap_eq hlike.2.2]

theorem alike_list_iff (h : Likeness E) :
    Alike E (.list xs) (.list ys) ↔ List.Forall₂ (Alike E) xs ys := by
  rw [Alike, distinct_list_iff, distinct_list_iff, h.list_iff]
  induction xs generalizing ys with
  | nil => cases ys <;> simp
  | cons x xs ih =>
    cases ys with
    | nil => simp
    | cons y ys =>
      rw [List.forall₂_cons, List.forall₂_cons, ← ih, List.forall_mem_cons, List.forall_mem_cons,
        Alike]
      tauto

theorem alike_map_iff (h : Likeness E) :
    Alike E (.map a) (.map b) ↔
      a.keys.Nodup ∧ b.keys.Nodup ∧ ∀ key, Option.Rel (Alike E) (a.get? key) (b.get? key) := by
  constructor
  · intro hlike
    obtain ⟨ha, hb, hlike⟩ := hlike
    have hkeys := (h.map_iff ha.nodup_keys hb.nodup_keys).1 hlike
    refine ⟨ha.nodup_keys, hb.nodup_keys, fun key => rel_imp (hkeys key) fun hv hw hlike => ?_⟩
    exact ⟨ha.of_get? hv, hb.of_get? hw, hlike⟩
  · intro hgiven
    obtain ⟨ha, hb, hkeys⟩ := hgiven
    refine ⟨distinct_map_iff.2 ⟨ha, fun field hmem => ?_⟩,
      distinct_map_iff.2 ⟨hb, fun field hmem => ?_⟩,
      (h.map_iff ha hb).2 fun key => rel_imp (hkeys key) fun _ _ hlike => hlike.2.2⟩
    · have hkey := hkeys field.1
      rw [Entries.get?_of_mem ha hmem] at hkey
      obtain ⟨w, -, hlike⟩ := exists_of_some_rel hkey
      exact hlike.1
    · have hkey := hkeys field.1
      rw [Entries.get?_of_mem hb hmem] at hkey
      obtain ⟨v, -, hlike⟩ := exists_of_rel_some hkey
      exact hlike.2.1

/-- Where it holds for scalars that what is like the same is like each other, it holds for all
values. -/
theorem join (hE : Likeness E) (hF : Likeness F) (hG : Likeness G)
    (scalar : ∀ {u v w}, u.isContainer = false → E u v → F u w → G v w) (u : Value) :
    ∀ {v w}, Alike E u v → Alike F u w → Alike G v w := by
  induction u using induct with
  | scalar u hu => exact fun hv hw => ⟨hv.2.1, hw.2.1, scalar hu hv.2.2 hw.2.2⟩
  | list items ih =>
    intro v w hv hw
    obtain ⟨ys, rfl⟩ := hE.exists_list hv
    obtain ⟨zs, rfl⟩ := hF.exists_list hw
    rw [hE.alike_list_iff] at hv
    rw [hF.alike_list_iff] at hw
    exact hG.alike_list_iff.2 (forall₂_join hv hw ih)
  | map fields ih =>
    intro v w hv hw
    obtain ⟨b, rfl⟩ := hE.exists_map hv
    obtain ⟨c, rfl⟩ := hF.exists_map hw
    obtain ⟨-, hb, hkeys⟩ := hE.alike_map_iff.1 hv
    obtain ⟨-, hc, hkeys'⟩ := hF.alike_map_iff.1 hw
    refine hG.alike_map_iff.2 ⟨hb, hc, fun key => rel_join (hkeys key) (hkeys' key) ?_⟩
    exact fun value hvalue => ih _ (Entries.mem_of_get? hvalue)

end Likeness

/-! ### Equality -/

/-- A scalar equals itself alone, but for floating-point numbers, which are compared as numbers. -/
theorem beq_scalar_iff (h : v.isContainer = false) :
    (v == w) = true ↔
      v = w ∧ v.float? = none ∨ ∃ x y, v = .float x ∧ w = .float y ∧ x.numEq y = true := by
  change equals _ _ = true ↔ _
  cases v with
  | list | map => cases h
  | _ => cases w <;> simp [equals, float?]

theorem beq_list_iff :
    (Value.list xs == .list ys) = true ↔ List.Forall₂ (fun x y => (x == y) = true) xs ys := by
  change equals _ _ = true ↔ _
  rw [equals]
  exact forall₂_iff_of_step equals equalItems rfl (fun _ _ => rfl) (fun _ _ => rfl)
    (fun _ _ _ _ => rfl) xs ys

theorem equalFields_iff :
    equalFields a b = true ↔
      ∀ field ∈ a, ∃ held, b.get? field.1 = some held ∧ (field.2 == held) = true := by
  refine Entries.forall_get?_iff_of_step equals equalFields (fun _ => rfl) (fun key x rest b => ?_) a b
  rw [equalFields]
  cases b.get? key <;> rfl

/-- Maps are equal exactly if each key has equal values in both, or no value. -/
theorem beq_map_iff (ha : a.keys.Nodup) (hb : b.keys.Nodup) :
    (Value.map a == .map b) = true ↔
      ∀ key, Option.Rel (fun x y => (x == y) = true) (a.get? key) (b.get? key) := by
  change equals _ _ = true ↔ _
  rw [equals, Bool.and_eq_true, equalFields_iff, beq_iff_eq]
  exact Entries.length_eq_and_forall_get?_iff (E := fun x y => (x == y) = true) ha hb

theorem likeness_equal : Likeness fun v w => (v == w) = true where
  isList_eq {v w} h := by
    change equals v w = true at h
    cases v <;> cases w <;> first | rfl | simp [equals] at h
  isMap_eq {v w} h := by
    change equals v w = true at h
    cases v <;> cases w <;> first | rfl | simp [equals] at h
  list_iff := beq_list_iff
  map_iff := beq_map_iff

/-! ### The order of map entries -/

theorem Reordered.isList_eq (h : Reordered v w) : v.isList = w.isList := by
  induction h with
  | trans _ _ ih₁ ih₂ => exact ih₁.trans ih₂
  | _ => rfl

theorem Reordered.isMap_eq (h : Reordered v w) : v.isMap = w.isMap := by
  induction h with
  | trans _ _ ih₁ ih₂ => exact ih₁.trans ih₂
  | _ => rfl

theorem Reordered.forall₂ (h : Reordered v w) :
    ∀ {xs ys}, v = .list xs → w = .list ys → List.Forall₂ Reordered xs ys := by
  have hrefl : ∀ items, List.Forall₂ Reordered items items :=
    fun items => List.forall₂_same.2 fun item _ => .refl item
  induction h with
  | refl v =>
    intro xs ys hxs hys
    cases hxs.symm.trans hys
    exact hrefl xs
  | entries => exact fun hxs => nomatch hxs
  | field => exact fun hxs => nomatch hxs
  | item before after h _ =>
    intro xs ys hxs hys
    cases hxs
    cases hys
    exact List.rel_append (hrefl before) (.cons h (hrefl after))
  | @trans u v w huv _ ih₁ ih₂ =>
    intro xs zs hxs hzs
    subst hxs
    have hlist := huv.isList_eq
    cases v with
    | list ys => exact forall₂_trans .trans (ih₁ rfl rfl) (ih₂ rfl hzs)
    | _ => cases hlist

theorem Reordered.rel (h : Reordered v w) :
    ∀ {a b : Entries Value}, v = .map a → w = .map b → a.keys.Nodup →
      b.keys.Nodup ∧ ∀ key, Option.Rel Reordered (a.get? key) (b.get? key) := by
  induction h with
  | refl v =>
    intro a b ha hb hnodup
    cases ha.symm.trans hb
    exact ⟨hnodup, fun key => rel_refl .refl _⟩
  | entries hperm =>
    intro a b ha hb hnodup
    cases ha
    cases hb
    refine ⟨(hperm.map _).nodup_iff.1 hnodup, fun key => ?_⟩
    rw [Entries.get?_of_perm hnodup hperm]
    exact rel_refl .refl _
  | @field v v' before after key h _ =>
    intro a b ha hb hnodup
    cases ha
    cases hb
    rw [Entries.keys_append_cons] at hnodup ⊢
    refine ⟨hnodup, fun other => ?_⟩
    have hbefore : key ∉ Entries.keys before := by
      intro hmem
      exact (List.nodup_append.1 hnodup).2.2 key hmem key (List.mem_cons_self ..) rfl
    rw [← Entries.insert_append_cons hbefore v v', Entries.get?_insert]
    by_cases hkey : key = other
    · subst hkey
      rw [if_pos rfl, Entries.get?_append_cons hbefore]
      exact .some h
    · rw [if_neg hkey]
      exact rel_refl .refl _
  | item => exact fun ha => nomatch ha
  | @trans u v w huv _ ih₁ ih₂ =>
    intro a c ha hc hnodup
    subst ha
    have hmap := huv.isMap_eq
    cases v with
    | map b =>
      obtain ⟨hb, hkeys⟩ := ih₁ rfl rfl hnodup
      obtain ⟨hc, hkeys'⟩ := ih₂ rfl hc hb
      exact ⟨hc, fun key => rel_trans .trans (hkeys key) (hkeys' key)⟩
    | _ => cases hmap

theorem reordered_of_forall₂ (h : List.Forall₂ Reordered xs ys) (before : List Value) :
    Reordered (.list (before ++ xs)) (.list (before ++ ys)) := by
  induction h generalizing before with
  | nil => exact .refl _
  | @cons x y xs ys hx _ ih =>
    have hrest := ih (before ++ [y])
    rw [List.append_assoc, List.append_assoc] at hrest
    exact .trans (.item before xs hx) hrest

/-- Reordering each field in its place reorders the map. -/
theorem reordered_of_forall₂_fields
    (h : List.Forall₂ (fun x y : String × Value => x.1 = y.1 ∧ Reordered x.2 y.2) a b)
    (before : Entries Value) : Reordered (.map (before ++ a)) (.map (before ++ b)) := by
  induction h generalizing before with
  | nil => exact .refl _
  | @cons x y xs ys hx _ ih =>
    obtain ⟨key, v⟩ := x
    obtain ⟨_, w⟩ := y
    obtain ⟨rfl, hx⟩ := hx
    have hrest := ih (before ++ [(key, w)])
    rw [List.append_assoc, List.append_assoc] at hrest
    exact .trans (.field before xs key hx) hrest

theorem reordered_of_rel (ha : a.keys.Nodup) (hb : b.keys.Nodup)
    (h : ∀ key, Option.Rel Reordered (a.get? key) (b.get? key)) : Reordered (.map a) (.map b) := by
  have hfound : ∀ field ∈ a, ∃ held, b.get? field.1 = some held ∧ Reordered field.2 held := by
    intro field hmem
    have hkey := h field.1
    rw [Entries.get?_of_mem ha hmem] at hkey
    exact exists_of_some_rel hkey
  -- On the way stand the values of the one map, in the order of the other.
  let c : Entries Value := a.map fun field => (field.1, (b.get? field.1).getD field.2)
  have hfields : List.Forall₂ (fun x y : String × Value => x.1 = y.1 ∧ Reordered x.2 y.2) a c := by
    rw [List.forall₂_map_right_iff, List.forall₂_same]
    intro field hmem
    obtain ⟨held, hheld, hreordered⟩ := hfound field hmem
    rw [hheld]
    exact ⟨rfl, hreordered⟩
  have hkeys : Entries.keys c = a.keys := by
    rw [Entries.keys, List.map_map]
    rfl
  have hc : (Entries.keys c).Nodup := hkeys ▸ ha
  have hget : ∀ key, Entries.get? c key = b.get? key := by
    intro key
    by_cases hkey : key ∈ a.keys
    · obtain ⟨field, hmem, rfl⟩ := List.mem_map.1 hkey
      obtain ⟨held, hheld, -⟩ := hfound field hmem
      rw [Entries.get?_of_mem hc (List.mem_map_of_mem hmem), hheld, Option.getD_some]
    · rw [Entries.get?_of_notMem (hkeys ▸ hkey),
        Entries.get?_of_notMem (mt (Entries.mem_keys_iff_of_rel h key).2 hkey)]
  exact .trans (reordered_of_forall₂_fields hfields []) (.entries (Entries.perm_of_get? hc hb hget))

theorem likeness_reordered : Likeness Reordered where
  isList_eq := Reordered.isList_eq
  isMap_eq := Reordered.isMap_eq
  list_iff := ⟨fun h => h.forall₂ rfl rfl, fun h => reordered_of_forall₂ h []⟩
  map_iff ha hb := ⟨fun h => (h.rel rfl rfl ha).2, reordered_of_rel ha hb⟩

theorem Reordered.eq_of_scalar (h : Reordered v w) (hv : v.isContainer = false) : w = v := by
  induction h with
  | refl v => rfl
  | entries | field | item => cases hv
  | trans _ _ ih₁ ih₂ =>
    obtain rfl := ih₁ hv
    exact ih₂ hv

/-- Where no key stands twice, none does in another order. -/
theorem Reordered.distinct (h : Reordered v w) (hv : v.Distinct) : w.Distinct := by
  induction h with
  | refl => exact hv
  | entries hperm =>
    obtain ⟨hnodup, hfields⟩ := distinct_map_iff.1 hv
    exact distinct_map_iff.2
      ⟨(hperm.map _).nodup_iff.1 hnodup, fun field hmem => hfields field (hperm.mem_iff.2 hmem)⟩
  | field before after key _ ih =>
    simp only [distinct_map_iff, Entries.keys_append_cons, List.forall_mem_append,
      List.forall_mem_cons] at hv ⊢
    obtain ⟨hnodup, hbefore, hfield, hafter⟩ := hv
    exact ⟨hnodup, hbefore, ih hfield, hafter⟩
  | item before after _ ih =>
    simp only [distinct_list_iff, List.forall_mem_append, List.forall_mem_cons] at hv ⊢
    obtain ⟨hbefore, hitem, hafter⟩ := hv
    exact ⟨hbefore, ih hitem, hafter⟩
  | trans _ _ ih₁ ih₂ => exact ih₂ (ih₁ hv)

/-! ### Comparisons -/

/-- Equality, between values that hold no key twice. -/
abbrev Same : Value → Value → Prop := Alike fun v w => (v == w) = true

/-- The same but for the order of map entries, between values that hold no key twice. -/
abbrev Rearranged : Value → Value → Prop := Alike Reordered

theorem rearranged_self (h : v.Distinct) : Rearranged v v := ⟨h, h, .refl v⟩

theorem beq_symm_of_scalar (hv : v.isContainer = false) (h : (v == w) = true) :
    (w == v) = true := by
  rcases (beq_scalar_iff hv).1 h with ⟨rfl, -⟩ | ⟨x, y, rfl, rfl, hxy⟩
  · exact h
  · obtain ⟨hx, hy, hplace⟩ := Binary64.numEq_iff.1 hxy
    exact (beq_scalar_iff rfl).2 (.inr ⟨y, x, rfl, rfl, Binary64.numEq_iff.2 ⟨hy, hx, hplace.symm⟩⟩)

theorem beq_of_scalar (hu : u.isContainer = false) (hv : (u == v) = true) (hw : (u == w) = true) :
    (v == w) = true := by
  rcases (beq_scalar_iff hu).1 hv with ⟨rfl, -⟩ | ⟨x, y, rfl, rfl, hxy⟩
  · exact hw
  · rcases (beq_scalar_iff hu).1 hw with ⟨-, hfloat⟩ | ⟨x', z, hx, rfl, hxz⟩
    · cases hfloat
    · cases hx
      obtain ⟨-, hy, hplace⟩ := Binary64.numEq_iff.1 hxy
      obtain ⟨-, hz, hplace'⟩ := Binary64.numEq_iff.1 hxz
      have hyz := Binary64.numEq_iff.2 ⟨hy, hz, hplace.symm.trans hplace'⟩
      exact (beq_scalar_iff rfl).2 (.inr ⟨y, z, rfl, rfl, hyz⟩)

/-- Values that equal the same value are equal. -/
theorem same_of_same (hv : Same u v) (hw : Same u w) : Same v w :=
  likeness_equal.join likeness_equal likeness_equal beq_of_scalar u hv hw

/-- What equals a value equals it in every order of map entries. -/
theorem same_of_rearranged (hv : Same u v) (hw : Rearranged u w) : Same v w := by
  refine likeness_equal.join likeness_reordered likeness_equal (fun hu hv hw => ?_) u hv hw
  obtain rfl := hw.eq_of_scalar hu
  exact beq_symm_of_scalar hu hv

theorem same_symm (h : Same v w) : Same w v := same_of_rearranged h (rearranged_self h.1)

theorem same_trans (huv : Same u v) (hvw : Same v w) : Same u w := same_of_same (same_symm huv) hvw

/-- Equal values compare in the same way. -/
theorem beq_eq_of_same (hv : Same v v') (hw : Same w w') : (v == w) = (v' == w') := by
  rw [Bool.eq_iff_iff]
  constructor
  · intro h
    have hvw : Same v w := ⟨hv.1, hw.1, h⟩
    exact (same_trans (same_of_same hv hvw) hw).2.2
  · intro h
    have hvw : Same v' w' := ⟨hv.2.1, hw.2.1, h⟩
    exact (same_trans hv (same_trans hvw (same_symm hw))).2.2

/-- Values in another order of map entries compare in the same way. -/
theorem beq_eq_of_rearranged (hv : Rearranged v v') (hw : Rearranged w w') :
    (v == w) = (v' == w') := by
  have hback : ∀ {v w}, Rearranged v w → Rearranged w v := fun h => ⟨h.2.1, h.1, h.2.2.symm⟩
  have hone : ∀ {v v' w w'}, Rearranged v v' → Rearranged w w' →
      (v == w) = true → (v' == w') = true := by
    intro v v' w w' hv hw h
    have hvw : Same w v' := same_of_rearranged ⟨hv.1, hw.1, h⟩ hv
    exact (same_of_rearranged hvw hw).2.2
  exact Bool.eq_iff_iff.2 ⟨hone hv hw, hone (hback hv) (hback hw)⟩

end DocumentModel.Value

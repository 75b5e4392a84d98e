import DocumentModel.Proofs.Entries.Laws
import Mathlib.Data.List.Forall2
import Mathlib.Data.List.Perm.Subperm

/-! Relations between lists and between entries.

A relation of items is one of lists, item by item (`List.Forall₂`), and one of what may be absent,
which is absent on both sides or on neither (`Option.Rel`); and so it is one of entries, key by key.
Entries are compared by looking up those of the one side in the other and counting both. Where no
key stands twice, the keys that are found leave no room for others, so that this comparison goes key
by key in both directions: `length_eq_and_forall_get?_iff`. -/
namespace DocumentModel
variable {α β γ : Type}

/-! ### What may be absent -/

section
variable {x : Option α} {y : Option β} {z : Option γ}

theorem rel_refl {E : α → α → Prop} (h : ∀ v, E v v) (x : Option α) : Option.Rel E x x := by
  cases x with
  | none => exact .none
  | some v => exact .some (h v)

theorem rel_trans {E : α → α → Prop} {x y z : Option α} (h : ∀ {u v w}, E u v → E v w → E u w)
    (hxy : Option.Rel E x y) (hyz : Option.Rel E y z) : Option.Rel E x z := by
  cases hxy with
  | none => exact hyz
  | some hx =>
    cases hyz with
    | some hy => exact .some (h hx hy)

theorem rel_imp {E F : α → β → Prop} (h : Option.Rel E x y)
    (himp : ∀ {v w}, x = some v → y = some w → E v w → F v w) : Option.Rel F x y := by
  cases h with
  | none => exact .none
  | some h => exact .some (himp rfl rfl h)

theorem rel_join {E : α → β → Prop} {F : α → γ → Prop} {G : β → γ → Prop} (hy : Option.Rel E x y)
    (hz : Option.Rel F x z) (h : ∀ u, x = some u → ∀ {v w}, E u v → F u w → G v w) :
    Option.Rel G y z := by
  cases hy with
  | none =>
    cases hz
    exact .none
  | some hy =>
    cases hz with
    | some hz => exact .some (h _ rfl hy hz)

variable {E : α → β → Prop}

theorem isSome_eq_of_rel (h : Option.Rel E x y) : x.isSome = y.isSome := by
  cases h <;> rfl

theorem exists_of_some_rel {v : α} (h : Option.Rel E (some v) y) : ∃ w, y = some w ∧ E v w := by
  cases h with
  | some h => exact ⟨_, rfl, h⟩

theorem exists_of_rel_some {w : β} (h : Option.Rel E x (some w)) : ∃ v, x = some v ∧ E v w := by
  cases h with
  | some h => exact ⟨_, rfl, h⟩

end

/-! ### Lists, item by item -/

section
variable {xs : List α} {ys : List β} {zs : List γ}

theorem forall₂_trans {E : α → α → Prop} {xs ys zs : List α} (h : ∀ {u v w}, E u v → E v w → E u w)
    (hxy : List.Forall₂ E xs ys) (hyz : List.Forall₂ E ys zs) : List.Forall₂ E xs zs := by
  induction hxy generalizing zs with
  | nil => exact hyz
  | cons hx _ ih =>
    cases hyz with
    | cons hy hrest => exact .cons (h hx hy) (ih hrest)

theorem forall₂_join {E : α → β → Prop} {F : α → γ → Prop} {G : β → γ → Prop}
    (hy : List.Forall₂ E xs ys) (hz : List.Forall₂ F xs zs)
    (h : ∀ u ∈ xs, ∀ {v w}, E u v → F u w → G v w) : List.Forall₂ G ys zs := by
  induction hy generalizing zs with
  | nil =>
    cases hz
    exact .nil
  | cons hy _ ih =>
    cases hz with
    | cons hz hrest =>
      obtain ⟨hitem, hitems⟩ := List.forall_mem_cons.1 h
      exact .cons (hitem hy hz) (ih hrest hitems)

theorem forall₂_set {E : α → β → Prop} {x : α} {y : β} (h : List.Forall₂ E xs ys) (hitem : E x y)
    (i : Nat) : List.Forall₂ E (xs.set i x) (ys.set i y) := by
  induction h generalizing i with
  | nil => exact .nil
  | cons hv hrest ih =>
    cases i with
    | zero => exact .cons hitem hrest
    | succ i => exact .cons hv (ih i)

theorem forall₂_concat {E : α → β → Prop} {x : α} {y : β} (h : List.Forall₂ E xs ys)
    (hitem : E x y) : List.Forall₂ E (xs ++ [x]) (ys ++ [y]) :=
  List.rel_append h (.cons hitem .nil)

theorem rel_getElem? {E : α → β → Prop} (h : List.Forall₂ E xs ys) (i : Nat) :
    Option.Rel E xs[i]? ys[i]? := by
  induction h generalizing i with
  | nil => exact .none
  | cons hv _ ih =>
    cases i with
    | zero => exact .some hv
    | succ i => exact ih i

theorem findIdx?_eq_of_forall₂ {E : α → β → Prop} {p : α → Bool} {q : β → Bool}
    (h : List.Forall₂ E xs ys) (hpq : ∀ {v w}, E v w → p v = q w) :
    xs.findIdx? p = ys.findIdx? q := by
  induction h with
  | nil => rfl
  | cons hv _ ih => rw [List.findIdx?_cons, List.findIdx?_cons, hpq hv, ih]

theorem exists_of_mem_of_forall₂ {E : α → β → Prop} (h : List.Forall₂ E xs ys) {x : α}
    (hmem : x ∈ xs) : ∃ y ∈ ys, E x y := by
  induction h with
  | nil => cases hmem
  | @cons _ y _ ys hxy _ ih =>
    rcases List.mem_cons.1 hmem with rfl | hmem
    · exact ⟨y, List.mem_cons_self .., hxy⟩
    · obtain ⟨later, hlater, hrelated⟩ := ih hmem
      exact ⟨later, List.mem_cons_of_mem y hlater, hrelated⟩

/-- A recursion that takes two lists item by item compares them so. -/
theorem forall₂_iff_of_step (f : α → β → Bool) (g : List α → List β → Bool)
    (hnil : g [] [] = true) (hleft : ∀ y ys, g [] (y :: ys) = false)
    (hright : ∀ x xs, g (x :: xs) [] = false)
    (hcons : ∀ x xs y ys, g (x :: xs) (y :: ys) = (f x y && g xs ys)) (xs : List α) (ys : List β) :
    g xs ys = true ↔ List.Forall₂ (fun x y => f x y = true) xs ys := by
  induction xs generalizing ys with
  | nil => cases ys <;> simp [hnil, hleft]
  | cons x xs ih =>
    cases ys with
    | nil => simp [hright]
    | cons y ys => rw [hcons, Bool.and_eq_true, ih, List.forall₂_cons]

end

namespace Entries

/-! ### Entries, key by key -/

section
variable {E : α → β → Prop} {a : Entries α} {b : Entries β}

/-- Entries that are related key by key have the same keys. -/
theorem mem_keys_iff_of_rel (h : ∀ key, Option.Rel E (a.get? key) (b.get? key)) (key : String) :
    key ∈ a.keys ↔ key ∈ b.keys := by
  rw [← isSome_get?_iff, ← isSome_get?_iff, isSome_eq_of_rel (h key)]

/-- Entries with the same keys in the same places, and with related values there, are related key by
key. -/
theorem rel_of_forall₂
    (h : List.Forall₂ (fun x y : String × _ => x.1 = y.1 ∧ E x.2 y.2) a b) (key : String) :
    Option.Rel E (a.get? key) (b.get? key) := by
  induction h with
  | nil => exact .none
  | @cons x y a b hxy _ ih =>
    obtain ⟨k, v⟩ := x
    obtain ⟨_, w⟩ := y
    obtain ⟨rfl, hvw⟩ := hxy
    rw [get?, get?]
    by_cases hk : k = key
    · rw [if_pos hk, if_pos hk]
      exact .some hvw
    · rw [if_neg hk, if_neg hk]
      exact ih

/-! ### Entries, looked up and counted -/

/-- Entries that have every key of others, and are no more than they, have no other keys. -/
theorem mem_keys_iff_of_subset (ha : a.keys.Nodup) (hsub : a.keys ⊆ b.keys)
    (hlength : a.length = b.length) (key : String) : key ∈ b.keys ↔ key ∈ a.keys := by
  have hle : b.keys.length ≤ a.keys.length := by
    rw [keys, keys, List.length_map, List.length_map]
    omega
  exact ((List.subperm_of_subset ha hsub).perm_of_length_le hle).mem_iff.symm

/-- Entries are related key by key exactly if they are equally many and each of the one side has a
related one under its key on the other. -/
theorem length_eq_and_forall_get?_iff (ha : a.keys.Nodup) (hb : b.keys.Nodup) :
    (a.length = b.length ∧ ∀ field ∈ a, ∃ held, b.get? field.1 = some held ∧ E field.2 held) ↔
      ∀ key, Option.Rel E (a.get? key) (b.get? key) := by
  constructor
  · intro hgiven key
    obtain ⟨hlength, hfields⟩ := hgiven
    cases hget : a.get? key with
    | some value =>
      obtain ⟨held, hheld, hrelated⟩ := hfields _ (mem_of_get? hget)
      rw [hheld]
      exact .some hrelated
    | none =>
      -- The keys of the one side are all there is room for on the other.
      have hsub : a.keys ⊆ b.keys := by
        intro k hk
        obtain ⟨field, hmem, rfl⟩ := List.mem_map.1 hk
        obtain ⟨held, hheld, -⟩ := hfields field hmem
        rw [← isSome_get?_iff, hheld]
        rfl
      have hnone : key ∉ b.keys := by
        rw [mem_keys_iff_of_subset ha hsub hlength, ← isSome_get?_iff, hget]
        exact Bool.false_ne_true
      rw [get?_of_notMem hnone]
      exact .none
  · intro hkeys
    refine ⟨?_, fun field hfield => ?_⟩
    · have hperm := (List.perm_ext_iff_of_nodup ha hb).2 (mem_keys_iff_of_rel hkeys)
      have hlength := hperm.length_eq
      rwa [keys, keys, List.length_map, List.length_map] at hlength
    · have hkey := hkeys field.1
      rw [get?_of_mem ha hfield] at hkey
      exact exists_of_some_rel hkey

end

/-- A recursion that looks up one entry after the other looks up all of them. -/
theorem forall_get?_iff_of_step (f : α → β → Bool) (g : Entries α → Entries β → Bool)
    (hnil : ∀ b, g [] b = true)
    (hcons : ∀ key x rest b, g ((key, x) :: rest) b = ((get? b key).any (f x) && g rest b))
    (a : Entries α) (b : Entries β) :
    g a b = true ↔ ∀ field ∈ a, ∃ held, b.get? field.1 = some held ∧ f field.2 held = true := by
  induction a with
  | nil => simp [hnil]
  | cons field rest ih =>
    obtain ⟨key, x⟩ := field
    rw [hcons, Bool.and_eq_true, ih, List.forall_mem_cons, Option.any_eq_true]

end Entries
end DocumentModel

import Mathlib.Data.List.Forall2

/-! Chains of operations that can fail: a chain succeeds exactly if each of its links does, and
fails as the first link that does not. -/
namespace DocumentModel

theorem bind_eq_ok_iff {ε α β : Type} {x : Except ε α} {f : α → Except ε β} {b : β} :
    (x >>= f) = .ok b ↔ ∃ a, x = .ok a ∧ f a = .ok b := by
  cases x with
  | error e =>
    constructor
    · intro h
      cases h
    · intro hgiven
      obtain ⟨a, ha, _⟩ := hgiven
      cases ha
  | ok a =>
    constructor
    · intro h
      exact ⟨a, rfl, h⟩
    · intro hgiven
      obtain ⟨a', ha, h⟩ := hgiven
      cases ha
      exact h

/-- A chain fails with the error of the first of its links that fails. -/
theorem bind_eq_error_iff {ε α β : Type} {x : Except ε α} {f : α → Except ε β} {e : ε} :
    (x >>= f) = .error e ↔ x = .error e ∨ ∃ a, x = .ok a ∧ f a = .error e := by
  cases x with
  | error e' =>
    show Except.error e' = Except.error e ↔ _
    simp
  | ok a =>
    show f a = .error e ↔ _
    simp

/-- An operation succeeds exactly if it does not fail. -/
theorem exists_ok_iff {ε α : Type} {x : Except ε α} :
    (∃ a, x = .ok a) ↔ ¬ ∃ e, x = .error e := by
  cases x <;> simp

theorem map_eq_ok_iff {ε α β : Type} {f : α → β} {x : Except ε α} {b : β} :
    x.map f = .ok b ↔ ∃ a, x = .ok a ∧ f a = b := by
  cases x <;> simp [Except.map]

theorem map_eq_error_iff {ε α β : Type} {f : α → β} {x : Except ε α} {e : ε} :
    x.map f = .error e ↔ x = .error e := by
  cases x <;> simp [Except.map]

/-- A link that cannot fail decides nothing. -/
theorem exists_bind_pure_iff {ε α β : Type} {x : Except ε α} {f : α → β} :
    (∃ b, (x >>= fun a => pure (f a)) = .ok b) ↔ ∃ a, x = .ok a := by
  constructor
  · intro hgiven
    obtain ⟨b, h⟩ := hgiven
    obtain ⟨a, ha, -⟩ := bind_eq_ok_iff.1 h
    exact ⟨a, ha⟩
  · intro hgiven
    obtain ⟨a, ha⟩ := hgiven
    exact ⟨f a, bind_eq_ok_iff.2 ⟨a, ha, rfl⟩⟩

/-- What comes of a link that cannot fail and that tells apart what it is given tells what was
given. -/
theorem bind_pure_eq_ok_iff {ε α β : Type} {x : Except ε α} {f : α → β} {a : α}
    (hf : Function.Injective f) : (x >>= fun a => pure (f a)) = .ok (f a) ↔ x = .ok a := by
  rw [bind_eq_ok_iff]
  constructor
  · rintro ⟨a', ha, h⟩
    rw [ha, hf (Except.ok.inj h)]
  · intro ha
    exact ⟨a, ha, rfl⟩

/-- Nor does it fail with an error of its own. -/
theorem bind_pure_eq_error_iff {ε α β : Type} {x : Except ε α} {f : α → β} {e : ε} :
    (x >>= fun a => pure (f a)) = .error e ↔ x = .error e := by
  rw [bind_eq_error_iff]
  refine or_iff_left fun hgiven => ?_
  obtain ⟨a, -, h⟩ := hgiven
  cases h

/-- Going through a list succeeds exactly if it does at each item, with the results in order. -/
theorem mapM_eq_ok_iff {ε α β : Type} {f : α → Except ε β} {xs : List α} {ys : List β} :
    xs.mapM f = .ok ys ↔ List.Forall₂ (fun x y => f x = .ok y) xs ys := by
  induction xs generalizing ys with
  | nil =>
    rw [List.mapM_nil, List.forall₂_nil_left_iff]
    exact ⟨fun h => (Except.ok.inj h).symm, fun h => by rw [h]; rfl⟩
  | cons x rest ih =>
    rw [List.mapM_cons, bind_eq_ok_iff, List.forall₂_cons_left_iff]
    constructor
    · rintro ⟨y, hy, hrest⟩
      obtain ⟨later, hlater, hdone⟩ := bind_eq_ok_iff.1 hrest
      cases hdone
      exact ⟨y, later, hy, ih.1 hlater, rfl⟩
    · rintro ⟨y, later, hy, hlater, rfl⟩
      exact ⟨y, hy, bind_eq_ok_iff.2 ⟨later, ih.2 hlater, rfl⟩⟩

/-- One form of a list is made of another exactly if this is so at each item. -/
theorem mapM_map_eq_ok_iff {ε α β γ : Type} {f : β → Except ε γ} {g : α → β} {h : α → γ}
    {xs : List α} : (xs.map g).mapM f = .ok (xs.map h) ↔ ∀ x ∈ xs, f (g x) = .ok (h x) := by
  rw [mapM_eq_ok_iff, List.forall₂_map_left_iff, List.forall₂_map_right_iff, List.forall₂_same]

/-- Where two relations differ in a condition on the item, two lists are related by the second if
the condition holds throughout. -/
theorem forall₂_iff_of_forall₂ {α β : Type} {R S : α → β → Prop} {P : α → Prop} {xs : List α}
    {ys : List β} (h : List.Forall₂ R xs ys) (hiff : ∀ x ∈ xs, ∀ y, R x y → (S x y ↔ P x)) :
    List.Forall₂ S xs ys ↔ ∀ x ∈ xs, P x := by
  induction h with
  | nil => simp
  | @cons x y xs ys hxy hrest ih =>
    obtain ⟨hfirst, hlater⟩ := List.forall_mem_cons.1 hiff
    rw [List.forall₂_cons, List.forall_mem_cons, hfirst y hxy, ih hlater]

/-- What was made of a list is made into the list again exactly if this is so at each item. -/
theorem mapM_back_iff {ε α β : Type} {f : α → Except ε β} {g : β → Except ε α} {P : α → Prop}
    {xs : List α} {ys : List β} (h : xs.mapM f = .ok ys)
    (hback : ∀ x ∈ xs, ∀ y, f x = .ok y → (g y = .ok x ↔ P x)) :
    ys.mapM g = .ok xs ↔ ∀ x ∈ xs, P x := by
  rw [mapM_eq_ok_iff, ← forall₂_iff_of_forall₂ (mapM_eq_ok_iff.1 h) hback]
  exact ⟨.flip, .flip⟩

/-- Another operation makes the same of a list exactly if it does so of each item. -/
theorem mapM_same_iff {ε α β : Type} {f g : α → Except ε β} {P : α → Prop} {xs : List α}
    {ys : List β} (h : xs.mapM f = .ok ys)
    (hsame : ∀ x ∈ xs, ∀ y, f x = .ok y → (g x = .ok y ↔ P x)) :
    xs.mapM g = .ok ys ↔ ∀ x ∈ xs, P x := by
  rw [mapM_eq_ok_iff, forall₂_iff_of_forall₂ (mapM_eq_ok_iff.1 h) hsame]

/-- So it is with fields whose values are gone through and whose keys are left. -/
theorem mapM_fields_back_iff {ε α β : Type} {f : α → Except ε β} {g : β → Except ε α}
    {P : α → Prop} {fields : List (String × α)} {others : List (String × β)}
    (h : fields.mapM (fun field => (f field.2).map (field.1, ·)) = .ok others)
    (hback : ∀ field ∈ fields, ∀ b, f field.2 = .ok b → (g b = .ok field.2 ↔ P field.2)) :
    others.mapM (fun field => (g field.2).map (field.1, ·)) = .ok fields ↔
      ∀ field ∈ fields, P field.2 := by
  refine mapM_back_iff h ?_
  rintro ⟨key, a⟩ hmem other hother
  obtain ⟨b, hb, rfl⟩ := map_eq_ok_iff.1 hother
  rw [← hback _ hmem b hb]
  simp only [map_eq_ok_iff, Prod.mk.injEq, true_and, exists_eq_right]

theorem mapM_fields_same_iff {ε α β : Type} {f g : α → Except ε β} {P : α → Prop}
    {fields : List (String × α)} {others : List (String × β)}
    (h : fields.mapM (fun field => (f field.2).map (field.1, ·)) = .ok others)
    (hsame : ∀ field ∈ fields, ∀ b, f field.2 = .ok b → (g field.2 = .ok b ↔ P field.2)) :
    fields.mapM (fun field => (g field.2).map (field.1, ·)) = .ok others ↔
      ∀ field ∈ fields, P field.2 := by
  refine mapM_same_iff h ?_
  rintro ⟨key, a⟩ hmem other hother
  obtain ⟨b, hb, rfl⟩ := map_eq_ok_iff.1 hother
  rw [← hsame _ hmem b hb]
  simp only [map_eq_ok_iff, Prod.mk.injEq, true_and, exists_eq_right]

/-- A recursion that takes a list item by item goes through it. -/
theorem eq_mapM_of_step {ε α β : Type} (f : α → Except ε β) (g : List α → Except ε (List β))
    (hnil : g [] = .ok [])
    (hcons : ∀ x rest, g (x :: rest) = do
      let y ← f x
      return y :: (← g rest))
    (xs : List α) : g xs = xs.mapM f := by
  induction xs with
  | nil => exact hnil
  | cons x rest ih => rw [hcons, List.mapM_cons, ih]

/-- So does one that takes fields one by one and leaves their keys. -/
theorem eq_mapM_of_fieldStep {ε α β : Type} (f : α → Except ε β)
    (g : List (String × α) → Except ε (List (String × β))) (hnil : g [] = .ok [])
    (hcons : ∀ key a rest, g ((key, a) :: rest) = do
      let b ← f a
      return (key, b) :: (← g rest))
    (fields : List (String × α)) :
    g fields = fields.mapM fun field => (f field.2).map (field.1, ·) := by
  refine eq_mapM_of_step _ g hnil (fun field rest => ?_) fields
  rw [hcons]
  cases f field.2 <;> rfl

/-- Operations that do the same to each item do the same to a list, and fail alike. -/
theorem mapM_congr {ε α β : Type} {f g : α → Except ε β} {xs : List α}
    (h : ∀ x ∈ xs, f x = g x) : xs.mapM f = xs.mapM g := by
  induction xs with
  | nil => rfl
  | cons x rest ih =>
    obtain ⟨hx, hrest⟩ := List.forall_mem_cons.1 h
    rw [List.mapM_cons, List.mapM_cons, hx, ih hrest]

/-- Going through a list fails as it does at the first item where it does. -/
theorem mapM_eq_error_iff {ε α β : Type} {f : α → Except ε β} {xs : List α} {e : ε} :
    xs.mapM f = .error e ↔
      ∃ before x later, xs = before ++ x :: later ∧ (∀ y ∈ before, ∃ b, f y = .ok b) ∧
        f x = .error e := by
  induction xs with
  | nil =>
    constructor
    · intro h
      cases h
    · rintro ⟨before, x, later, hsplit, -⟩
      simp at hsplit
  | cons x rest ih =>
    rw [List.mapM_cons, bind_eq_error_iff]
    constructor
    · rintro (hx | ⟨b, hb, hrest⟩)
      · exact ⟨[], x, rest, rfl, by simp, hx⟩
      · rcases bind_eq_error_iff.1 hrest with hfail | ⟨bs, -, hdone⟩
        · obtain ⟨before, stop, later, rfl, hbefore, hstop⟩ := ih.1 hfail
          refine ⟨x :: before, stop, later, rfl, ?_, hstop⟩
          exact List.forall_mem_cons.2 ⟨⟨b, hb⟩, hbefore⟩
        · cases hdone
    · rintro ⟨before, stop, later, hsplit, hbefore, hstop⟩
      cases before with
      | nil =>
        obtain ⟨rfl, -⟩ := List.cons.inj hsplit
        exact .inl hstop
      | cons first before =>
        obtain ⟨rfl, rfl⟩ := List.cons.inj hsplit
        obtain ⟨⟨b, hb⟩, hbefore⟩ := List.forall_mem_cons.1 hbefore
        have hrest := ih.2 ⟨before, stop, later, rfl, hbefore, hstop⟩
        exact .inr ⟨b, hb, bind_eq_error_iff.2 (.inl hrest)⟩

/-- Where it is known which items fail, and how, going through a list fails as the first of them. -/
theorem mapM_eq_error_iff_findSome? {ε α β : Type} {f : α → Except ε β} {fault? : α → Option ε}
    {xs : List α} (h : ∀ x ∈ xs, ∀ e, f x = .error e ↔ fault? x = some e) {e : ε} :
    xs.mapM f = .error e ↔ xs.findSome? fault? = some e := by
  induction xs with
  | nil => exact iff_of_false nofun nofun
  | cons x rest ih =>
    obtain ⟨hx, hrest⟩ := List.forall_mem_cons.1 h
    rw [List.mapM_cons, bind_eq_error_iff, hx, List.findSome?_cons]
    cases hfault : fault? x with
    | some fault =>
      refine or_iff_left fun hgiven => ?_
      obtain ⟨b, hb, -⟩ := hgiven
      rw [(hx fault).2 hfault] at hb
      cases hb
    | none =>
      cases hdone : f x with
      | error e' =>
        rw [hx, hfault] at hdone
        cases hdone
      | ok b =>
        simp only [reduceCtorEq, false_or, Except.ok.injEq, exists_eq_left',
          bind_pure_eq_error_iff, ih hrest]

end DocumentModel

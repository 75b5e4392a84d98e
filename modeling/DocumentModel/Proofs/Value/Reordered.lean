import DocumentModel.Value.Basic

/-! Values up to the order of map entries.

The entries of a map stand in an order that shows when the map is written, but that no path can
tell. `Reordered v w` says that `v` and `w` differ in nothing else, at any depth: the items of
lists stay in place. -/
namespace DocumentModel.Value

/-- Values that differ in nothing but the order of map entries, at any depth. -/
inductive Reordered : Value → Value → Prop
  | refl (v : Value) : Reordered v v
  /-- The entries of a map stand in another order. -/
  | entries {fields fields' : List (String × Value)} :
    fields.Perm fields' → Reordered (.map fields) (.map fields')
  /-- One field of a map is reordered. -/
  | field {v v' : Value} (before after : List (String × Value)) (key : String) :
    Reordered v v' →
      Reordered (.map (before ++ (key, v) :: after)) (.map (before ++ (key, v') :: after))
  /-- One item of a list is reordered. -/
  | item {v v' : Value} (before after : List Value) :
    Reordered v v' → Reordered (.list (before ++ v :: after)) (.list (before ++ v' :: after))
  | trans {u v w : Value} : Reordered u v → Reordered v w → Reordered u w

theorem Reordered.symm {v w : Value} (h : Reordered v w) : Reordered w v := by
  induction h with
  | refl v => exact .refl v
  | entries hperm => exact .entries hperm.symm
  | field before after key _ ih => exact .field before after key ih
  | item before after _ ih => exact .item before after ih
  | trans _ _ ih₁ ih₂ => exact .trans ih₂ ih₁

end DocumentModel.Value

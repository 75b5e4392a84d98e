import DocumentModel.Proofs.Merge.Combine
import DocumentModel.Query.Basic
import Mathlib.Data.List.Nodup

/-! Clauses as what is told of contributions.

A contribution is a share in one clause, and a clause tells the shares in it and no others
(`tell`): the fields of the first selection as they were given and each further field once, the
conditions combined, the sort keys one after the other, and the last counts. One more share is told
by taking it in as the program does, which merges it with what is there or, for sort keys, puts it
behind that (`tell_concat`). So one more contribution changes its clause or makes it the last one
(`clauses_concat`), and without the contributions to a clause only that clause is gone
(`erase_clauses`). -/
namespace DocumentModel.Query
open Merge (combine combineValue combineItem combineLists combineValue_none
  combineItem_of_not_isMap contains_eq_any_takes)

/-! ### Contributions -/

/-- A count that is not negative. -/
abbrev Count := {n : Int64 // 0 ≤ n}

/-- What a call can add to a clause. -/
abbrev Share : ClauseName → Type
  | .select => List String
  | .filter => Entries Value
  | .orderBy => SortDirection × List String
  | .offset | .limit => Count

/-- What a call adds to a clause, with the clause. -/
structure Contribution where
  clause : ClauseName
  share : Share clause

/-! ### Clauses -/

/-- The fields of selections: those of the first as they are, and behind them each further field
once. -/
def joined : List (List String) → List String
  | [] => []
  | first :: later => first ++ (later.flatten.filter (· ∉ first)).eraseDups

/-- Conditions combined into the first of them, in order. -/
def folded : List (Entries Value) → Entries Value
  | [] => []
  | first :: later => later.foldl combine first

/-- The sort keys of one call, each a map from a field to the direction. -/
def sortKeys (share : SortDirection × List String) : List Value :=
  share.2.map fun field => .map [(field, .string share.1.key)]

/-- What a clause tells of the contributions to it. -/
def tell : (clause : ClauseName) → List (Share clause) → Value
  | .select, selections => .list ((joined selections).map .string)
  | .filter, conditions => .map (folded conditions)
  | .orderBy, orders => .list (orders.flatMap sortKeys)
  | .offset, counts | .limit, counts => .int (counts.getLastD ⟨0, by decide⟩)

/-- The contributions to one clause, in order. -/
def shares (cs : List Contribution) (clause : ClauseName) : List (Share clause) :=
  cs.filterMap fun c => if h : c.clause = clause then some (h ▸ c.share) else none

/-- The clauses of contributions, in the order of the first contribution to each. -/
def clauses (cs : List Contribution) : Entries Value :=
  Entries.tabulate ClauseName.key (fun clause => tell clause (shares cs clause))
    (cs.map Contribution.clause).eraseDups

/-! ### One more contribution -/

variable {cs : List Contribution} {c : Contribution} {x y : ClauseName}

/-- What a clause comes to hold when a query takes a contribution in. -/
def join : (clause : ClauseName) → Option Value → Share clause → Value
  | .select, held, fields => combineValue held (.list (fields.map .string))
  | .filter, held, condition => combineValue held (.map condition)
  | .orderBy, held, order =>
    .list ((match held with | some (.list earlier) => earlier | _ => []) ++ sortKeys order)
  | .offset, held, n | .limit, held, n => combineValue held (.int n)

theorem contains_string (fields : List String) (field : String) :
    (fields.map Value.string).contains (.string field) = decide (field ∈ fields) := by
  induction fields with
  | nil => rfl
  | cons first rest ih =>
    rw [List.map_cons, List.contains_cons, ih, Bool.eq_iff_iff]
    show (field == first || decide _) = true ↔ _
    simp

/-- A field comes in for those that are told if it is not among them. -/
theorem combineItem_joined (first later : List String) (field : String) :
    combineItem ((first ++ (later.filter (· ∉ first)).eraseDups).map .string) (.string field) =
      (first ++ ((later ++ [field]).filter (· ∉ first)).eraseDups).map .string := by
  rw [combineItem_of_not_isMap rfl, ← contains_eq_any_takes rfl, contains_string, List.filter_append]
  simp only [decide_eq_true_eq, List.mem_append]
  by_cases hfirst : field ∈ first
  · have hlast : [field].filter (· ∉ first) = [] := by simp [hfirst]
    rw [if_pos (.inl hfirst), hlast, List.append_nil]
  · have hlast : [field].filter (· ∉ first) = [field] := by simp [hfirst]
    rw [hlast, Entries.eraseDups_concat]
    by_cases hlater : field ∈ (later.filter (· ∉ first)).eraseDups
    · rw [if_pos (.inr hlater), if_pos hlater]
    · rw [if_neg (not_or.2 ⟨hfirst, hlater⟩), if_neg hlater, ← List.append_assoc, List.map_append,
        List.map_append, List.map_append, List.map_singleton]

theorem combineLists_joined (first later fields : List String) :
    combineLists ((first ++ (later.filter (· ∉ first)).eraseDups).map .string)
        (fields.map .string) =
      (first ++ ((later ++ fields).filter (· ∉ first)).eraseDups).map .string := by
  induction fields generalizing later with
  | nil => rw [List.append_nil, List.map_nil, combineLists]
  | cons field rest ih =>
    rw [List.map_cons, combineLists, combineItem_joined, ih, List.append_assoc, List.singleton_append]

/-- One more contribution is told by taking it in. -/
theorem tell_concat (clause : ClauseName) (earlier : List (Share clause)) (share : Share clause) :
    tell clause (earlier ++ [share]) =
      join clause (if earlier.isEmpty then none else some (tell clause earlier)) share := by
  cases clause with
  | select =>
    cases earlier with
    | nil => simp [tell, join, joined, combineValue_none]
    | cons first later =>
      have hjoin := combineLists_joined first later.flatten share
      simpa [tell, join, joined, combineValue] using hjoin.symm
  | filter =>
    cases earlier with
    | nil => simp [tell, join, folded, combineValue_none]
    | cons first later => simp [tell, join, folded, combineValue, List.foldl_append]
  | orderBy =>
    cases earlier with
    | nil => simp [tell, join]
    | cons first later => simp [tell, join]
  | offset | limit =>
    rw [tell, join, List.getLastD_concat]
    cases earlier <;> simp [combineValue]

/-! ### The contributions to a clause -/

theorem shares_append (cs cs' : List Contribution) (x : ClauseName) :
    shares (cs ++ cs') x = shares cs x ++ shares cs' x := List.filterMap_append

theorem shares_cons_self (x : ClauseName) (share : Share x) (cs : List Contribution) :
    shares (⟨x, share⟩ :: cs) x = share :: shares cs x :=
  List.filterMap_cons_some (dif_pos rfl)

theorem shares_cons_of_ne (h : c.clause ≠ x) (cs : List Contribution) :
    shares (c :: cs) x = shares cs x :=
  List.filterMap_cons_none (dif_neg h)

/-- The contributions to a clause are there when others are taken away. -/
theorem shares_filter {p : Contribution → Bool} (hp : ∀ c, c.clause = x → p c = true)
    (cs : List Contribution) : shares (cs.filter p) x = shares cs x := by
  induction cs with
  | nil => rfl
  | cons c rest ih =>
    by_cases h : c.clause = x
    · rw [List.filter_cons_of_pos (hp c h)]
      subst h
      rw [shares_cons_self, shares_cons_self, ih]
    · rw [shares_cons_of_ne h, ← ih, List.filter_cons]
      split
      · exact shares_cons_of_ne h _
      · rfl

theorem isEmpty_shares (cs : List Contribution) (x : ClauseName) :
    (shares cs x).isEmpty = true ↔ x ∉ cs.map Contribution.clause := by
  induction cs with
  | nil => simp [shares]
  | cons c rest ih =>
    by_cases h : c.clause = x
    · subst h
      rw [shares_cons_self]
      simp
    · rw [shares_cons_of_ne h, ih]
      simp [Ne.symm h]

/-! ### The clauses of contributions -/

theorem key_inj (h : x.key = y.key) : x = y := by
  cases x <;> cases y <;> first | rfl | simp [ClauseName.key] at h

theorem get?_clauses (cs : List Contribution) (x : ClauseName) :
    (clauses cs).get? x.key =
      if x ∈ cs.map Contribution.clause then some (tell x (shares cs x)) else none := by
  rw [clauses, Entries.get?_tabulate fun _ _ h => key_inj h]
  simp only [List.mem_eraseDups]

/-- One more contribution changes its clause, or makes it the last one, and no other clause. -/
theorem clauses_concat (cs : List Contribution) (x : ClauseName) (share : Share x) :
    clauses (cs ++ [⟨x, share⟩]) =
      (clauses cs).insert x.key (join x ((clauses cs).get? x.key) share) := by
  have htold : ∀ y ∈ cs.map Contribution.clause, y.key = x.key → y = x := fun _ _ h => key_inj h
  have hheld : (clauses cs).get? x.key =
      if (shares cs x).isEmpty then none else some (tell x (shares cs x)) := by
    rw [get?_clauses]
    by_cases hmem : x ∈ cs.map Contribution.clause
    · rw [if_pos hmem, if_neg fun h => (isEmpty_shares cs x).1 h hmem]
    · rw [if_neg hmem, if_pos ((isEmpty_shares cs x).2 hmem)]
  have htell : (fun y => tell y (shares (cs ++ [⟨x, share⟩]) y)) =
      Function.update (fun y => tell y (shares cs y)) x
        (join x ((clauses cs).get? x.key) share) := by
    funext y
    rw [shares_append]
    by_cases hy : x = y
    · subst hy
      rw [Function.update_self, shares_cons_self, hheld]
      exact tell_concat x _ share
    · rw [Function.update_of_ne (Ne.symm hy), shares_cons_of_ne hy]
      exact congrArg (tell y) (List.append_nil _)
  rw [clauses, List.map_append, List.map_singleton, htell, clauses,
    Entries.insert_tabulate_eraseDups htold]

theorem nodup_keys_clauses (cs : List Contribution) : (clauses cs).keys.Nodup := by
  rw [clauses, Entries.keys_tabulate]
  exact (Entries.nodup_eraseDups _).map fun _ _ h => key_inj h

/-- Taking a clause away is taking the contributions to it away. -/
theorem erase_clauses (cs : List Contribution) (x : ClauseName) :
    (clauses cs).erase x.key = clauses (cs.filter (·.clause ≠ x)) := by
  have hindices : ((cs.filter (·.clause ≠ x)).map Contribution.clause).eraseDups =
      (cs.map Contribution.clause).eraseDups.filter (· ≠ x) := by
    rw [← Entries.eraseDups_filter, List.filter_map]
    rfl
  rw [Entries.erase_eq_filter (nodup_keys_clauses cs), clauses, clauses, hindices,
    Entries.filter_tabulate fun _ _ h => key_inj h]
  refine List.map_congr_left fun y hy => ?_
  have hne : y ≠ x := of_decide_eq_true (List.mem_filter.1 hy).2
  show (y.key, tell y (shares cs y)) = (y.key, tell y (shares (cs.filter (·.clause ≠ x)) y))
  rw [shares_filter fun c hc => decide_eq_true (hc ▸ hne)]

end DocumentModel.Query

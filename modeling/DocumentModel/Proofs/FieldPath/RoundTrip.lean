import DocumentModel.FieldPath.Parser
import DocumentModel.Proofs.Text.Padded
import DocumentModel.Proofs.Text.Trim

/-! Field paths, written and read back.

A segment is `Legible` if its text reads back: every index is, and every name that is bare or
misses one of the two quotes. The parser makes legible segments only (`legible_of_parse`), and
a path of legible segments is what its text parses to (`parse_toText`). So two texts that
parse have one canonical text only if they parse to one path: `toText_inj_of_parse`. A path
with a segment that is not legible never reads back, not even by accident, since the parser
could not have made it: `parse_toText_iff`. -/
namespace DocumentModel.FieldPath
open Text (isBlank skipBlanks trim)

/-! ### Runs up to a character -/

theorem takeWhile_ne_append {c : Char} {run : List Char} (h : c ∉ run) (after : List Char) :
    (run ++ c :: after).takeWhile (· != c) = run := by
  rw [List.takeWhile_append_of_pos (by grind)]
  simp

theorem dropWhile_ne_append {c : Char} {run : List Char} (h : c ∉ run) (after : List Char) :
    (run ++ c :: after).dropWhile (· != c) = c :: after := by
  rw [List.dropWhile_append_of_pos (by grind)]
  simp

theorem not_mem_takeWhile_ne (c : Char) (cs : List Char) : c ∉ cs.takeWhile (· != c) := by
  intro h
  simpa using List.mem_takeWhile_imp h

/-! ### Classes of characters -/

theorem isQuote_iff {c : Char} : isQuote c = true ↔ c = '"' ∨ c = '\'' := by
  simp [isQuote]

theorem isQuote_eq_false_iff {c : Char} : isQuote c = false ↔ c ≠ '"' ∧ c ≠ '\'' := by
  simp [isQuote]

theorem isDelimiter_iff {c : Char} : isDelimiter c = true ↔ c = '.' ∨ c = '[' ∨ c = ']' := by
  simp [isDelimiter, or_assoc]

theorem isDelimiter_eq_false_iff {c : Char} :
    isDelimiter c = false ↔ c ≠ '.' ∧ c ≠ '[' ∧ c ≠ ']' := by
  simp [isDelimiter, and_assoc]

/-! ### One segment, read -/

theorem segmentsFrom_separator (done : List Segment) {c : Char}
    (h : c = '.' ∨ isBlank c = true) (rest : List Char) :
    segmentsFrom done (c :: rest) = segmentsFrom done rest := by
  rw [segmentsFrom, if_pos (by simpa using h)]

theorem segmentsFrom_index (done : List Segment) {content : List Char} {position : UInt64}
    (hrun : ']' ∉ content) (hpos : position? (trim content) = some position)
    (after : List Char) :
    segmentsFrom done ('[' :: content ++ ']' :: after) =
      segmentsFrom (.index position :: done) after := by
  rw [List.cons_append, segmentsFrom, if_neg (by decide), if_pos rfl]
  split
  · simp [dropWhile_ne_append hrun] at *
  · rename_i hdrop
    rw [dropWhile_ne_append hrun] at hdrop
    cases hdrop
    simp only [takeWhile_ne_append hrun, hpos]

theorem segmentsFrom_quoted (done : List Segment) {q : Char} (hq : isQuote q = true)
    {name : List Char} (hrun : q ∉ name) {after : List Char}
    (hafter : mayFollowQuote (skipBlanks after) = true) :
    segmentsFrom done (q :: name ++ q :: after) =
      segmentsFrom (.name (String.ofList name) :: done) (skipBlanks after) := by
  have hkind : q = '"' ∨ q = '\'' := by simpa [isQuote] using hq
  rw [List.cons_append, segmentsFrom, if_neg (by rcases hkind with rfl | rfl <;> decide),
    if_neg (by rcases hkind with rfl | rfl <;> decide),
    if_neg (by rcases hkind with rfl | rfl <;> decide), if_pos hq]
  split
  · simp [dropWhile_ne_append hrun] at *
  · rename_i hdrop
    rw [dropWhile_ne_append hrun] at hdrop
    cases hdrop
    simp only [takeWhile_ne_append hrun, hafter, if_true]

/-- Whether a name without quotes ends in front of a text. -/
def EndsName : List Char → Prop
  | [] => True
  | c :: _ => isDelimiter c = true

theorem segmentsFrom_bare (done : List Segment) {c : Char} {run after : List Char}
    (hblank : isBlank c = false) (hquote : isQuote c = false)
    (hrun : ∀ d ∈ c :: run, isDelimiter d = false) (hafter : EndsName after) :
    segmentsFrom done (c :: run ++ after) =
      segmentsFrom (.name (String.ofList (trim (c :: run))) :: done) after := by
  have hc : c ≠ '.' ∧ c ≠ '[' ∧ c ≠ ']' := by simpa [isDelimiter, and_assoc] using hrun c
  have htail : ∀ d ∈ run, (!isDelimiter d) = true := by
    intro d hd
    simp [hrun d (List.mem_cons_of_mem c hd)]
  have htake : (run ++ after).takeWhile (fun d => !isDelimiter d) = run := by
    rw [List.takeWhile_append_of_pos htail]
    cases after with
    | nil => simp
    | cons d after => simp [show isDelimiter d = true from hafter]
  have hdrop : (run ++ after).dropWhile (fun d => !isDelimiter d) = after := by
    rw [List.dropWhile_append_of_pos htail]
    cases after with
    | nil => rfl
    | cons d after => simp [show isDelimiter d = true from hafter]
  rw [List.cons_append, segmentsFrom, if_neg (by simp [hc, hblank]), if_neg hc.2.1,
    if_neg hc.2.2, if_neg (by simp [hquote]), htake, hdrop]

/-! ### Positions -/

theorem all_isDigit_toDigits (n : Nat) : (Nat.toDigits 10 n).all Char.isDigit = true := by
  rw [List.all_eq_true]
  intro c hc
  exact Nat.isDigit_of_mem_toDigits (by decide) (by decide) hc

/-- The digits of a position stand for it. -/
theorem position?_toDigits (position : UInt64) :
    position? (Nat.toDigits 10 position.toNat) = some position := by
  rw [position?, if_pos ⟨Nat.toDigits_ne_nil, all_isDigit_toDigits _⟩]
  simp only [Text.numeral_toDigits, if_pos position.toNat_lt_size, UInt64.ofNat_toNat]

/-! ### Legible segments -/

/-- Whether the text of a segment reads back. A name needs a quote that it does not hold,
unless it stands bare. -/
def Legible : Segment → Prop
  | .index _ => True
  | .name key => isBare key.toList = true ∨ '"' ∉ key.toList ∨ '\'' ∉ key.toList

theorem isBare_cons_iff (c : Char) (run : List Char) :
    isBare (c :: run) = true ↔ trim (c :: run) = c :: run ∧ isQuote c = false ∧
      ∀ d ∈ c :: run, isDelimiter d = false := by
  simp [isBare, and_assoc]

theorem skipBlanks_of_mayFollowQuote {after : List Char} (h : mayFollowQuote after = true) :
    skipBlanks after = after := by
  cases after with
  | nil => rfl
  | cons c after =>
    have hc : c = '.' ∨ c = '[' := by simpa [mayFollowQuote] using h
    rcases hc with rfl | rfl <;> exact Text.skipBlanks_cons (by decide) after

theorem endsName_of_mayFollowQuote {after : List Char} (h : mayFollowQuote after = true) :
    EndsName after := by
  cases after with
  | nil => trivial
  | cons c after =>
    have hc : c = '.' ∨ c = '[' := by simpa [mayFollowQuote] using h
    rcases hc with rfl | rfl <;> rfl

/-- A quoted name reads back, whatever it holds beside its quote. -/
theorem segmentsFrom_quoted_key (done : List Segment) {q : Char} (hq : isQuote q = true)
    {key : String} (hrun : q ∉ key.toList) {after : List Char}
    (hafter : mayFollowQuote after = true) :
    segmentsFrom done (q :: key.toList ++ [q] ++ after) =
      segmentsFrom (.name key :: done) after := by
  have hskip := skipBlanks_of_mayFollowQuote hafter
  rw [List.append_assoc]
  show segmentsFrom done (q :: key.toList ++ q :: after) = _
  rw [segmentsFrom_quoted done hq hrun (by rw [hskip]; exact hafter), hskip,
    String.ofList_toList]

theorem segmentsFrom_index_digits (done : List Segment) (position : UInt64)
    (after : List Char) :
    segmentsFrom done ((Segment.index position).chars ++ after) =
      segmentsFrom (.index position :: done) after := by
  have hrun : ']' ∉ Nat.toDigits 10 position.toNat := by
    intro h
    exact absurd (List.all_eq_true.1 (all_isDigit_toDigits position.toNat) _ h) (by decide)
  have htrim : trim (Nat.toDigits 10 position.toNat) = Nat.toDigits 10 position.toNat := by
    refine Text.trim_of_no_blank fun c hc => Text.isBlank_of_isDigit ?_
    exact List.all_eq_true.1 (all_isDigit_toDigits position.toNat) c hc
  have hread := segmentsFrom_index done hrun (by rw [htrim, position?_toDigits]) after
  simpa [Segment.chars] using hread

/-- The text of a legible segment is read as the segment, wherever a name may end after
it. -/
theorem segmentsFrom_chars (done : List Segment) {s : Segment} (h : Legible s)
    {after : List Char} (hafter : mayFollowQuote after = true) :
    segmentsFrom done (s.chars ++ after) = segmentsFrom (s :: done) after := by
  cases s with
  | index position => exact segmentsFrom_index_digits done position after
  | name key =>
    simp only [Segment.chars]
    by_cases hbare : isBare key.toList = true
    · rw [if_pos hbare]
      cases hkey : key.toList with
      | nil => rw [hkey] at hbare; cases hbare
      | cons c run =>
        rw [hkey, isBare_cons_iff] at hbare
        obtain ⟨htrim, hquote, hrun⟩ := hbare
        rw [segmentsFrom_bare done (Text.isBlank_of_trim_cons htrim) hquote hrun
          (endsName_of_mayFollowQuote hafter), htrim, ← hkey, String.ofList_toList]
    · rw [if_neg hbare]
      by_cases hdouble : '"' ∈ key.toList
      · rw [if_pos (by simpa using hdouble)]
        have hsingle : '\'' ∉ key.toList := by
          rcases h with h | h | h
          · exact absurd h hbare
          · exact absurd hdouble h
          · exact h
        exact segmentsFrom_quoted_key done rfl hsingle hafter
      · rw [if_neg (by simpa using hdouble)]
        exact segmentsFrom_quoted_key done rfl hdouble hafter

/-! ### Paths, written and read back -/

theorem mayFollowQuote_laterChars (rest : List Segment) :
    mayFollowQuote (rest.flatMap Segment.laterChars) = true := by
  cases rest with
  | nil => rfl
  | cons s rest => cases s <;> rfl

/-- The segments after the first, told with their points, are read in order. -/
theorem segmentsFrom_laterChars (done : List Segment) {rest : List Segment}
    (h : ∀ s ∈ rest, Legible s) :
    segmentsFrom done (rest.flatMap Segment.laterChars) = .ok (done.reverse ++ rest) := by
  induction rest generalizing done with
  | nil => rw [List.flatMap_nil, segmentsFrom, List.append_nil]
  | cons s rest ih =>
    have hs := segmentsFrom_chars done (h s (List.mem_cons_self ..))
      (mayFollowQuote_laterChars rest)
    have htail := ih (s :: done) fun t ht => h t (List.mem_cons_of_mem s ht)
    rw [List.reverse_cons, List.append_assoc] at htail
    rw [List.flatMap_cons]
    cases s with
    | index position => exact hs.trans htail
    | name key =>
      show segmentsFrom done ('.' :: ((Segment.name key).chars ++ _)) = _
      rw [segmentsFrom_separator done (.inl rfl)]
      exact hs.trans htail

/-- A path of legible segments is what its text parses to. -/
theorem parse_toText {p : FieldPath} (h : ∀ s ∈ p.segments, Legible s) :
    parse p.toText = .ok p := by
  have hread : segmentsFrom [] p.chars = .ok p.segments := by
    rw [chars]
    cases hp : p.segments with
    | nil => rw [segmentsFrom]; rfl
    | cons first rest =>
      rw [hp] at h
      show segmentsFrom [] (first.chars ++ rest.flatMap Segment.laterChars) = _
      rw [segmentsFrom_chars [] (h first (List.mem_cons_self ..)) (mayFollowQuote_laterChars rest),
        segmentsFrom_laterChars _ fun s hs => h s (List.mem_cons_of_mem first hs)]
      rfl
  rw [parse, segments?, toText, String.toList_ofList, hread]

/-! ### What the parser makes -/

/-- A name that stands without quotes is legible. -/
theorem legible_bare {c : Char} {run : List Char} (hblank : isBlank c = false)
    (hquote : isQuote c = false) (hrun : ∀ d ∈ c :: run, isDelimiter d = false) :
    Legible (.name (String.ofList (trim (c :: run)))) := by
  obtain ⟨kept, htrim, hkept⟩ := Text.trim_cons hblank run
  refine .inl ?_
  rw [String.toList_ofList, htrim, isBare_cons_iff, ← htrim, Text.trim_trim]
  refine ⟨rfl, hquote, fun d hd => hrun d ?_⟩
  rw [htrim] at hd
  exact (List.cons_prefix_cons.2 ⟨rfl, hkept⟩).subset hd

theorem legible_quoted {q : Char} (hq : isQuote q = true) (rest : List Char) :
    Legible (.name (String.ofList (rest.takeWhile (· != q)))) := by
  have hkind : q = '"' ∨ q = '\'' := by simpa [isQuote] using hq
  rw [Legible, String.toList_ofList]
  rcases hkind with rfl | rfl
  · exact .inr (.inl (not_mem_takeWhile_ne _ rest))
  · exact .inr (.inr (not_mem_takeWhile_ne _ rest))

/-- The parser makes legible segments only. -/
theorem legible_of_segmentsFrom {done : List Segment} {cs : List Char} {segments : List Segment}
    (hdone : ∀ s ∈ done, Legible s) (h : segmentsFrom done cs = .ok segments) :
    ∀ s ∈ segments, Legible s := by
  have hcons : ∀ {done : List Segment} {s : Segment}, Legible s →
      (∀ t ∈ done, Legible t) → ∀ t ∈ s :: done, Legible t := by
    intro done s hs hdone t ht
    rcases List.mem_cons.1 ht with rfl | ht
    · exact hs
    · exact hdone t ht
  fun_induction segmentsFrom done cs with
  | case1 done =>
    cases h
    simpa using hdone
  | case2 done c rest hsep ih => exact ih hdone h
  | case4 done rest bracket after hdrop content hlt position hpos hsep ih =>
    exact ih (hcons trivial hdone) h
  | case8 done q rest hsep hopen hclose hq quote after hdrop hlt hafter ih =>
    exact ih (hcons (legible_quoted hq rest) hdone) h
  | case10 done c rest hsep hopen hclose hq hle ih =>
    have hc : c ≠ '.' ∧ isBlank c = false := by simpa using hsep
    refine ih (hcons (legible_bare hc.2 (by simpa using hq) fun d hd => ?_) hdone) h
    rcases List.mem_cons.1 hd with rfl | hd
    · simp [isDelimiter, hc.1, hopen, hclose]
    · simpa using List.mem_takeWhile_imp hd
  -- an unclosed or misplaced bracket or quote gives no segments
  | case3 | case5 | case6 | case7 | case9 => cases h

theorem legible_of_parse {text : String} {p : FieldPath} (h : parse text = .ok p) :
    ∀ s ∈ p.segments, Legible s := by
  have hread : segmentsFrom [] text.toList = .ok p.segments := by
    rw [parse, segments?] at h
    cases hs : segmentsFrom [] text.toList with
    | ok segments =>
      rw [hs] at h
      cases h
      rfl
    | error fault => rw [hs] at h; cases h
  exact legible_of_segmentsFrom (by simp) hread

/-- A parsed path is what its canonical text parses to. -/
theorem parse_toText_of_parse {text : String} {p : FieldPath} (h : parse text = .ok p) :
    parse p.toText = .ok p :=
  parse_toText (legible_of_parse h)

/-- Two texts that parse have one canonical text only if they are texts of one path. -/
theorem toText_inj_of_parse {s t : String} {p q : FieldPath} (hp : parse s = .ok p)
    (hq : parse t = .ok q) : p.toText = q.toText ↔ p = q := by
  constructor
  · intro h
    have heq := parse_toText_of_parse hp
    rw [h, parse_toText_of_parse hq] at heq
    cases heq
    rfl
  · intro heq
    subst heq
    rfl

/-! ### Names that read back -/

/-- Whether a name has a text that reads back. It stands bare, if there are no blanks around it,
no quote in front of it and no point or bracket in it; otherwise it needs a quote that it does
not hold. -/
def Tellable (name : List Char) : Prop :=
  (name ≠ [] ∧ trim name = name ∧ (∀ c, name.head? = some c → c ≠ '"' ∧ c ≠ '\'') ∧
    ∀ c ∈ name, c ≠ '.' ∧ c ≠ '[' ∧ c ≠ ']') ∨
  '"' ∉ name ∨ '\'' ∉ name

theorem legible_name_iff (key : String) : Legible (.name key) ↔ Tellable key.toList := by
  rw [Legible, Tellable]
  cases key.toList with
  | nil => simp [isBare]
  | cons c run =>
    simp [isBare_cons_iff, isQuote_eq_false_iff, isDelimiter_eq_false_iff]

theorem forall_legible_iff (segments : List Segment) :
    (∀ s ∈ segments, Legible s) ↔ ∀ key, .name key ∈ segments → Tellable key.toList := by
  constructor
  · intro h key hmem
    exact (legible_name_iff key).1 (h _ hmem)
  · intro h s hmem
    cases s with
    | index position => trivial
    | name key => exact (legible_name_iff key).2 (h key hmem)

/-- **A path is what its canonical text parses to if and only if each of its names is bare or
misses one of the two quotes.** Whatever parses is such a path, so that parsing its canonical
text gives it back, and texts with one canonical text are texts of one path. -/
theorem parse_toText_iff :
    (∀ segments : List Segment, parse (toText ⟨segments⟩) = .ok ⟨segments⟩ ↔
      ∀ key, .name key ∈ segments → Tellable key.toList) ∧
    (∀ (text : String) (p : FieldPath), parse text = .ok p →
      (∀ key, .name key ∈ p.segments → Tellable key.toList) ∧ parse p.toText = .ok p) ∧
    ∀ (s t : String) (p q : FieldPath), parse s = .ok p → parse t = .ok q →
      p.toText = q.toText → p = q := by
  refine ⟨fun segments => ?_, fun text p h => ?_, fun s t p q hp hq h => ?_⟩
  · rw [← forall_legible_iff]
    exact ⟨legible_of_parse, parse_toText⟩
  · exact ⟨(forall_legible_iff _).1 (legible_of_parse h), parse_toText_of_parse h⟩
  · exact (toText_inj_of_parse hp hq).1 h

/-- A name with both quotes reads back where it stands bare, and with a point in it it does
not. Two texts of one path have one canonical text. -/
theorem parse_toText_iff_bothQuotes :
    parse (toText ⟨[.name "it's \"so\"", .index 7, .name ""]⟩) =
      .ok ⟨[.name "it's \"so\"", .index 7, .name ""]⟩ ∧
    parse (toText ⟨[.name "it's.\"so\""]⟩) ≠ .ok ⟨[.name "it's.\"so\""]⟩ ∧
    parse " .b.'c.d'" = .ok ⟨[.name "b", .name "c.d"]⟩ ∧
    parse (toText ⟨[.name "b", .name "c.d"]⟩) = .ok ⟨[.name "b", .name "c.d"]⟩ ∧
    ∀ q, parse "'b'.\"c.d\"" = .ok q → q.toText = toText ⟨[.name "b", .name "c.d"]⟩ →
      q = ⟨[.name "b", .name "c.d"]⟩ := by
  have hparse : parse " .b.'c.d'" = .ok ⟨[.name "b", .name "c.d"]⟩ := by cbv
  refine ⟨?_, ?_, hparse, (parse_toText_iff.2.1 _ _ hparse).2, fun q hq h =>
    parse_toText_iff.2.2 _ _ _ _ hq hparse h⟩
  · refine (parse_toText_iff.1 _).2 fun key hmem => ?_
    have hkey : key = "it's \"so\"" ∨ key = "" := by simpa using hmem
    rcases hkey with rfl | rfl
    · exact .inl ⟨by simp, rfl, by simp, by simp⟩
    · exact .inr (.inl (by simp))
  · intro h
    have hname := (parse_toText_iff.1 _).1 h "it's.\"so\"" (by simp)
    simp [Tellable] at hname

end DocumentModel.FieldPath

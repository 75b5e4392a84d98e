import DocumentModel.Proofs.FieldPath.RoundTrip

/-! The grammar of field paths.

A text is a field path if it splits, from left to right, into items: points and blanks, which
separate; a position in brackets; a name in quotes with a separator or the end behind it; and a
name without quotes, which goes on as far as it can. `Item` says what an item is in front of
the text that follows it, and `Splits` puts items one after the other. The parser knows nothing
of items. Still it accepts exactly the texts that split, with the segments of their items, and
every other text is a malformed path: `parse_iff_splits`. -/
namespace DocumentModel.FieldPath
open Text (isBlank skipBlanks trim numeral)

/-! ### Items -/

/-- An item of a path, in front of the text that follows it, with the segments that it
gives. -/
inductive Item (following : List Char) : List Char → List Segment → Prop
  /-- A point or a blank gives no segment. -/
  | separator {c : Char} : c = '.' ∨ isBlank c = true → Item following [c] []
  /-- Decimal digits in brackets, with blanks around them, are a position if a word can hold
  their number. -/
  | position {content : List Char} :
    ']' ∉ content → trim content ≠ [] → (∀ d ∈ trim content, d.isDigit = true) →
      numeral (trim content) < UInt64.size →
      Item following ('[' :: content ++ [']']) [.index (.ofNat (numeral (trim content)))]
  /-- A name goes on to the quote that opened it. Behind it and its blanks the text ends, or a
  point or a bracket follows. -/
  | quoted {q : Char} {name : List Char} :
    q = '"' ∨ q = '\'' → q ∉ name →
      (∀ c, (skipBlanks following).head? = some c → c = '.' ∨ c = '[') →
      Item following (q :: name ++ [q]) [.name (String.ofList name)]
  /-- A name without quotes goes on to the end or to the next point or bracket, and loses the
  blanks at its end. -/
  | bare {c : Char} {run : List Char} :
    isBlank c = false → c ≠ '"' ∧ c ≠ '\'' → (∀ d ∈ c :: run, d ≠ '.' ∧ d ≠ '[' ∧ d ≠ ']') →
      (∀ d, following.head? = some d → d = '.' ∨ d = '[' ∨ d = ']') →
      Item following (c :: run) [.name (String.ofList (trim (c :: run)))]

/-- A text that splits into items, with the segments of all of them in order. -/
inductive Splits : List Char → List Segment → Prop
  | done : Splits [] []
  | item {text following : List Char} {found rest : List Segment} :
    Item following text found → Splits following rest → Splits (text ++ following) (found ++ rest)

/-! ### What may stand where -/

theorem mayFollowQuote_iff {after : List Char} :
    mayFollowQuote after = true ↔ ∀ c, after.head? = some c → c = '.' ∨ c = '[' := by
  cases after <;> simp [mayFollowQuote]

theorem endsName_iff {after : List Char} :
    EndsName after ↔ ∀ d, after.head? = some d → d = '.' ∨ d = '[' ∨ d = ']' := by
  cases after <;> simp [EndsName, isDelimiter_iff]

theorem position?_eq_some_iff {digits : List Char} {position : UInt64} :
    position? digits = some position ↔
      digits ≠ [] ∧ (∀ d ∈ digits, d.isDigit = true) ∧ numeral digits < UInt64.size ∧
        position = .ofNat (numeral digits) := by
  by_cases hdigits : digits ≠ [] ∧ digits.all Char.isDigit = true
  · have hall : ∀ d ∈ digits, d.isDigit = true := List.all_eq_true.1 hdigits.2
    by_cases hlt : numeral digits < UInt64.size
    · simp only [position?, if_pos hdigits, if_pos hlt, Option.some.injEq]
      grind
    · simp only [position?, if_pos hdigits, if_neg hlt]
      grind
  · simp only [position?, if_neg hdigits]
    grind

/-! ### What splits is parsed -/

/-- Blanks change nothing. -/
theorem segmentsFrom_skipBlanks (done : List Segment) (cs : List Char) :
    segmentsFrom done (skipBlanks cs) = segmentsFrom done cs := by
  induction cs with
  | nil => rfl
  | cons c rest ih =>
    cases hblank : isBlank c with
    | true =>
      rw [segmentsFrom_separator done (.inr hblank), ← ih, skipBlanks,
        List.dropWhile_cons_of_pos hblank]
      rfl
    | false => rw [Text.skipBlanks_cons hblank]

/-- An item is read as its segments, and the parser goes on with what follows. -/
theorem segmentsFrom_item (done : List Segment) {text following : List Char}
    {found : List Segment} (h : Item following text found) :
    segmentsFrom done (text ++ following) = segmentsFrom (found.reverse ++ done) following := by
  cases h with
  | separator hsep => exact segmentsFrom_separator done hsep following
  | position hrun hne hdigits hlt =>
    rw [List.append_assoc, List.singleton_append]
    exact segmentsFrom_index done hrun (position?_eq_some_iff.2 ⟨hne, hdigits, hlt, rfl⟩) following
  | quoted hquote hrun hafter =>
    rw [List.append_assoc, List.singleton_append,
      segmentsFrom_quoted done (isQuote_iff.2 hquote) hrun (mayFollowQuote_iff.2 hafter),
      segmentsFrom_skipBlanks]
    rfl
  | bare hblank hquote hrun hafter =>
    exact segmentsFrom_bare done hblank (isQuote_eq_false_iff.2 hquote)
      (fun d hd => isDelimiter_eq_false_iff.2 (hrun d hd)) (endsName_iff.2 hafter)

/-- A text that splits is read as the segments of its items. -/
theorem segmentsFrom_of_splits {cs : List Char} {segments : List Segment}
    (h : Splits cs segments) (done : List Segment) :
    segmentsFrom done cs = .ok (done.reverse ++ segments) := by
  induction h generalizing done with
  | done => rw [segmentsFrom, List.append_nil]
  | item hitem _ ih =>
    rw [segmentsFrom_item done hitem, ih, List.reverse_append, List.reverse_reverse,
      List.append_assoc]

/-! ### What is parsed splits -/

theorem splits_of_skipBlanks {cs : List Char} {segments : List Segment}
    (h : Splits (skipBlanks cs) segments) : Splits cs segments := by
  induction cs with
  | nil => exact h
  | cons c rest ih =>
    cases hblank : isBlank c with
    | true =>
      rw [skipBlanks, List.dropWhile_cons_of_pos hblank] at h
      exact .item (.separator (.inr hblank)) (ih h)
    | false => rwa [Text.skipBlanks_cons hblank] at h

/-- A run up to a character that is found, the character, and what is behind it. -/
theorem eq_of_dropWhile_ne {c d : Char} {cs after : List Char}
    (h : cs.dropWhile (· != c) = d :: after) :
    cs = cs.takeWhile (· != c) ++ [c] ++ after := by
  have hd : d = c := by
    have hhead := List.head?_dropWhile_not (· != c) cs
    rw [h] at hhead
    simpa using hhead
  calc cs = cs.takeWhile (· != c) ++ cs.dropWhile (· != c) := List.takeWhile_append_dropWhile.symm
    _ = cs.takeWhile (· != c) ++ [c] ++ after := by
      rw [h, hd, List.append_assoc, List.singleton_append]

/-- An item with one segment goes in front of what splits. -/
theorem Splits.cons_segment {done segments : List Segment} {s : Segment}
    {text following : List Char} (hitem : Item following text [s])
    (h : ∃ found, segments = (s :: done).reverse ++ found ∧ Splits following found) :
    ∃ found, segments = done.reverse ++ found ∧ Splits (text ++ following) found := by
  obtain ⟨found, hfound, hsplits⟩ := h
  exact ⟨s :: found, by simpa using hfound, .item hitem hsplits⟩

/-- What the parser makes of a text are the segments of items that the text splits into. The
induction follows the parser, one item a step. -/
theorem splits_of_segmentsFrom {done : List Segment} {cs : List Char} {segments : List Segment}
    (h : segmentsFrom done cs = .ok segments) :
    ∃ found, segments = done.reverse ++ found ∧ Splits cs found := by
  fun_induction segmentsFrom done cs with
  | case1 done =>
    cases h
    exact ⟨[], (List.append_nil _).symm, .done⟩
  | case2 done c rest hsep ih =>
    obtain ⟨found, hfound, hsplits⟩ := ih h
    exact ⟨found, hfound, .item (.separator (by simpa using hsep)) hsplits⟩
  | case4 done rest bracket after hdrop content hlt position hpos hsep ih =>
    obtain ⟨hne, hdigits, hsize, rfl⟩ := position?_eq_some_iff.1 hpos
    have hitem : Item after ('[' :: content ++ [']']) _ :=
      .position (not_mem_takeWhile_ne _ rest) hne hdigits hsize
    rw [eq_of_dropWhile_ne hdrop]
    exact Splits.cons_segment hitem (ih h)
  | case8 done q rest hsep hopen hclose hq quote after hdrop hlt hafter ih =>
    have hitem : Item after (q :: rest.takeWhile (· != q) ++ [q]) _ :=
      .quoted (isQuote_iff.1 hq) (not_mem_takeWhile_ne _ rest) (mayFollowQuote_iff.1 hafter)
    obtain ⟨found, hfound, hsplits⟩ := ih h
    rw [eq_of_dropWhile_ne hdrop]
    exact Splits.cons_segment hitem ⟨found, hfound, splits_of_skipBlanks hsplits⟩
  | case10 done c rest hsep hopen hclose hq hle ih =>
    have hc : c ≠ '.' ∧ isBlank c = false := by simpa using hsep
    have hrun : ∀ d ∈ c :: rest.takeWhile fun d => !isDelimiter d,
        d ≠ '.' ∧ d ≠ '[' ∧ d ≠ ']' := by
      intro d hd
      rcases List.mem_cons.1 hd with rfl | hd
      · exact ⟨hc.1, hopen, hclose⟩
      · exact isDelimiter_eq_false_iff.1 (by simpa using List.mem_takeWhile_imp hd)
    have hend : ∀ d, (rest.dropWhile fun d => !isDelimiter d).head? = some d →
        d = '.' ∨ d = '[' ∨ d = ']' := by
      intro d hd
      have hhead := List.head?_dropWhile_not (fun d => !isDelimiter d) rest
      rw [hd] at hhead
      exact isDelimiter_iff.1 (by simpa using hhead)
    have hitem := Item.bare hc.2 (isQuote_eq_false_iff.1 (by simpa using hq)) hrun hend
    have htext : c :: rest = (c :: rest.takeWhile fun d => !isDelimiter d) ++
        rest.dropWhile fun d => !isDelimiter d := by
      rw [List.cons_append, List.takeWhile_append_dropWhile]
    rw [htext]
    exact Splits.cons_segment hitem (ih h)
  -- an unclosed or misplaced bracket or quote gives no segments
  | case3 | case5 | case6 | case7 | case9 => cases h

theorem segments?_eq_ok_iff {text : String} {segments : List Segment} :
    segments? text = .ok segments ↔ Splits text.toList segments := by
  constructor
  · intro h
    obtain ⟨found, rfl, hsplits⟩ := splits_of_segmentsFrom h
    exact hsplits
  · intro h
    exact segmentsFrom_of_splits h []

/-! ### Texts without segments -/

/-- A text splits into separators alone exactly if it is made of points and blanks. -/
theorem splits_nil_iff {cs : List Char} :
    Splits cs [] ↔ ∀ c ∈ cs, c = '.' ∨ isBlank c = true := by
  constructor
  · intro h
    generalize hnone : ([] : List Segment) = segments at h
    induction h with
    | done => simp
    | item hitem _ ih =>
      obtain ⟨hfound, hrest⟩ := List.append_eq_nil_iff.1 hnone.symm
      cases hitem with
      | separator hsep => exact List.forall_mem_cons.2 ⟨hsep, ih hrest.symm⟩
      | position | quoted | bare => cases hfound
  · intro h
    induction cs with
    | nil => exact .done
    | cons c rest ih =>
      obtain ⟨hc, hrest⟩ := List.forall_mem_cons.1 h
      exact .item (.separator hc) (ih hrest)

/-! ### The parser and the grammar -/

/-- A text is a path, or it is refused with an error about a malformed path. -/
theorem parse_cases (text : String) :
    (∃ segments, segments? text = .ok segments ∧ parse text = .ok ⟨segments⟩) ∨
      ∃ fault, segments? text = .error fault ∧ parse text = .error (malformed text fault.message) := by
  cases h : segments? text with
  | ok segments => exact .inl ⟨segments, rfl, by rw [parse, h]⟩
  | error fault => exact .inr ⟨fault, rfl, by rw [parse, h]⟩

theorem kind_of_parse_error {text : String} {e : Error} (h : parse text = .error e) :
    e.kind = .malformedPath := by
  rcases parse_cases text with ⟨segments, -, hparse⟩ | ⟨fault, -, hparse⟩
  · rw [hparse] at h
    cases h
  · rw [hparse] at h
    cases h
    rfl

theorem parse_eq_ok_iff {text : String} {segments : List Segment} :
    parse text = .ok ⟨segments⟩ ↔ Splits text.toList segments := by
  rw [← segments?_eq_ok_iff]
  rcases parse_cases text with ⟨found, hfound, hparse⟩ | ⟨fault, hfault, hparse⟩
  · rw [hparse, hfound, Except.ok.injEq, Except.ok.injEq, FieldPath.mk.injEq]
  · rw [hparse, hfault]
    exact iff_of_false nofun nofun

/-- **The parser accepts exactly what the grammar says.** A text parses to segments if and only
if it splits into items that give these segments in order, and it is refused as a malformed
path if and only if it does not split at all. It is the empty path if and only if it is made of
points and blanks. -/
theorem parse_iff_splits (text : String) :
    (∀ segments, parse text = .ok ⟨segments⟩ ↔ Splits text.toList segments) ∧
    ((∃ e, parse text = .error e ∧ e.kind = .malformedPath) ↔
      ¬ ∃ segments, Splits text.toList segments) ∧
    (parse text = .ok ⟨[]⟩ ↔ ∀ c ∈ text.toList, c = '.' ∨ isBlank c = true) := by
  refine ⟨fun segments => parse_eq_ok_iff, ?_, parse_eq_ok_iff.trans splits_nil_iff⟩
  simp only [← parse_eq_ok_iff]
  rcases parse_cases text with ⟨found, -, hparse⟩ | ⟨fault, -, hparse⟩
  · simp [hparse]
  · simp [hparse, malformed, Error.kind]

end DocumentModel.FieldPath

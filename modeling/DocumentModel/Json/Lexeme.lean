import DocumentModel.Json.Number

/-! The lexemes of JSON text.

`lexemes` cuts a text into punctuation, words, numbers and strings, without the blanks
between them. Where the text is none of these, a last lexeme `bad` stands for all that is
left, so that what comes before it can still be read.

The content of a string is a list of `Piece`s: characters, and sixteen-bit units from
numeric escapes, of which two may be needed for one character. -/
namespace DocumentModel.Json

/-- A part of a string. -/
inductive Piece
  | char (c : Char)
  /-- A sixteen-bit unit, from an escape of four hexadecimal digits. -/
  | unit (n : Nat)

/-- A lexeme of JSON text. -/
inductive Lexeme
  | openArray
  | closeArray
  | openObject
  | closeObject
  | comma
  | colon
  | null
  | bool (b : Bool)
  | number (literal : NumberLiteral)
  | text (pieces : List Piece)
  /-- What cannot be cut into lexemes. -/
  | bad

/-! ### Strings -/

/-- The value of four hexadecimal digits. -/
def unit? (digits : List Char) : Option Nat :=
  digits.foldlM (fun n d =>
    if d.isDigit then some (16 * n + (d.toNat - '0'.toNat))
    else if 'a' ≤ d ∧ d ≤ 'f' then some (16 * n + (d.toNat - 'a'.toNat + 10))
    else if 'A' ≤ d ∧ d ≤ 'F' then some (16 * n + (d.toNat - 'A'.toNat + 10))
    else none) 0

/-- The character that a letter or sign after a backslash stands for. -/
def escaped? : Char → Option Char
  | '"' => some '"'
  | '\\' => some '\\'
  | '/' => some '/'
  | 'b' => some '\x08'
  | 'f' => some '\x0c'
  | 'n' => some '\n'
  | 'r' => some '\r'
  | 't' => some '\t'
  | _ => none

/-- Reads the rest of a string up to its closing quote, after pieces in reverse order. -/
def readPieces (done : List Piece) : List Char → Option (List Piece × List Char)
  | '"' :: rest => some (done.reverse, rest)
  | '\\' :: 'u' :: a :: b :: c :: d :: rest =>
    match unit? [a, b, c, d] with
    | some n => readPieces (.unit n :: done) rest
    | none => none
  | '\\' :: e :: rest =>
    match escaped? e with
    | some c => readPieces (.char c :: done) rest
    | none => none
  | c :: rest => if c.toNat < 0x20 ∨ c = '\\' then none else readPieces (.char c :: done) rest
  | [] => none

theorem length_of_readPieces {done : List Piece} {cs : List Char} {result : List Piece × List Char}
    (h : readPieces done cs = some result) : result.2.length < cs.length := by
  fun_induction readPieces done cs <;> grind

/-- The character of two units that are its halves. -/
def paired (first second : Nat) : Char :=
  .ofNat (0x10000 + (first - 0xD800) * 0x400 + (second - 0xDC00))

/-- Joins pieces to a text, after characters in reverse order and perhaps a unit that is
the first half of a character. A half without its other half is no text. -/
def joinFrom (done : List Char) (half : Option Nat) : List Piece → Option String
  | [] => if half.isSome then none else some (String.ofList done.reverse)
  | .char c :: rest => if half.isSome then none else joinFrom (c :: done) none rest
  | .unit n :: rest =>
    let first := 0xD800 ≤ n ∧ n < 0xDC00
    let second := 0xDC00 ≤ n ∧ n < 0xE000
    match half with
    | some m =>
      if second then joinFrom (paired m n :: done) none rest else none
    | none =>
      if first then joinFrom done (some n) rest
      else if second then none
      else joinFrom (.ofNat n :: done) none rest

/-- The text of a string. -/
def join (pieces : List Piece) : Option String := joinFrom [] none pieces

/-! ### Numbers -/

/-- Reads one digit or more. -/
def readDigits (cs : List Char) : Option (List Char × List Char) :=
  let digits := cs.takeWhile Char.isDigit
  if digits.isEmpty then none else some (digits, cs.dropWhile Char.isDigit)

theorem length_of_readDigits {cs : List Char} {result : List Char × List Char}
    (h : readDigits cs = some result) : result.2.length < cs.length := by
  have hsplit : _ = cs := List.takeWhile_append_dropWhile (p := Char.isDigit)
  replace hsplit := congrArg List.length hsplit
  rw [List.length_append] at hsplit
  simp only [readDigits] at h
  split at h
  · cases h
  · rename_i hne
    cases h
    have := List.length_pos_iff.2 (mt List.isEmpty_iff.2 hne)
    dsimp only
    omega

/-- Reads the digits before the point; a zero stands alone. -/
def readWhole : List Char → Option (List Char × List Char)
  | '0' :: rest =>
    if (rest.takeWhile Char.isDigit).isEmpty then some (['0'], rest) else none
  | cs => readDigits cs

theorem length_of_readWhole {cs : List Char} {result : List Char × List Char}
    (h : readWhole cs = some result) : result.2.length < cs.length := by
  unfold readWhole at h
  split at h
  · split at h
    · cases h; simp
    · cases h
  · exact length_of_readDigits h

/-- Reads a point with digits after it, if there is one. -/
def readFraction : List Char → Option (Option (List Char) × List Char)
  | '.' :: rest => (readDigits rest).map fun (digits, rest) => (some digits, rest)
  | cs => some (none, cs)

theorem length_of_readFraction {cs : List Char} {result : Option (List Char) × List Char}
    (h : readFraction cs = some result) : result.2.length ≤ cs.length := by
  unfold readFraction at h
  split at h
  · obtain ⟨digits, hd, rfl⟩ := Option.map_eq_some_iff.1 h
    have := length_of_readDigits hd
    simp only [List.length_cons]
    omega
  · cases h; exact Nat.le_refl _

/-- Reads the sign of an exponent; true for a minus. -/
def readSign : List Char → Bool × List Char
  | '+' :: rest => (false, rest)
  | '-' :: rest => (true, rest)
  | cs => (false, cs)

/-- Reads an exponent, if there is one. -/
def readExponent (cs : List Char) : Option (Option Int × List Char) :=
  match cs with
  | [] => some (none, [])
  | c :: rest =>
    if c = 'e' ∨ c = 'E' then
      let sign := readSign rest
      (readDigits sign.2).map fun (digits, rest) =>
        let n : Int := Text.numeral digits
        (some (if sign.1 then -n else n), rest)
    else some (none, cs)

theorem length_readSign_le (cs : List Char) : (readSign cs).2.length ≤ cs.length := by
  unfold readSign
  split <;> simp

theorem length_of_readExponent {cs : List Char} {result : Option Int × List Char}
    (h : readExponent cs = some result) : result.2.length ≤ cs.length := by
  unfold readExponent at h
  split at h
  · cases h; exact Nat.le_refl _
  · split at h
    · obtain ⟨digits, hd, rfl⟩ := Option.map_eq_some_iff.1 h
      have := length_of_readDigits hd
      have := length_readSign_le (by assumption)
      simp only [List.length_cons]
      omega
    · cases h; exact Nat.le_refl _

/-- Reads a number after its sign. -/
def readUnsigned (negative : Bool) (cs : List Char) : Option (NumberLiteral × List Char) := do
  let (whole, rest) ← readWhole cs
  let (fraction, rest) ← readFraction rest
  let (exponent, rest) ← readExponent rest
  return (⟨negative, whole, fraction, exponent⟩, rest)

theorem length_of_readUnsigned {negative : Bool} {cs : List Char}
    {result : NumberLiteral × List Char} (h : readUnsigned negative cs = some result) :
    result.2.length < cs.length := by
  simp only [readUnsigned, bind, Option.bind_eq_some_iff] at h
  obtain ⟨whole, hw, fraction, hf, exponent, he, h⟩ := h
  cases h
  exact Nat.lt_of_le_of_lt (length_of_readExponent he)
    (Nat.lt_of_le_of_lt (length_of_readFraction hf) (length_of_readWhole hw))

/-- Reads a number. -/
def readNumber : List Char → Option (NumberLiteral × List Char)
  | '-' :: rest => readUnsigned true rest
  | cs => readUnsigned false cs

theorem length_of_readNumber {cs : List Char} {result : NumberLiteral × List Char}
    (h : readNumber cs = some result) : result.2.length < cs.length := by
  unfold readNumber at h
  split at h
  · exact Nat.lt_succ_of_lt (length_of_readUnsigned h)
  · exact length_of_readUnsigned h

/-! ### Lexemes -/

/-- Blanks of JSON text: the space, the tab and the two line breaks. -/
def isBlank (c : Char) : Bool := c == ' ' || c == '\t' || c == '\n' || c == '\r'

/-- The lexeme of one character, if it is one. -/
def punctuation? : Char → Option Lexeme
  | '[' => some .openArray
  | ']' => some .closeArray
  | '\x7b' => some .openObject
  | '\x7d' => some .closeObject
  | ',' => some .comma
  | ':' => some .colon
  | _ => none

/-- Reads the lexeme at the start of a text that does not start with a blank. -/
def readLexeme : List Char → Option (Lexeme × List Char)
  | 'n' :: 'u' :: 'l' :: 'l' :: rest => some (.null, rest)
  | 't' :: 'r' :: 'u' :: 'e' :: rest => some (.bool true, rest)
  | 'f' :: 'a' :: 'l' :: 's' :: 'e' :: rest => some (.bool false, rest)
  | '"' :: rest => (readPieces [] rest).map fun (pieces, rest) => (.text pieces, rest)
  | c :: rest =>
    match punctuation? c with
    | some lexeme => some (lexeme, rest)
    | none => (readNumber (c :: rest)).map fun (literal, rest) => (.number literal, rest)
  | [] => none

theorem length_of_readLexeme {cs : List Char} {result : Lexeme × List Char}
    (h : readLexeme cs = some result) : result.2.length < cs.length := by
  unfold readLexeme at h
  split at h
  · cases h; simp only [List.length_cons]; omega
  · cases h; simp only [List.length_cons]; omega
  · cases h; simp only [List.length_cons]; omega
  · obtain ⟨pieces, hp, rfl⟩ := Option.map_eq_some_iff.1 h
    exact Nat.lt_succ_of_lt (length_of_readPieces hp)
  · split at h
    · cases h; simp
    · obtain ⟨literal, hl, rfl⟩ := Option.map_eq_some_iff.1 h
      exact length_of_readNumber hl
  · cases h

/-- The lexemes of a text, after lexemes in reverse order. -/
def lexemesFrom (done : List Lexeme) : List Char → List Lexeme
  | [] => done.reverse
  | c :: tail =>
    if isBlank c then lexemesFrom done tail
    else
      match _h : readLexeme (c :: tail) with
      | some (lexeme, rest) => lexemesFrom (lexeme :: done) rest
      | none => (.bad :: done).reverse
  termination_by cs => cs.length
  decreasing_by
    · exact Nat.lt_succ_self _
    · exact length_of_readLexeme _h

/-- The lexemes of a text. -/
def lexemes (text : String) : List Lexeme := lexemesFrom [] text.toList

end DocumentModel.Json

/-! Bytes as text over sixty-four symbols, with required and canonical padding.

Three bytes are written as four symbols of six bits; one or two bytes at the end leave two
or three symbols and are padded to four. Reading reports where a text goes wrong: the first
byte that is neither a symbol nor padding in its place, then a wrong amount of padding, then
unused bits that are not zero. -/
namespace DocumentModel.Base64

/-! ### Symbols -/

/-- The padding byte, an equals sign. -/
def pad : UInt8 := 61

/-- The symbol for six bits. -/
def symbol (n : Nat) : UInt8 :=
  if n < 26 then .ofNat (65 + n)
  else if n < 52 then .ofNat (97 + (n - 26))
  else if n < 62 then .ofNat (48 + (n - 52))
  else if n = 62 then 43
  else 47

/-- The six bits that a symbol stands for. -/
def sextet? (b : UInt8) : Option Nat :=
  let n := b.toNat
  if 65 ≤ n ∧ n ≤ 90 then some (n - 65)
  else if 97 ≤ n ∧ n ≤ 122 then some (n - 97 + 26)
  else if 48 ≤ n ∧ n ≤ 57 then some (n - 48 + 52)
  else if n = 43 then some 62
  else if n = 47 then some 63
  else none

/-- A symbol stands for the bits that it is the symbol of. -/
theorem sextet?_symbol : ∀ n < 64, sextet? (symbol n) = some n := by decide

/-! ### Writing -/

/-- The symbols and padding of a sequence of bytes. -/
def encode : List UInt8 → List UInt8
  | [] => []
  | [a] => [symbol (a.toNat / 4), symbol (a.toNat % 4 * 16), pad, pad]
  | [a, b] =>
    [symbol (a.toNat / 4), symbol (a.toNat % 4 * 16 + b.toNat / 16),
      symbol (b.toNat % 16 * 4), pad]
  | a :: b :: c :: rest =>
    symbol (a.toNat / 4) :: symbol (a.toNat % 4 * 16 + b.toNat / 16) ::
      symbol (b.toNat % 16 * 4 + c.toNat / 64) :: symbol (c.toNat % 64) :: encode rest

/-- The text of a sequence of bytes. -/
def toText (bytes : List UInt8) : String :=
  String.ofList ((encode bytes).map fun b => Char.ofNat b.toNat)

/-! ### Reading -/

/-- What is wrong with a text. -/
inductive Fault
  /-- A byte that may not stand where it does. -/
  | invalidByte (offset : Nat) (byte : UInt8)
  /-- A single symbol is left over, which is not enough for a byte. -/
  | remainder
  /-- The padding does not fill the last group of four. -/
  | padding
  /-- The last symbol has bits that belong to no byte. -/
  | lastSymbol (offset : Nat) (byte : UInt8)

/-- The wording of a fault. -/
def Fault.message : Fault → String
  | .invalidByte offset byte => s!"Invalid byte {byte}, offset {offset}."
  | .remainder => "Encoded text cannot have a 6-bit remainder."
  | .padding => "Invalid padding"
  | .lastSymbol offset byte => s!"Invalid last symbol {byte}, offset {offset}."

/-- The bytes of a sequence of six-bit groups, and the bits that are left over. -/
def join : List Nat → List UInt8 × Nat
  | a :: b :: c :: d :: rest =>
    let (bytes, left) := join rest
    (.ofNat (a * 4 + b / 16) :: .ofNat (b % 16 * 16 + c / 4) :: .ofNat (c % 4 * 64 + d) :: bytes,
      left)
  | [a, b, c] => ([.ofNat (a * 4 + b / 16), .ofNat (b % 16 * 16 + c / 4)], c % 4)
  | [a, b] => ([.ofNat (a * 4 + b / 16)], b % 16)
  | [a] => ([], a)
  | [] => ([], 0)

/-- The bytes that a sequence of symbols and padding stands for. -/
def decode (text : List UInt8) : Except Fault (List UInt8) :=
  let symbols := text.takeWhile (· != pad)
  let rest := text.dropWhile (· != pad)
  let count := symbols.length
  let last := text.getLastD pad
  if text.length % 4 = 1 then
    if last = pad ∨ (sextet? last).isSome then .error .remainder
    else .error (.invalidByte (text.length - 1) last)
  else if let some (byte, offset) := symbols.zipIdx.find? fun s => (sextet? s.1).isNone then
    .error (.invalidByte offset byte)
  else if rest ≠ [] ∧ ¬(rest.all (· == pad) ∧ 2 ≤ count % 4 ∧ count % 4 + rest.length ≤ 4) then
    .error (.invalidByte count pad)
  else if text.length % 4 ≠ 0 then .error .padding
  else
    let (bytes, left) := join (symbols.filterMap sextet?)
    if left = 0 then .ok bytes else .error (.lastSymbol (count - 1) (symbols.getLastD pad))

/-- The bytes that a text stands for; offsets count the bytes of its UTF-8 form. -/
def ofText (text : String) : Except Fault (List UInt8) :=
  decode (text.toList.flatMap String.utf8EncodeChar)

end DocumentModel.Base64

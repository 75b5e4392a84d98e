import DocumentModel.Text.Printable

/-! Quoted text, as messages show a piece of input.

The text stands in double quotes. A quote and a backslash get a backslash, the four
commonest controls have short forms, every other unprintable character is written by its
code point, and the rest stands as it is; so the quoted text shows its content exactly. -/
namespace DocumentModel.Text

/-- The form of one character in quoted text. -/
def quoteChar (c : Char) : List Char :=
  match c with
  | '"' => ['\\', '"']
  | '\\' => ['\\', '\\']
  | '\x00' => ['\\', '0']
  | '\t' => ['\\', 't']
  | '\n' => ['\\', 'n']
  | '\r' => ['\\', 'r']
  | c =>
    if isPrintable c then [c]
    else ['\\', 'u', '\x7b'] ++ Nat.toDigits 16 c.toNat ++ ['\x7d']

/-- A text in double quotes. -/
def quoted (text : String) : String :=
  String.ofList ('"' :: text.toList.flatMap quoteChar ++ ['"'])

end DocumentModel.Text

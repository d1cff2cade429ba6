import SpecTranspiler.Text.Hidden

/-!
# Quoted text

Text shown inside a message stands between double quotes. Quotes, backslashes and the
common controls are written with a backslash, and every other character without a
glyph by its code point, so that the reader sees exactly what the text holds.
-/

namespace SpecTranspiler

namespace Text

/-- A character as it stands between quotes. -/
def quoteChar (c : Char) : List Char :=
  match c with
  | '\x00' => ['\\', '0']
  | '\t' => ['\\', 't']
  | '\r' => ['\\', 'r']
  | '\n' => ['\\', 'n']
  | '\\' => ['\\', '\\']
  | '"' => ['\\', '"']
  | c => if isHidden c then '\\' :: 'u' :: '{' :: Nat.toDigits 16 c.toNat ++ ['}'] else [c]

/-- A text between quotes. -/
def quote (text : String) : String :=
  String.ofList ('"' :: text.toList.flatMap quoteChar ++ ['"'])

end Text

end SpecTranspiler

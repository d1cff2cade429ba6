import SpecTranspiler.Text.Position

/-!
# Excerpts

An excerpt shows the line of a text in which a fault lies, with a mark below the character
and the message beside it. Colors are escape sequences around the pieces of a line.
-/

namespace SpecTranspiler

namespace Excerpt

/-- The characters that end a line. -/
def isLineEnd (c : Char) : Bool :=
  c == '\n' || c == '\r' || c == '\x0b' || c == '\x0c' || c == '\u0085' || c == '\u2028' ||
    c == '\u2029'

/-- A place in a text: the lines before it, the characters of its line before it, and the
characters from it on. -/
structure Place where
  line : Nat
  before : List Char
  rest : List Char

/-- Walk over a number of characters of a text. A carriage return with a newline ends one
line. -/
def Place.walk : Nat → Nat → List Char → List Char → Place
  | 0, line, before, rest => ⟨line, before.reverse, rest⟩
  | _, line, before, [] => ⟨line, before.reverse, []⟩
  | count + 1, line, before, c :: rest =>
      if c == '\r' && rest.head? == some '\n' then walk count line (c :: before) rest
      else if isLineEnd c then walk count (line + 1) [] rest
      else walk count line (c :: before) rest

/-- The blank characters at the end of a line, which are not shown. -/
def trimEnd (chars : List Char) : List Char :=
  (chars.reverse.dropWhile fun c => c.isWhitespace || c == '\x0b' || c == '\x0c').reverse

/-- The spaces up to the next tab stop from a column. -/
def tabWidth (column : Nat) : Nat :=
  (column / 4 + 1) * 4 - column

/-- A character as it is shown in a column, where a tab is a row of spaces. -/
def shown (column : Nat) (c : Char) : List Char :=
  if c = '\t' then List.replicate (tabWidth column) ' ' else [c]

/-- A text in a color of the palette. -/
def paint (color : Bool) (index : Nat) (text : String) : String :=
  if color then "\x1b[38;5;" ++ toString index ++ "m" ++ text ++ "\x1b[0m" else text

/-- The heading of the excerpt. -/
def heading (color : Bool) : String :=
  (if color then "\x1b[31mError:\x1b[0m" else "Error:") ++ " Decode error"

/-- A number of spaces. -/
def spaces (count : Nat) : String :=
  String.ofList (List.replicate count ' ')

/-- The text of the line, with every character but the marked one painted. -/
def lineText (color : Bool) (marked : Nat) (chars : List Char) : String :=
  String.join (chars.zipIdx.map fun (c, column) =>
    String.join ((shown column c).map fun c =>
      if column = marked then String.singleton c else paint color 249 (String.singleton c)))

/-- The lines of the excerpt for the character at an index of a text. -/
def render (color : Bool) (source : String) (index : Nat) (message : String) : List String :=
  let place := Place.walk index 1 [] source.toList
  let number := toString place.line
  let width := number.length
  let column := place.before.length
  let line := trimEnd (place.before ++ place.rest.takeWhile (fun c => !isLineEnd c))
  let indent := (place.before.zipIdx.flatMap fun (c, column) => shown column c).length
  let gutter := " " ++ paint color 240 (spaces (width + 1) ++ "│") ++ " "
  [heading color,
    spaces (width + 2) ++ paint color 246 "╭" ++ paint color 246 "─" ++ paint color 246 "[" ++
      " <unknown>:" ++ number ++ ":" ++ toString (column + 1) ++ " " ++ paint color 246 "]",
    spaces (width + 2) ++ paint color 246 "│",
    " " ++ paint color 246 (number ++ " │") ++ " " ++ lineText color column line,
    gutter ++ spaces indent ++ "┬  ",
    gutter ++ spaces indent ++ "╰── " ++ message,
    paint color 246 (String.ofList (List.replicate (width + 2) '─') ++ "╯")]

end Excerpt

end SpecTranspiler

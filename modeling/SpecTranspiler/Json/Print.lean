import SpecTranspiler.Decimal.Shortest
import SpecTranspiler.Json.Basic

/-!
# Writing JSON

`Json.compress` writes a value on one line, and `Json.pretty` one member or element a
line. Strings are escaped only where they must be, so that both outputs hold no
character below the space except the newlines of the layout.
-/

namespace SpecTranspiler

namespace Json

/-- Floats are positional from `1e-5` up to sixteen digits before the point. -/
def floatStyle : FloatStyle := ⟨-5, 15⟩

/-- The text of a number. -/
def Number.render : Number → String
  | .int value => toString value
  | .float value => floatStyle.render value

/-- A character as it stands inside a string. -/
def escapeChar (c : Char) : List Char :=
  match c with
  | '"' => ['\\', '"']
  | '\\' => ['\\', '\\']
  | '\x08' => ['\\', 'b']
  | '\t' => ['\\', 't']
  | '\n' => ['\\', 'n']
  | '\x0c' => ['\\', 'f']
  | '\r' => ['\\', 'r']
  | c =>
      if c.toNat < 32 then
        ['\\', 'u', '0', '0', (c.toNat / 16).digitChar, (c.toNat % 16).digitChar]
      else [c]

/-- A text as a string literal. -/
def escape (text : String) : String :=
  String.ofList ('"' :: text.toList.flatMap escapeChar ++ ['"'])

mutual

/-- A value on one line, without blanks. -/
def compress : Json → String
  | .null => "null"
  | .bool true => "true"
  | .bool false => "false"
  | .num value => value.render
  | .str value => escape value
  | .arr elements => "[" ++ String.intercalate "," (compressElements elements) ++ "]"
  | .obj members => "\x7b" ++ String.intercalate "," (compressMembers members) ++ "\x7d"

/-- The elements of an array, each on one line. -/
def compressElements : List Json → List String
  | [] => []
  | value :: rest => compress value :: compressElements rest

/-- The members of an object, each on one line. -/
def compressMembers : List (String × Json) → List String
  | [] => []
  | (key, value) :: rest => (escape key ++ ":" ++ compress value) :: compressMembers rest

end

/-- A line break followed by two spaces for each level. -/
def lineBreak (level : Nat) : String :=
  String.ofList ('\n' :: List.replicate (2 * level) ' ')

/-- Items between brackets, each on a line of its own one level further in. -/
def bracketed (opening closing : String) (level : Nat) (items : List String) : String :=
  match items with
  | [] => opening ++ closing
  | _ =>
      opening ++ lineBreak (level + 1) ++
        String.intercalate ("," ++ lineBreak (level + 1)) items ++ lineBreak level ++ closing

mutual

/-- A value with every element and member on a line of its own, at a level. -/
def pretty (level : Nat) : Json → String
  | .null => "null"
  | .bool true => "true"
  | .bool false => "false"
  | .num value => value.render
  | .str value => escape value
  | .arr elements => bracketed "[" "]" level (prettyElements (level + 1) elements)
  | .obj members => bracketed "\x7b" "\x7d" level (prettyMembers (level + 1) members)

/-- The elements of an array at a level. -/
def prettyElements (level : Nat) : List Json → List String
  | [] => []
  | value :: rest => pretty level value :: prettyElements level rest

/-- The members of an object at a level. -/
def prettyMembers (level : Nat) : List (String × Json) → List String
  | [] => []
  | (key, value) :: rest => (escape key ++ ": " ++ pretty level value) :: prettyMembers level rest

end

end Json

end SpecTranspiler

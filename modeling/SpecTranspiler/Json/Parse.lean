import SpecTranspiler.Assoc
import SpecTranspiler.Json.Numeral

/-!
# Reading JSON values

`Json.scanValue` reads one value whose brackets nest no deeper than a given depth, and
`Json.parse` a whole text that holds one value. Objects list their members by ascending
key, and of members with the same key the last one counts.
-/

namespace SpecTranspiler

namespace Json

/-- Brackets nest at most this deep. -/
def maxDepth : Nat := 127

/-- Read a value whose brackets nest no deeper than a depth. -/
def scanValue (depth : Nat) (chars : List Char) : Scan Json :=
  match skipBlanks chars with
  | [] => .error (.within .eofInValue [])
  | 'n' :: rest => (scanWord ['u', 'l', 'l'] rest).map (.null, ·)
  | 't' :: rest => (scanWord ['r', 'u', 'e'] rest).map (.bool true, ·)
  | 'f' :: rest => (scanWord ['a', 'l', 's', 'e'] rest).map (.bool false, ·)
  | '"' :: rest => (scanString rest).map fun (text, rest) => (.str text, rest)
  | '-' :: rest => (scanNumber true rest).map fun (value, rest) => (.num value, rest)
  | '[' :: rest =>
      match depth with
      | 0 => .error (.within .nestingLimit ('[' :: rest))
      | depth + 1 =>
          (scanArray (scanValue depth) rest).map fun (elements, rest) => (.arr elements, rest)
  | '{' :: rest =>
      match depth with
      | 0 => .error (.within .nestingLimit ('{' :: rest))
      | depth + 1 =>
          let member (members : Assoc String Json) (key : String) (rest : List Char) :=
            match scanColon rest with
            | .ok rest =>
                (scanValue depth rest).map fun (value, rest) =>
                  (members.insert key value, rest)
            | .error failure => .error failure
          (scanObject member [] rest).map fun (members, rest) => (.obj members, rest)
  | c :: rest =>
      if c.isDigit then (scanNumber false (c :: rest)).map fun (value, rest) => (.num value, rest)
      else .error (.within .expectedValue (c :: rest))

/-- Run a scanner over a whole text, after which only blanks may follow. -/
def scanAll {α : Type} (scan : List Char → Scan α) (text : String) : Except DecodeError α :=
  match scan text.toList with
  | .error failure => .error (.ofFailure text.toList failure)
  | .ok (result, rest) =>
      match skipBlanks rest with
      | [] => .ok result
      | rest => .error (.ofFailure text.toList (.within .trailingCharacters rest))

/-- The value that a text holds, if its brackets nest no deeper than a depth. -/
def parseWithin (depth : Nat) (text : String) : Except DecodeError Json :=
  scanAll (scanValue depth) text

/-- The value that a text holds. -/
def parse (text : String) : Except DecodeError Json :=
  parseWithin maxDepth text

end Json

end SpecTranspiler

import SpecTranspiler.Json.Failure

/-!
# Reading the parts of a JSON text

A scanner takes the characters that are left and gives what it read with the characters
after it. This module has the leaves (blanks, words, strings) and the two loops over the
items between brackets, which the readers of values and of documents share.

A loop takes at most as many steps as there are characters left, since every item takes at
least one. Its first argument is a list of characters that is only used up, one a step.
-/

namespace SpecTranspiler

namespace Json

/-- What a scanner gives: a result and the characters after it, or a failure. -/
abbrev Scan (α : Type) := Except Failure (α × List Char)

/-- The characters that may stand between tokens. -/
def isBlank (c : Char) : Bool :=
  c == ' ' || c == '\t' || c == '\n' || c == '\r'

/-- Leave out the blanks at the front. -/
def skipBlanks (chars : List Char) : List Char :=
  chars.dropWhile isBlank

/-- Read the given characters. -/
def scanWord : List Char → List Char → Except Failure (List Char)
  | [], chars => .ok chars
  | _ :: _, [] => .error (.within .eofInValue [])
  | expected :: word, c :: rest =>
      if c = expected then scanWord word rest else .error (.within .expectedIdent (c :: rest))

/-- Read the colon between a key and its value. -/
def scanColon (chars : List Char) : Except Failure (List Char) :=
  match skipBlanks chars with
  | ':' :: rest => .ok rest
  | [] => .error (.within .eofInObject [])
  | rest => .error (.within .expectedColon rest)

/-- The value of a hexadecimal digit. -/
def hexValue? (c : Char) : Option Nat :=
  if c.isDigit then some (c.toNat - '0'.toNat)
  else if 'a' ≤ c ∧ c ≤ 'f' then some (c.toNat - 'a'.toNat + 10)
  else if 'A' ≤ c ∧ c ≤ 'F' then some (c.toNat - 'A'.toNat + 10)
  else none

/-- The value of four hexadecimal digits. -/
def hexUnit? (a b c d : Char) : Option Nat := do
  let a ← hexValue? a
  let b ← hexValue? b
  let c ← hexValue? c
  let d ← hexValue? d
  some (((a * 16 + b) * 16 + c) * 16 + d)

/-- Refuse four bytes that are not hexadecimal digits, or the lack of them. -/
def hexFailure (chars : List Char) : Failure :=
  if Text.byteSize chars < 4 then ⟨.eofInString, 0⟩
  else ⟨.invalidEscape, Text.byteSize chars - 4⟩

/-- Read the four hexadecimal digits of a code unit. -/
def scanHexUnit (chars : List Char) : Scan Nat :=
  match chars with
  | a :: b :: c :: d :: rest =>
      match hexUnit? a b c d with
      | some unit => .ok (unit, rest)
      | none => .error (hexFailure chars)
  | _ => .error (hexFailure chars)

/-- The code unit is the first half of a pair. -/
def isHighSurrogate (unit : Nat) : Bool :=
  0xD800 ≤ unit && unit ≤ 0xDBFF

/-- The code unit is the second half of a pair. -/
def isLowSurrogate (unit : Nat) : Bool :=
  0xDC00 ≤ unit && unit ≤ 0xDFFF

/-- The character that a pair of code units stands for. -/
def ofSurrogates (high low : Nat) : Char :=
  Char.ofNat ((high - 0xD800) * 0x400 + (low - 0xDC00) + 0x10000)

/-- Read the second half of a pair of code units. -/
def scanLowSurrogate (high : Nat) (chars : List Char) : Scan Char :=
  match chars with
  | '\\' :: 'u' :: rest =>
      match scanHexUnit rest with
      | .ok (low, rest) =>
          if isLowSurrogate low then .ok (ofSurrogates high low, rest)
          else .error (.before .loneSurrogate rest)
      | .error failure => .error failure
  | [] | ['\\'] => .error ⟨.eofInString, 0⟩
  | '\\' :: rest => .error (.within .endOfHexEscape rest)
  | rest => .error (.within .endOfHexEscape rest)

/-- Read a character given by its code units, after the mark for it. -/
def scanUnicode (chars : List Char) : Scan Char :=
  match scanHexUnit chars with
  | .ok (unit, rest) =>
      if isLowSurrogate unit then .error (.before .loneSurrogate rest)
      else if isHighSurrogate unit then scanLowSurrogate unit rest
      else .ok (Char.ofNat unit, rest)
  | .error failure => .error failure

/-- The character that an escape of one letter stands for. -/
def simpleEscape? (c : Char) : Option Char :=
  match c with
  | '"' => some '"'
  | '\\' => some '\\'
  | '/' => some '/'
  | 'b' => some '\x08'
  | 'f' => some '\x0c'
  | 'n' => some '\n'
  | 'r' => some '\r'
  | 't' => some '\t'
  | _ => none

/-- Read an escape, after its backslash. -/
def scanEscape (chars : List Char) : Scan Char :=
  match chars with
  | [] => .error ⟨.eofInString, 0⟩
  | 'u' :: rest => scanUnicode rest
  | c :: rest =>
      match simpleEscape? c with
      | some meant => .ok (meant, rest)
      | none => .error (.within .invalidEscape (c :: rest))

/-- Read the next character inside a string, or the quote that closes it. -/
def scanStringItem (chars : List Char) : Scan (Option Char) :=
  match chars with
  | [] => .error ⟨.eofInString, 0⟩
  | '"' :: rest => .ok (none, rest)
  | '\\' :: rest =>
      match scanEscape rest with
      | .ok (c, rest) => .ok (some c, rest)
      | .error failure => .error failure
  | c :: rest =>
      if c.toNat < 32 then .error (.within .controlCharacter (c :: rest))
      else .ok (some c, rest)

/-- Read the items of a string up to its closing quote, behind those read so far. -/
def scanStringItems : List Char → List Char → List Char → Scan String
  | [], _, chars => .error (.before .eofInString chars)
  | _ :: steps, read, chars =>
      match scanStringItem chars with
      | .ok (some c, rest) => scanStringItems steps (c :: read) rest
      | .ok (none, rest) => .ok (String.ofList read.reverse, rest)
      | .error failure => .error failure

/-- Read a string, after its opening quote. -/
def scanString (chars : List Char) : Scan String :=
  scanStringItems chars [] chars

section Loops

variable {α σ : Type}

/-- Read the elements of an array up to its closing bracket, the first of which begins
here, behind those read so far. -/
def scanElements (item : List Char → Scan α) :
    List Char → List α → List Char → Scan (List α)
  | [], _, chars => .error (.before .eofInList chars)
  | _ :: steps, read, chars =>
      match item chars with
      | .error failure => .error failure
      | .ok (element, rest) =>
          match skipBlanks rest with
          | ']' :: rest => .ok ((element :: read).reverse, rest)
          | ',' :: rest =>
              match skipBlanks rest with
              | ']' :: rest => .error (.within .trailingComma (']' :: rest))
              | [] => .error (.within .eofInValue [])
              | rest => scanElements item steps (element :: read) rest
          | [] => .error (.within .eofInList [])
          | rest => .error (.within .expectedListEnd rest)

/-- Read the elements of an array, after its opening bracket. -/
def scanArray (item : List Char → Scan α) (chars : List Char) : Scan (List α) :=
  match skipBlanks chars with
  | ']' :: rest => .ok ([], rest)
  | [] => .error (.within .eofInList [])
  | rest => scanElements item rest [] rest

/-- Read the members of an object up to its closing brace, the first of which begins
here. Each key is handed on with the characters after it, colon and value included. -/
def scanMembers (member : σ → String → List Char → Scan σ) :
    List Char → σ → List Char → Scan σ
  | [], _, chars => .error (.before .eofInObject chars)
  | _ :: steps, state, chars =>
      match chars with
      | '"' :: rest =>
          match scanString rest with
          | .error failure => .error failure
          | .ok (key, rest) =>
              match member state key rest with
              | .error failure => .error failure
              | .ok (state, rest) =>
                  match skipBlanks rest with
                  | '}' :: rest => .ok (state, rest)
                  | ',' :: rest =>
                      match skipBlanks rest with
                      | '}' :: rest => .error (.within .trailingComma ('}' :: rest))
                      | [] => .error (.within .eofInValue [])
                      | rest => scanMembers member steps state rest
                  | [] => .error (.within .eofInObject [])
                  | rest => .error (.within .expectedObjectEnd rest)
      | rest => .error (.within .keyNotString rest)

/-- Read the members of an object, after its opening brace. -/
def scanObject (member : σ → String → List Char → Scan σ) (start : σ) (chars : List Char) :
    Scan σ :=
  match skipBlanks chars with
  | '}' :: rest => .ok (start, rest)
  | [] => .error (.within .eofInObject [])
  | rest => scanMembers member rest start rest

end Loops

end Json

end SpecTranspiler

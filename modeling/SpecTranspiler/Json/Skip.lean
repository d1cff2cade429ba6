import SpecTranspiler.Json.Scan

/-!
# Skipping values

A member that nobody asks for is skipped rather than read. Skipping is laxer than
reading: brackets may nest to any depth, numbers of any size and unpaired surrogates are
accepted. The brackets that are open are kept on a stack. The loops use up a list of
characters, one a step, as those of reading do.
-/

namespace SpecTranspiler

namespace Json

/-- A bracket that was opened. -/
inductive Bracket where
  | list
  | object
  deriving DecidableEq, Repr

/-- The text ends inside the bracket. -/
def Bracket.eof : Bracket → Cause
  | .list => .eofInList
  | .object => .eofInObject

/-- Something else stands where an item of the bracket has ended. -/
def Bracket.expectedEnd : Bracket → Cause
  | .list => .expectedListEnd
  | .object => .expectedObjectEnd

/-- The character that closes the bracket. -/
def Bracket.closing : Bracket → Char
  | .list => ']'
  | .object => '}'

/-- Skip at least one digit. -/
def skipDigits (chars : List Char) : Except Failure (List Char) :=
  match chars with
  | [] => .error (.within .invalidNumber [])
  | c :: rest =>
      if c.isDigit then .ok (rest.dropWhile Char.isDigit)
      else .error (.within .invalidNumber (c :: rest))

/-- Skip an exponent, if there is one. -/
def skipExponent (chars : List Char) : Except Failure (List Char) :=
  match chars with
  | 'e' :: '+' :: rest | 'e' :: '-' :: rest | 'E' :: '+' :: rest | 'E' :: '-' :: rest =>
      skipDigits rest
  | 'e' :: rest | 'E' :: rest => skipDigits rest
  | rest => .ok rest

/-- Skip a fraction and an exponent, if there are any. -/
def skipNumberTail (chars : List Char) : Except Failure (List Char) :=
  match chars with
  | '.' :: rest =>
      match skipDigits rest with
      | .ok rest => skipExponent rest
      | .error failure => .error failure
  | rest => skipExponent rest

/-- Skip a number, after its sign. -/
def skipNumber (chars : List Char) : Except Failure (List Char) :=
  match chars with
  | '0' :: c :: rest =>
      if c.isDigit then .error (.within .invalidNumber (c :: rest))
      else skipNumberTail (c :: rest)
  | rest =>
      match skipDigits rest with
      | .ok rest => skipNumberTail rest
      | .error failure => .error failure

/-- Skip an escape, after its backslash. -/
def skipEscape (chars : List Char) : Except Failure (List Char) :=
  match chars with
  | [] => .error ⟨.eofInString, 0⟩
  | 'u' :: rest => (scanHexUnit rest).map Prod.snd
  | c :: rest =>
      if (simpleEscape? c).isSome then .ok rest
      else .error (.within .invalidEscape (c :: rest))

/-- Skip the items of a string up to its closing quote. -/
def skipStringItems : List Char → List Char → Except Failure (List Char)
  | [], chars => .error (.before .eofInString chars)
  | _, [] => .error ⟨.eofInString, 0⟩
  | _ :: steps, c :: rest =>
      if c = '"' then .ok rest
      else if c = '\\' then
        match skipEscape rest with
        | .ok rest => skipStringItems steps rest
        | .error failure => .error failure
      else if c.toNat < 32 then .error (.before .controlCharacter (c :: rest))
      else skipStringItems steps rest

/-- Skip a string, after its opening quote. -/
def skipString (chars : List Char) : Except Failure (List Char) :=
  skipStringItems chars chars

/-- Skip a key and its colon. -/
def skipKey (chars : List Char) : Except Failure (List Char) :=
  match skipBlanks chars with
  | '"' :: rest =>
      match skipString rest with
      | .ok rest => scanColon rest
      | .error failure => .error failure
  | [] => .error (.within .eofInObject [])
  | rest => .error (.within .keyNotString rest)

/-- Skip what stands before the value of an item in a bracket: the key in an object. -/
def skipLabel (bracket : Bracket) (chars : List Char) : Except Failure (List Char) :=
  match bracket with
  | .list => .ok chars
  | .object => skipKey chars

/-- Go on after a value, or after a bracket that was closed: to the next item of the
innermost open bracket, or out of it. Gives the brackets still open, which are none when
nothing is left to skip. -/
def skipAfter : List Bracket → List Char → Except Failure (List Bracket × List Char)
  | [], chars => .ok ([], chars)
  | bracket :: stack, chars =>
      match skipBlanks chars with
      | [] => .error (.within bracket.eof [])
      | c :: rest =>
          if c = ',' then (skipLabel bracket rest).map (bracket :: stack, ·)
          else if c = bracket.closing then skipAfter stack rest
          else .error (.within bracket.expectedEnd (c :: rest))

/-- Go on after a bracket that was opened: to its first item, or out of it. -/
def skipOpening (bracket : Bracket) (stack : List Bracket) (chars : List Char) :
    Except Failure (List Bracket × List Char) :=
  match skipBlanks chars with
  | [] => .error (.within bracket.eof [])
  | c :: rest =>
      if c = bracket.closing then skipAfter stack rest
      else (skipLabel bracket (c :: rest)).map (bracket :: stack, ·)

/-- Skip a value that holds no others, or the opening bracket of one that does. Gives the
brackets still open. -/
def skipToken (stack : List Bracket) (chars : List Char) :
    Except Failure (List Bracket × List Char) :=
  match skipBlanks chars with
  | [] => .error (.within .eofInValue [])
  | 'n' :: rest => scanWord ['u', 'l', 'l'] rest >>= skipAfter stack
  | 't' :: rest => scanWord ['r', 'u', 'e'] rest >>= skipAfter stack
  | 'f' :: rest => scanWord ['a', 'l', 's', 'e'] rest >>= skipAfter stack
  | '"' :: rest => skipString rest >>= skipAfter stack
  | '-' :: rest => skipNumber rest >>= skipAfter stack
  | '[' :: rest => skipOpening .list stack rest
  | '{' :: rest => skipOpening .object stack rest
  | c :: rest =>
      if c.isDigit then skipNumber (c :: rest) >>= skipAfter stack
      else .error (.within .expectedValue (c :: rest))

/-- Skip tokens until no bracket is open. -/
def skipTokens : List Char → List Bracket → List Char → Except Failure (List Char)
  | [], _, chars => .error (.before .eofInValue chars)
  | _ :: steps, stack, chars =>
      match skipToken stack chars with
      | .error failure => .error failure
      | .ok ([], rest) => .ok rest
      | .ok (stack, rest) => skipTokens steps stack rest

/-- Skip a value. -/
def skipValue (chars : List Char) : Except Failure (List Char) :=
  skipTokens chars [] chars

end Json

end SpecTranspiler

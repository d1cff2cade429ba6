import SpecTranspiler.Json.Print
import SpecTranspiler.Text.Position
import SpecTranspiler.Text.Quoted

/-!
# Why a text or a value is refused

A `Mismatch` says how a well-formed value differs from the shape that is asked for. A
`Cause` is a fault of the text, or such a mismatch found in it. While a text is read a
`Failure` holds the bytes still unread; `DecodeError` is the finished report, with the
position by line and column where the input was a text.
-/

namespace SpecTranspiler

namespace Json

/-- What stands where something else is expected. -/
inductive Found where
  | null
  | bool (value : Bool)
  | num (value : Number)
  | str (value : String)
  | sequence
  | map
  deriving DecidableEq, Repr

/-- What a value is, as far as a message tells. -/
def found : Json → Found
  | .null => .null
  | .bool value => .bool value
  | .num value => .num value
  | .str value => .str value
  | .arr _ => .sequence
  | .obj _ => .map

/-- The words for what was found. -/
def Found.describe : Found → String
  | .null => "null"
  | .bool true => "boolean `true`"
  | .bool false => "boolean `false`"
  | .num (.int value) => "integer `" ++ Number.render (.int value) ++ "`"
  | .num (.float value) => "floating point `" ++ Number.render (.float value) ++ "`"
  | .str value => "string " ++ Text.quote value
  | .sequence => "sequence"
  | .map => "map"

/-- How a value differs from the shape that is asked for. -/
inductive Mismatch where
  | invalidType (found : Found) (expected : String)
  | invalidLength (length : Nat) (expected : String)
  | missingField (field : String)
  | duplicateField (field : String)
  deriving DecidableEq, Repr

/-- The text of a mismatch. -/
def Mismatch.message : Mismatch → String
  | .invalidType found expected =>
      "invalid type: " ++ found.describe ++ ", expected " ++ expected
  | .invalidLength length expected =>
      "invalid length " ++ toString length ++ ", expected " ++ expected
  | .missingField field => "missing field `" ++ field ++ "`"
  | .duplicateField field => "duplicate field `" ++ field ++ "`"

/-- Why a text is refused. -/
inductive Cause where
  | eofInValue
  | eofInList
  | eofInObject
  | eofInString
  | expectedValue
  | expectedIdent
  | expectedColon
  | expectedListEnd
  | expectedObjectEnd
  | keyNotString
  | trailingComma
  | trailingCharacters
  | invalidNumber
  | numberOutOfRange
  | controlCharacter
  | invalidEscape
  | loneSurrogate
  | endOfHexEscape
  | nestingLimit
  | mismatch (detail : Mismatch)
  deriving DecidableEq, Repr

/-- The kinds of causes: the text ends too early, is malformed, or holds other data. -/
inductive Category where
  | eof
  | malformed
  | data
  deriving DecidableEq, Repr

namespace Cause

/-- The text of a cause. -/
def message : Cause → String
  | eofInValue => "EOF while parsing a value"
  | eofInList => "EOF while parsing a list"
  | eofInObject => "EOF while parsing an object"
  | eofInString => "EOF while parsing a string"
  | expectedValue => "expected value"
  | expectedIdent => "expected ident"
  | expectedColon => "expected `:`"
  | expectedListEnd => "expected `,` or `]`"
  | expectedObjectEnd => "expected `,` or `\x7d`"
  | keyNotString => "key must be a string"
  | trailingComma => "trailing comma"
  | trailingCharacters => "trailing characters"
  | invalidNumber => "invalid number"
  | numberOutOfRange => "number out of range"
  | controlCharacter => "control character (\\u0000-\\u001F) found while parsing a string"
  | invalidEscape => "invalid escape"
  | loneSurrogate => "lone leading surrogate in hex escape"
  | endOfHexEscape => "unexpected end of hex escape"
  | nestingLimit => "recursion limit exceeded"
  | mismatch detail => detail.message

/-- The kind of a cause. -/
def category : Cause → Category
  | eofInValue | eofInList | eofInObject | eofInString => .eof
  | mismatch _ => .data
  | _ => .malformed

end Cause

/-- A cause and the place where it shows, given by the bytes that follow it. -/
structure Failure where
  cause : Cause
  left : Nat
  deriving DecidableEq, Repr

namespace Failure

/-- A cause that shows right before the rest of the text. -/
def before (cause : Cause) (rest : List Char) : Failure :=
  ⟨cause, Text.byteSize rest⟩

/-- A cause that shows in the first byte of the rest, which counts as read. -/
def within (cause : Cause) (rest : List Char) : Failure :=
  ⟨cause, Text.byteSize rest - 1⟩

end Failure

/-- The report on an input that was refused. -/
structure DecodeError where
  cause : Cause
  position : Option Position
  deriving DecidableEq, Repr

namespace DecodeError

/-- The report on a failure while reading a text. -/
def ofFailure (chars : List Char) (failure : Failure) : DecodeError :=
  ⟨failure.cause, some (Position.after chars (Text.byteSize chars - failure.left))⟩

/-- The report on a value of another shape. -/
def ofMismatch (detail : Mismatch) : DecodeError :=
  ⟨.mismatch detail, none⟩

/-- The line of the report, zero where there was no text. -/
def line (error : DecodeError) : Nat :=
  error.position.elim 0 Position.line

/-- The column of the report, zero where there was no text. -/
def column (error : DecodeError) : Nat :=
  error.position.elim 0 Position.column

/-- The text of a report. -/
def message (error : DecodeError) : String :=
  match error.position with
  | none => error.cause.message
  | some position =>
      error.cause.message ++ " at line " ++ toString position.line ++ " column " ++
        toString position.column

end DecodeError

end Json

end SpecTranspiler

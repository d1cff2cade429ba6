import SpecTranspiler.Json.Print

/-!
# Faults and warnings

A `Fault` ends the work on a document. A `Warning` tells of something that was left out or
stands as a placeholder in the result. Both have a fixed code and a text.
-/

namespace SpecTranspiler

/-- A text between backticks. -/
def ticked (text : String) : String :=
  "`" ++ text ++ "`"

/-- What a field of a node is expected to be. -/
inductive FieldKind where
  | string
  | boolean
  | array
  | object
  | number
  deriving DecidableEq, Repr

/-- The words for a kind of field. -/
def FieldKind.describe : FieldKind → String
  | .string => "a string"
  | .boolean => "a boolean"
  | .array => "an array"
  | .object => "an object"
  | .number => "a number"

/-- How many operands an operator takes. -/
inductive Arity where
  | exactly (count : Nat)
  | even
  deriving DecidableEq, Repr

/-- The words for an arity. -/
def Arity.describe : Arity → String
  | .exactly count => toString count
  | .even => "an even number of"

/-- Why a document cannot be lowered. -/
inductive Fault where
  | unknownTypeKind (kind : String)
  | missingField (field context : String)
  | wrongFieldType (field : String) (expected : FieldKind) (context : String)
  | expectedObject (context : String)
  | paramCountMismatch (function : String) (names types : Nat)
  | arityMismatch (operator : String) (expected : Arity) (found : Nat)
  | invalidInteger (value : Json.Number)
  | invalidTypeId (key : String)
  deriving DecidableEq, Repr

namespace Fault

/-- The code of a fault. -/
def code : Fault → String
  | unknownTypeKind .. => "R0001"
  | missingField .. => "R0002"
  | wrongFieldType .. => "R0003"
  | expectedObject .. => "R0004"
  | paramCountMismatch .. => "R0005"
  | arityMismatch .. => "R0006"
  | invalidInteger .. => "R0007"
  | invalidTypeId .. => "R0008"

/-- The text of a fault. -/
def message : Fault → String
  | unknownTypeKind kind => "kind not supported for resolving types: " ++ ticked kind
  | missingField field context => "missing field " ++ ticked field ++ " in " ++ context
  | wrongFieldType field expected context =>
      "field " ++ ticked field ++ " in " ++ context ++ " must be " ++ expected.describe
  | expectedObject context => "expected " ++ context ++ " to be a JSON object"
  | paramCountMismatch function names types =>
      "function " ++ ticked function ++ " has " ++ toString names ++ " parameter name(s) but " ++
        toString types ++ " parameter type(s)"
  | arityMismatch operator expected found =>
      "operator " ++ ticked operator ++ " expects " ++ expected.describe ++
        " argument(s), found " ++ toString found
  | invalidInteger value => "integer literal " ++ value.render ++ " does not fit in u64"
  | invalidTypeId key => "type table key " ++ ticked key ++ " is not a numeric id"

end Fault

/-- What was left out of the result, or stands as a placeholder in it. -/
inductive Warning where
  | unsupportedQualifier (name qualifier : String)
  | unsupportedDeclKind (kind : String)
  | unsupportedExprKind (kind : String)
  | unsupportedOpcode (opcode : String)
  | recordWithoutExpectedType
  | unsupportedLetBinding (name qualifier : String)
  | topLevelVal (name : String)
  deriving DecidableEq, Repr

namespace Warning

/-- The code of a warning. -/
def code : Warning → String
  | unsupportedQualifier .. => "W0001"
  | unsupportedDeclKind .. => "W0002"
  | unsupportedExprKind .. => "W0003"
  | unsupportedOpcode .. => "W0004"
  | recordWithoutExpectedType => "W0005"
  | unsupportedLetBinding .. => "W0006"
  | topLevelVal .. => "W0007"

/-- The text of a warning. -/
def message : Warning → String
  | unsupportedQualifier name qualifier =>
      "qualifier " ++ ticked qualifier ++ " not supported, skipping definition " ++ ticked name
  | unsupportedDeclKind kind =>
      "declaration kind " ++ ticked kind ++ " not supported, skipping"
  | unsupportedExprKind kind =>
      "expression kind " ++ ticked kind ++ " not supported, emitting todo!()"
  | unsupportedOpcode opcode =>
      "operator " ++ ticked opcode ++ " not supported, emitting todo!()"
  | recordWithoutExpectedType =>
      "record construction has no known type to name it, emitting todo!()"
  | unsupportedLetBinding name qualifier =>
      "let binding " ++ ticked name ++ " has qualifier " ++ ticked qualifier ++
        " (only `val` is supported), emitting todo!()"
  | topLevelVal name => "top-level val " ++ ticked name ++ " is not emitted"

end Warning

end SpecTranspiler

import SpecTranspiler.Command.Excerpt
import SpecTranspiler.Ir.Issue
import SpecTranspiler.Json.Failure

/-!
# Diagnostics

What the command has to tell is a list of diagnostics. Each is written for people, or as
one line of JSON whose keys ascend.
-/

namespace SpecTranspiler

/-- How bad a diagnostic is. -/
inductive Severity where
  | error
  | warning
  deriving DecidableEq, Repr

/-- The word for a severity. -/
def Severity.name : Severity → String
  | .error => "error"
  | .warning => "warning"

/-- A range of characters of the input, with what there is to say about it. -/
structure Span where
  start : Nat
  stop : Nat
  label : String
  deriving DecidableEq, Repr

/-- Something to tell about an input. -/
structure Diagnostic where
  code : String
  severity : Severity
  message : String
  spans : List Span
  deriving DecidableEq, Repr

/-- A span as JSON. -/
def Span.toJson (span : Span) : Json :=
  .obj [("end", .ofNat span.stop), ("label", .str span.label), ("start", .ofNat span.start)]

namespace Diagnostic

/-- A fault as a diagnostic. -/
def ofFault (fault : Fault) : Diagnostic :=
  ⟨fault.code, .error, fault.message, []⟩

/-- A warning as a diagnostic. -/
def ofWarning (warning : Warning) : Diagnostic :=
  ⟨warning.code, .warning, warning.message, []⟩

/-- The index of the character at which a text could not be decoded. -/
def decodeIndex (source : String) (error : Json.DecodeError) : Nat :=
  Text.charOffset source error.line error.column

/-- A text that could not be decoded as a diagnostic. -/
def ofDecodeError (source : String) (error : Json.DecodeError) : Diagnostic :=
  let start := decodeIndex source error
  ⟨"D0001", .error, "Decode error: " ++ error.message, [⟨start, start + 1, error.message⟩]⟩

/-- The end of a run that failed as a diagnostic. -/
def ofFailure (message : String) : Diagnostic :=
  ⟨"C0001", .error, message, []⟩

/-- A diagnostic about a file as JSON. -/
def toJson (file : String) (diagnostic : Diagnostic) : Json :=
  .obj [
    ("code", .str diagnostic.code),
    ("file", .str file),
    ("fix", .null),
    ("message", .str diagnostic.message),
    ("severity", .str diagnostic.severity.name),
    ("spans", .arr (diagnostic.spans.map Span.toJson))]

/-- A diagnostic about a file as a line of JSON. -/
def jsonLine (file : String) (diagnostic : Diagnostic) : String :=
  (diagnostic.toJson file).compress

/-- A diagnostic with its code as a line for people. -/
def codeLine (diagnostic : Diagnostic) : String :=
  diagnostic.severity.name ++ "[" ++ diagnostic.code ++ "]: " ++ diagnostic.message

end Diagnostic

end SpecTranspiler

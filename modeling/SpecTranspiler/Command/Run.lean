import SpecTranspiler.Command.Arguments
import SpecTranspiler.Command.Diagnostic
import SpecTranspiler.Command.Files
import SpecTranspiler.Json.Print
import SpecTranspiler.Lower.Program
import SpecTranspiler.Target.Dump
import SpecTranspiler.Target.Render

/-!
# Running the command

A run reads the input, lowers it, and writes the text of the program. Nothing is written
before everything else has succeeded, and the text is written last. With the option for it
the tree of the program is written first, beside the output.
-/

namespace SpecTranspiler

/-- What a run leaves: its exit code and what it wrote to the two output streams. -/
structure Report where
  exitCode : Nat
  stdout : String
  stderr : String
  deriving DecidableEq, Repr

namespace Options

/-- Excerpts are colored. -/
def color (options : Options) : Bool :=
  !options.noColor && !options.json

/-- The lines of a diagnostic that has a code. -/
def codeLines (options : Options) (diagnostic : Diagnostic) : List String :=
  [if options.json then diagnostic.jsonLine options.input else diagnostic.codeLine]

/-- The lines about a text that could not be decoded. -/
def decodeLines (options : Options) (source : String) (error : Json.DecodeError) :
    List String :=
  if options.json then
    [(Diagnostic.ofDecodeError source error).jsonLine options.input]
  else
    Excerpt.render options.color source (Diagnostic.decodeIndex source error) error.message

/-- The line at the end of a run that failed. -/
def failureLine (options : Options) (message : String) : String :=
  if options.json then (Diagnostic.ofFailure message).jsonLine options.input
  else "error: " ++ message

/-- The lines about the result that are given when they are asked for. -/
def verboseLines (options : Options) (resolution : Resolution) : List String :=
  if options.verbose ∧ ¬options.json then
    ("  Named types: " ++ toString resolution.typeNames.length) ::
      resolution.typeNames.map (fun (id, name) => "    " ++ toString id.toNat ++ ": " ++ name) ++
      ["  Declarations: " ++ toString resolution.program.items.length]
  else []

/-- The path of the tree, beside the output. -/
def treePath (options : Options) : String :=
  options.output ++ ".ast.json"

/-- The message about a file that could not be read. -/
def readMessage (path : String) (error : FileError) : String :=
  "Failed to read '" ++ path ++ "': " ++ error.message

/-- The message about a file that could not be written. -/
def writeMessage (path : String) (error : FileError) : String :=
  "Failed to write '" ++ path ++ "': " ++ error.message

/-- The text of an input file. -/
def sourceText (content : Except FileError ByteArray) : Except FileError String :=
  match content with
  | .error error => .error error
  | .ok bytes =>
      match String.fromUTF8? bytes with
      | some text => .ok text
      | none => .error .invalidText

/-- Lower the content of an input file. Gives the result, or the lines and the message of
the failure. -/
def resolve (options : Options) (content : Except FileError ByteArray) :
    Except (List String × String) Resolution :=
  match sourceText content with
  | .error error => .error ([], readMessage options.input error)
  | .ok source =>
      match Document.ofText source with
      | .error error =>
          .error (options.decodeLines source error,
            "Failed to decode the IR document due to errors above.")
      | .ok document =>
          match document.lower with
          | .error fault =>
              .error (options.codeLines (.ofFault fault),
                "Transpilation failed due to errors above.")
          | .ok resolution => .ok resolution

/-- The text of the tree of a program. -/
def treeText (program : Program) : String :=
  program.toJson.pretty 0 ++ "\n"

/-- The text of a program. -/
def programText (program : Program) : String :=
  program.render 4

/-- The text of lines, each ended by a newline. -/
def unlines (lines : List String) : String :=
  String.join (lines.map (· ++ "\n"))

/-- The report on a run that failed. -/
def failed (options : Options) (lines : List String) (message : String) : Report :=
  ⟨1, "", unlines (lines ++ [options.failureLine message])⟩

section

variable {m : Type → Type} [Monad m] [MonadFiles m]

/-- Write the text of the program. -/
def writeProgram (options : Options) (program : Program) (lines : List String) : m Report := do
  match ← MonadFiles.writeFile options.output (programText program).toUTF8 with
  | .error error => return options.failed lines (writeMessage options.output error)
  | .ok () => return ⟨0, "", unlines (lines ++ ["  Transpiled: " ++ options.output])⟩

/-- Write the tree of the program if it is asked for, then its text. -/
def writeResult (options : Options) (program : Program) (lines : List String) : m Report := do
  if options.emitTree then
    match ← MonadFiles.writeFile options.treePath (treeText program).toUTF8 with
    | .error error => return options.failed lines (writeMessage options.treePath error)
    | .ok () => options.writeProgram program (lines ++ ["  AST: " ++ options.treePath])
  else options.writeProgram program lines

/-- Run the command with options. -/
def run (options : Options) : m Report := do
  match options.resolve (← MonadFiles.readFile options.input) with
  | .error (lines, message) => return options.failed lines message
  | .ok resolution =>
      let warnings := resolution.warnings.flatMap fun warning =>
        options.codeLines (.ofWarning warning)
      options.writeResult resolution.program (warnings ++ options.verboseLines resolution)

end

end Options

/-- Run the command with arguments. -/
def runCommand {m : Type → Type} [Monad m] [MonadFiles m] (arguments : List String) :
    m Report :=
  match Arguments.invocation arguments with
  | .run options => options.run
  | .help => return ⟨0, helpText, ""⟩
  | .version => return ⟨0, versionText, ""⟩
  | .misuse => return ⟨2, "", "error: the arguments could not be understood\n"⟩

end SpecTranspiler

/-!
# Command line arguments

Arguments are taken from left to right. Two of them are paths, the others switch options
on; the first one that asks for help or the version, or that cannot be understood, decides
the invocation.
-/

namespace SpecTranspiler

/-- What a run of the command is asked to do. -/
structure Options where
  input : String
  output : String
  json : Bool
  noColor : Bool
  verbose : Bool
  emitTree : Bool
  deriving DecidableEq, Repr

/-- What the command is asked for. -/
inductive Invocation where
  | run (options : Options)
  | help
  | version
  | misuse
  deriving DecidableEq, Repr

/-- A switch of the command. -/
inductive Switch where
  | json
  | noColor
  | verbose
  | emitTree
  | help
  | version
  deriving DecidableEq, Repr

namespace Switch

/-- The switch with a long name. -/
def ofLong? (name : String) : Option Switch :=
  match name with
  | "--json" => some .json
  | "--no-color" => some .noColor
  | "--verbose" => some .verbose
  | "--emit-ast" => some .emitTree
  | "--help" => some .help
  | "--version" => some .version
  | _ => none

/-- The switch with a letter. -/
def ofLetter? (letter : Char) : Option Switch :=
  match letter with
  | 'v' => some .verbose
  | 'h' => some .help
  | 'V' => some .version
  | _ => none

end Switch

/-- The arguments taken so far. -/
structure Arguments where
  paths : List String
  switches : List Switch

namespace Arguments

/-- Take a switch. One that was taken before is a misuse. -/
def takeSwitch (taken : Arguments) (switch? : Option Switch) : Except Invocation Arguments :=
  match switch? with
  | some .help => .error .help
  | some .version => .error .version
  | some switch =>
      if taken.switches.contains switch then .error .misuse
      else .ok { taken with switches := switch :: taken.switches }
  | none => .error .misuse

/-- Take a path. There are two of them, and none is empty. -/
def takePath (taken : Arguments) (path : String) : Except Invocation Arguments :=
  if path = "" ∨ 2 ≤ taken.paths.length then .error .misuse
  else .ok { taken with paths := taken.paths ++ [path] }

/-- Take an argument that may be a switch, or several by their letters. -/
def take (taken : Arguments) (argument : String) : Except Invocation Arguments :=
  match argument.toList with
  | '-' :: '-' :: _ => taken.takeSwitch (Switch.ofLong? argument)
  | '-' :: letter :: letters =>
      (letter :: letters).foldlM (fun taken letter => taken.takeSwitch (Switch.ofLetter? letter))
        taken
  | _ => taken.takePath argument

/-- Take all arguments. Behind two dashes they are paths only. -/
def takeAll (taken : Arguments) : List String → Except Invocation Arguments
  | [] => .ok taken
  | argument :: rest =>
      if argument = "--" then rest.foldlM takePath taken
      else
        match taken.take argument with
        | .ok taken => taken.takeAll rest
        | .error invocation => .error invocation

/-- What the arguments ask for. -/
def invocation (arguments : List String) : Invocation :=
  match takeAll ⟨[], []⟩ arguments with
  | .error invocation => invocation
  | .ok ⟨[input, output], switches⟩ =>
      .run {
        input, output
        json := switches.contains .json
        noColor := switches.contains .noColor
        verbose := switches.contains .verbose
        emitTree := switches.contains .emitTree }
  | .ok _ => .misuse

end Arguments

/-- The answer to a request for the version. -/
def versionText : String :=
  "mintc 0.1.0\n"

/-- The lines of the answer to a request for help. -/
def helpLines : List String :=
  ["Transpile Quint JSON IR to Rust",
    "",
    "Usage: mintc [OPTIONS] <INPUT> <OUTPUT>",
    "",
    "Arguments:",
    "  <INPUT>   Path to the JSON IR document",
    "  <OUTPUT>  Path of the Rust source file to write",
    "",
    "Options:",
    "      --json      Output diagnostics as JSON (one object " ++
      "per line) instead of human-readable format",
    "      --no-color  Disable colorized output",
    "  -v, --verbose   Report the number of named types and declarations",
    "      --emit-ast  Write the resolved AST as JSON (<OUTPUT>.ast.json)",
    "  -h, --help      Print help",
    "  -V, --version   Print version"]

/-- The answer to a request for help. -/
def helpText : String :=
  String.join (helpLines.map (· ++ "\n"))

end SpecTranspiler

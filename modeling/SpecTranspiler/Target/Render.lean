import SpecTranspiler.Target.Item

/-!
# The text of a program

Every construct is written in one way. A construct that needs several lines writes its
parts one level further in and its closing brace at its own level; `width` is the number
of spaces of a level. Parentheses stand only where an operand would otherwise be read
differently.
-/

namespace SpecTranspiler

/-- The spaces at the start of a line. -/
def margin (width level : Nat) : String :=
  String.ofList (List.replicate (width * level) ' ')

/-- Put every occurrence of a character as other characters. -/
def replaceChar (target : Char) (replacement text : List Char) : List Char :=
  text.flatMap fun c => if c = target then replacement else [c]

/-- The characters of a string literal: backslashes first, then quotes get a backslash. -/
def escapeLiteral (text : List Char) : List Char :=
  replaceChar '"' ['\\', '"'] (replaceChar '\\' ['\\', '\\'] text)

/-- The text of a literal. Strings are owned. -/
def Literal.render : Literal → String
  | .uint64 value => toString value.toNat ++ "_u64"
  | .str value => "\"" ++ String.ofList (escapeLiteral value.toList) ++ "\".to_string()"
  | .bool true => "true"
  | .bool false => "false"

namespace Ty

/-- The text of a type that a path starts with. -/
def renderPath : Ty → String
  | .set element => "HashSet::<" ++ element.render ++ ">"
  | .map key value => "HashMap::<" ++ key.render ++ ", " ++ value.render ++ ">"
  | other => "<" ++ other.render ++ ">"

/-- The text of the types that a call is given. -/
def renderTypeArgs (types : List Ty) : String :=
  match types with
  | [] => ""
  | _ => "::<" ++ String.intercalate ", " (renderAll types) ++ ">"

end Ty

namespace Term

/-- The term has to be parenthesized as the operand of a sign, a field or a method. -/
def isCompound : Term → Bool
  | .add .. | .borrow .. | .negate .. | .ifElse .. | .bind .. => true
  | _ => false

/-- The term has to be parenthesized as an operand of a sum. -/
def isBraced : Term → Bool
  | .ifElse .. | .bind .. => true
  | _ => false

/-- Put a text between parentheses if they are needed. -/
def parenthesize (needed : Bool) (text : String) : String :=
  if needed then "(" ++ text ++ ")" else text

/-- Lines between braces, each ended by a newline, with the closing brace at a level. -/
def bracedLines (width level : Nat) (lines : List String) : String :=
  match lines with
  | [] => "\x7b\x7d"
  | _ => "\x7b\n" ++ String.join (lines.map (· ++ "\n")) ++ margin width level ++ "\x7d"

end Term

mutual

/-- The text of a term that starts in the middle of a line at a level. -/
def Term.render (width level : Nat) : Term → String
  | .literal value => value.render
  | .name name => name
  | .field base field =>
      Term.parenthesize base.isCompound (base.render width level) ++ "." ++ field
  | .record name fields =>
      name ++ " " ++ Term.bracedLines width level (Term.renderFields width (level + 1) fields)
  | .variant enum variant [] => enum ++ "::" ++ variant
  | .variant enum variant (arg :: args) =>
      enum ++ "::" ++ variant ++ "(" ++
        String.intercalate ", " (Term.renderAll width level (arg :: args)) ++ ")"
  | .tuple elements => Ty.parenthesized (Term.renderAll width level elements)
  | .borrow operand => "&" ++ Term.parenthesize operand.isCompound (operand.render width level)
  | .call function types args =>
      function ++ Ty.renderTypeArgs types ++ "(" ++
        String.intercalate ", " (Term.renderAll width level args) ++ ")"
  | .typeCall ty method types args =>
      ty.renderPath ++ "::" ++ method ++ Ty.renderTypeArgs types ++ "(" ++
        String.intercalate ", " (Term.renderAll width level args) ++ ")"
  | .methodCall receiver method types args =>
      Term.parenthesize receiver.isCompound (receiver.render width level) ++ "." ++ method ++
        Ty.renderTypeArgs types ++ "(" ++
        String.intercalate ", " (Term.renderAll width level args) ++ ")"
  | .ifElse condition yes no =>
      "if " ++ condition.render width level ++ " " ++
        Term.bracedLines width level [margin width (level + 1) ++ yes.render width (level + 1)] ++
        " else " ++
        Term.bracedLines width level [margin width (level + 1) ++ no.render width (level + 1)]
  | .negate operand => "!" ++ Term.parenthesize operand.isCompound (operand.render width level)
  | .add left right =>
      Term.parenthesize left.isBraced (left.render width level) ++ " + " ++
        Term.parenthesize right.isBraced (right.render width level)
  | .bind name value body =>
      Term.bracedLines width level
        [margin width (level + 1) ++ "let " ++ name ++ " = " ++
            value.render width (level + 1) ++ ";",
          margin width (level + 1) ++ body.render width (level + 1)]
  | .block body => Term.bracedLines width level (Stmt.renderAll width (level + 1) body)
  | .todo => "todo!()"

/-- The texts of terms at a level. -/
def Term.renderAll (width level : Nat) : List Term → List String
  | [] => []
  | term :: rest => term.render width level :: Term.renderAll width level rest

/-- The lines of the fields of a record construction at a level. -/
def Term.renderFields (width level : Nat) : List (String × Term) → List String
  | [] => []
  | (name, value) :: rest =>
      (margin width level ++ name ++ ": " ++ value.render width level ++ ",") ::
        Term.renderFields width level rest

/-- The line of a statement at a level. -/
def Stmt.render (width level : Nat) : Stmt → String
  | .assign target value =>
      margin width level ++ target.render width level ++ " = " ++ value.render width level ++ ";"
  | .ret value => margin width level ++ "return " ++ value.render width level ++ ";"

/-- The lines of statements at a level. -/
def Stmt.renderAll (width level : Nat) : List Stmt → List String
  | [] => []
  | stmt :: rest => stmt.render width level :: Stmt.renderAll width level rest

end

/-- The text of a parameter. -/
def Param.render (param : Param) : String :=
  (if param.mutable then "mut " else "") ++ param.name ++ ": " ++ param.ty.render

namespace Item

/-- The lines of attributes at a level, each ended by a newline. -/
def renderAttributes (width level : Nat) (attributes : List String) : String :=
  String.join (attributes.map fun text =>
    margin width level ++ "#[" ++ text ++ "]\n")

/-- The line of a field of a struct at a level. -/
def renderField (width level : Nat) (field : String × Ty) : String :=
  margin width level ++ "pub " ++ field.1 ++ ": " ++ field.2.render ++ ","

/-- The lines of a function body between braces, which stand on lines of their own also
when there is nothing between them. -/
def renderBody (width level : Nat) (body : List Stmt) : String :=
  "\x7b\n" ++ String.join ((Stmt.renderAll width (level + 1) body).map (· ++ "\n")) ++
    margin width level ++ "\x7d"

/-- The text of an item at a level, without a newline at its end. -/
def render (width level : Nat) : Item → String
  | .struct name fields attributes =>
      renderAttributes width level attributes ++ margin width level ++ "pub struct " ++ name ++
        " " ++ Term.bracedLines width level (fields.map (renderField width (level + 1)))
  | .function name params result body attributes =>
      renderAttributes width level attributes ++ margin width level ++ "pub fn " ++ name ++
        "(" ++ String.intercalate ", " (params.map Param.render) ++ ") -> " ++ result.render ++
        " " ++ renderBody width level body
  | .const name ty value =>
      margin width level ++ "pub const " ++ name ++ ": " ++ ty.render ++ " = " ++
        value.render width level ++ ";"
  | .val name value =>
      margin width level ++ "let " ++ name ++ " = " ++ value.render width level ++ ";"
  | .synonym name ty => margin width level ++ "pub type " ++ name ++ " = " ++ ty.render ++ ";"

end Item

/-- The text of a program: its imports, a blank line, then its items with a blank line
between any two. -/
def Program.render (width : Nat) (program : Program) : String :=
  String.join (program.imports.map fun path => "use " ++ path ++ ";\n") ++ "\n" ++
    String.intercalate "\n" (program.items.map fun item => item.render width 0 ++ "\n")

end SpecTranspiler

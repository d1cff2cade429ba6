/-!
# Types of the target language

`Ty.render` is the one-line text of a type. It is used wherever a type is written, and
names the record of a construction.
-/

namespace SpecTranspiler

/-- A type of the target language. -/
inductive Ty where
  | record (fields : List (String × Ty))
  | str
  | uint64
  | bool
  | tuple (elements : List Ty)
  | list (element : Ty)
  | set (element : Ty)
  | map (key value : Ty)
  | named (name : String)
  | ref (inner : Ty) (mutable : Bool)
  deriving Repr, Inhabited

namespace Ty

/-- The type that is left to be inferred. -/
def wildcard : Ty := .named "_"

/-- A set whose elements are left to be inferred. -/
def wildcardSet : Ty := .set wildcard

/-- A map whose keys and values are left to be inferred. -/
def wildcardMap : Ty := .map wildcard wildcard

/-- The type is left to be inferred. -/
def isWildcard : Ty → Bool
  | .named name => name == "_"
  | _ => false

/-- Texts between parentheses, where a single one is followed by a comma. -/
def parenthesized (texts : List String) : String :=
  match texts with
  | [text] => "(" ++ text ++ ",)"
  | _ => "(" ++ String.intercalate ", " texts ++ ")"

/-- The fields of a record type between braces. -/
def braced (fields : List String) : String :=
  match fields with
  | [] => "struct \x7b\x7d"
  | _ => "struct \x7b " ++ String.intercalate ", " fields ++ " \x7d"

mutual

/-- The text of a type. -/
def render : Ty → String
  | .record fields => braced (renderFields fields)
  | .str => "String"
  | .uint64 => "u64"
  | .bool => "bool"
  | .tuple elements => parenthesized (renderAll elements)
  | .list element => "[" ++ element.render ++ "]"
  | .set element => "HashSet<" ++ element.render ++ ">"
  | .map key value => "HashMap<" ++ key.render ++ ", " ++ value.render ++ ">"
  | .named name => name
  | .ref inner true => "&mut " ++ inner.render
  | .ref inner false => "&" ++ inner.render

/-- The texts of types. -/
def renderAll : List Ty → List String
  | [] => []
  | ty :: rest => ty.render :: renderAll rest

/-- The texts of the fields of a record type. -/
def renderFields : List (String × Ty) → List String
  | [] => []
  | (name, ty) :: rest => ("pub " ++ name ++ ": " ++ ty.render) :: renderFields rest

end

end Ty

end SpecTranspiler

import SpecTranspiler.Json.Basic
import SpecTranspiler.Target.Item

/-!
# Programs as JSON

A construct becomes an object with one member, whose key tells the construct and whose
value its parts; a construct without parts becomes a string. `toJson` lists the parts in
the order in which a reader wants to see them. `ofJson?` reads the form back from values
that list members by ascending key, as values read from a text do.
-/

namespace SpecTranspiler

/-- A construct with its parts. -/
def Json.tagged (tag : String) (parts : Json) : Json :=
  .obj [(tag, parts)]

namespace Ty

mutual

/-- A type as JSON. -/
def toJson : Ty → Json
  | .record fields => .tagged "Struct" (.arr (fieldsToJson fields))
  | .str => .str "Str"
  | .uint64 => .str "UInt64"
  | .bool => .str "Bool"
  | .tuple elements => .tagged "Tuple" (.arr (listToJson elements))
  | .list element => .tagged "List" element.toJson
  | .set element => .tagged "Set" element.toJson
  | .map key value => .tagged "Map" (.arr [key.toJson, value.toJson])
  | .named name => .tagged "Named" (.str name)
  | .ref inner mutable =>
      .tagged "Ref" (.obj [("inner", inner.toJson), ("mutable", .bool mutable)])

/-- Types as JSON. -/
def listToJson : List Ty → List Json
  | [] => []
  | ty :: rest => ty.toJson :: listToJson rest

/-- The fields of a record type as JSON. -/
def fieldsToJson : List (String × Ty) → List Json
  | [] => []
  | (name, ty) :: rest => .obj [("name", .str name), ("ty", ty.toJson)] :: fieldsToJson rest

end

mutual

/-- Read a type. -/
def ofJson? : Json → Option Ty
  | .str "Str" => some .str
  | .str "UInt64" => some .uint64
  | .str "Bool" => some .bool
  | .obj [("Struct", .arr fields)] => (fieldsOfJson? fields).map .record
  | .obj [("Tuple", .arr elements)] => (listOfJson? elements).map .tuple
  | .obj [("List", element)] => (ofJson? element).map .list
  | .obj [("Set", element)] => (ofJson? element).map .set
  | .obj [("Map", .arr [key, value])] => do
      let key ← ofJson? key
      let value ← ofJson? value
      some (.map key value)
  | .obj [("Named", .str name)] => some (.named name)
  | .obj [("Ref", .obj [("inner", inner), ("mutable", .bool mutable)])] =>
      (ofJson? inner).map (.ref · mutable)
  | _ => none

/-- Read types. -/
def listOfJson? : List Json → Option (List Ty)
  | [] => some []
  | value :: rest => do
      let ty ← ofJson? value
      let rest ← listOfJson? rest
      some (ty :: rest)

/-- Read the fields of a record type. -/
def fieldsOfJson? : List Json → Option (List (String × Ty))
  | [] => some []
  | .obj [("name", .str name), ("ty", ty)] :: rest => do
      let ty ← ofJson? ty
      let rest ← fieldsOfJson? rest
      some ((name, ty) :: rest)
  | _ :: _ => none

end

end Ty

namespace Literal

/-- A literal as JSON. -/
def toJson : Literal → Json
  | .uint64 value => .tagged "UInt64" (.ofNat value.toNat)
  | .str value => .tagged "String" (.str value)
  | .bool value => .tagged "Bool" (.bool value)

/-- Read a literal. -/
def ofJson? : Json → Option Literal
  | .obj [("UInt64", .num value)] => value.toUInt64?.map .uint64
  | .obj [("String", .str value)] => some (.str value)
  | .obj [("Bool", .bool value)] => some (.bool value)
  | _ => none

end Literal

mutual

/-- A term as JSON. -/
def Term.toJson : Term → Json
  | .literal value => .tagged "Literal" value.toJson
  | .name name => .tagged "Variable" (.str name)
  | .field base field =>
      .tagged "FieldAccess" (.obj [("base", base.toJson), ("field", .str field)])
  | .record name fields =>
      .tagged "StructCons"
        (.obj [("struct_name", .str name), ("fields", .arr (Term.fieldsToJson fields))])
  | .variant enum variant args =>
      .tagged "EnumCons"
        (.obj [("enum_name", .str enum), ("variant", .str variant),
          ("args", .arr (Term.listToJson args))])
  | .tuple elements => .tagged "Tuple" (.arr (Term.listToJson elements))
  | .borrow operand => .tagged "Borrow" operand.toJson
  | .call function types args =>
      .tagged "FunctionCall"
        (.obj [("name", .str function), ("type_args", .arr (Ty.listToJson types)),
          ("args", .arr (Term.listToJson args))])
  | .typeCall ty method types args =>
      .tagged "StaticMethodCall"
        (.obj [("ty", ty.toJson), ("method", .str method),
          ("type_args", .arr (Ty.listToJson types)), ("args", .arr (Term.listToJson args))])
  | .methodCall receiver method types args =>
      .tagged "MethodCall"
        (.obj [("receiver", receiver.toJson), ("method", .str method),
          ("type_args", .arr (Ty.listToJson types)), ("args", .arr (Term.listToJson args))])
  | .ifElse condition yes no =>
      .tagged "IfElse"
        (.obj [("cond", condition.toJson), ("then_branch", yes.toJson),
          ("else_branch", no.toJson)])
  | .negate operand => .tagged "Not" operand.toJson
  | .add left right => .tagged "Add" (.arr [left.toJson, right.toJson])
  | .bind name value body =>
      .tagged "Let"
        (.obj [("name", .str name), ("value", value.toJson), ("body", body.toJson)])
  | .block body => .tagged "Block" (.arr (Stmt.listToJson body))
  | .todo => .str "Todo"

/-- Terms as JSON. -/
def Term.listToJson : List Term → List Json
  | [] => []
  | term :: rest => term.toJson :: Term.listToJson rest

/-- The fields of a record construction as JSON. -/
def Term.fieldsToJson : List (String × Term) → List Json
  | [] => []
  | (name, value) :: rest =>
      .obj [("name", .str name), ("value", value.toJson)] :: Term.fieldsToJson rest

/-- A statement as JSON. -/
def Stmt.toJson : Stmt → Json
  | .assign target value =>
      .tagged "Assign" (.obj [("dest", target.toJson), ("value", value.toJson)])
  | .ret value => .tagged "Return" value.toJson

/-- Statements as JSON. -/
def Stmt.listToJson : List Stmt → List Json
  | [] => []
  | stmt :: rest => stmt.toJson :: Stmt.listToJson rest

end

mutual

/-- Read a term. -/
def Term.ofJson? : Json → Option Term
  | .str tag => if tag = "Todo" then some .todo else none
  | .obj [(tag, parts)] =>
      match tag with
      | "Literal" => (Literal.ofJson? parts).map .literal
      | "Variable" =>
          match parts with
          | .str name => some (.name name)
          | _ => none
      | "FieldAccess" =>
          match parts with
          | .obj [("base", base), ("field", .str field)] =>
              (Term.ofJson? base).map (.field · field)
          | _ => none
      | "StructCons" =>
          match parts with
          | .obj [("fields", .arr fields), ("struct_name", .str name)] =>
              (Term.fieldsOfJson? fields).map (.record name)
          | _ => none
      | "EnumCons" =>
          match parts with
          | .obj [("args", .arr args), ("enum_name", .str enum), ("variant", .str variant)] =>
              (Term.listOfJson? args).map (.variant enum variant)
          | _ => none
      | "Tuple" =>
          match parts with
          | .arr elements => (Term.listOfJson? elements).map .tuple
          | _ => none
      | "Borrow" => (Term.ofJson? parts).map .borrow
      | "FunctionCall" =>
          match parts with
          | .obj [("args", .arr args), ("name", .str function), ("type_args", .arr types)] => do
              let types ← Ty.listOfJson? types
              let args ← Term.listOfJson? args
              some (.call function types args)
          | _ => none
      | "StaticMethodCall" =>
          match parts with
          | .obj [("args", .arr args), ("method", .str method), ("ty", ty),
              ("type_args", .arr types)] => do
              let ty ← Ty.ofJson? ty
              let types ← Ty.listOfJson? types
              let args ← Term.listOfJson? args
              some (.typeCall ty method types args)
          | _ => none
      | "MethodCall" =>
          match parts with
          | .obj [("args", .arr args), ("method", .str method), ("receiver", receiver),
              ("type_args", .arr types)] => do
              let receiver ← Term.ofJson? receiver
              let types ← Ty.listOfJson? types
              let args ← Term.listOfJson? args
              some (.methodCall receiver method types args)
          | _ => none
      | "IfElse" =>
          match parts with
          | .obj [("cond", condition), ("else_branch", no), ("then_branch", yes)] => do
              let condition ← Term.ofJson? condition
              let yes ← Term.ofJson? yes
              let no ← Term.ofJson? no
              some (.ifElse condition yes no)
          | _ => none
      | "Not" => (Term.ofJson? parts).map .negate
      | "Add" =>
          match parts with
          | .arr [left, right] => do
              let left ← Term.ofJson? left
              let right ← Term.ofJson? right
              some (.add left right)
          | _ => none
      | "Let" =>
          match parts with
          | .obj [("body", body), ("name", .str name), ("value", value)] => do
              let value ← Term.ofJson? value
              let body ← Term.ofJson? body
              some (.bind name value body)
          | _ => none
      | "Block" =>
          match parts with
          | .arr body => (Stmt.listOfJson? body).map .block
          | _ => none
      | _ => none
  | _ => none

/-- Read terms. -/
def Term.listOfJson? : List Json → Option (List Term)
  | [] => some []
  | value :: rest => do
      let term ← Term.ofJson? value
      let rest ← Term.listOfJson? rest
      some (term :: rest)

/-- Read the fields of a record construction. -/
def Term.fieldsOfJson? : List Json → Option (List (String × Term))
  | [] => some []
  | .obj [("name", .str name), ("value", value)] :: rest => do
      let value ← Term.ofJson? value
      let rest ← Term.fieldsOfJson? rest
      some ((name, value) :: rest)
  | _ :: _ => none

/-- Read a statement. -/
def Stmt.ofJson? : Json → Option Stmt
  | .obj [("Assign", .obj [("dest", target), ("value", value)])] => do
      let target ← Term.ofJson? target
      let value ← Term.ofJson? value
      some (.assign target value)
  | .obj [("Return", value)] => (Term.ofJson? value).map .ret
  | _ => none

/-- Read statements. -/
def Stmt.listOfJson? : List Json → Option (List Stmt)
  | [] => some []
  | value :: rest => do
      let stmt ← Stmt.ofJson? value
      let rest ← Stmt.listOfJson? rest
      some (stmt :: rest)

end

/-- Read a list of strings. -/
def Json.stringsOf? : Json → Option (List String)
  | .arr texts => texts.mapM fun text => match text with
      | .str text => some text
      | _ => none
  | _ => none

namespace Param

/-- A parameter as JSON. -/
def toJson (param : Param) : Json :=
  .obj [("name", .str param.name), ("ty", param.ty.toJson), ("mutable", .bool param.mutable)]

/-- Read a parameter. -/
def ofJson? : Json → Option Param
  | .obj [("mutable", .bool mutable), ("name", .str name), ("ty", ty)] =>
      (Ty.ofJson? ty).map (⟨name, ·, mutable⟩)
  | _ => none

end Param

namespace Item

/-- An item as JSON. -/
def toJson : Item → Json
  | .struct name fields attributes =>
      .tagged "Struct"
        (.obj [("name", .str name), ("fields", .arr (Ty.fieldsToJson fields)),
          ("attributes", .ofStrings attributes)])
  | .function name params result body attributes =>
      .tagged "Function"
        (.obj [("name", .str name), ("params", .arr (params.map Param.toJson)),
          ("return_type", result.toJson), ("body", .arr (Stmt.listToJson body)),
          ("attributes", .ofStrings attributes)])
  | .const name ty value =>
      .tagged "Const" (.obj [("name", .str name), ("ty", ty.toJson), ("value", value.toJson)])
  | .val name value => .tagged "Val" (.obj [("name", .str name), ("value", value.toJson)])
  | .synonym name ty => .tagged "TypeAlias" (.obj [("name", .str name), ("ty", ty.toJson)])

/-- Read an item. -/
def ofJson? : Json → Option Item
  | .obj [("Struct",
        .obj [("attributes", attributes), ("fields", .arr fields), ("name", .str name)])] => do
      let fields ← Ty.fieldsOfJson? fields
      let attributes ← attributes.stringsOf?
      some (.struct name fields attributes)
  | .obj [("Function",
        .obj [("attributes", attributes), ("body", .arr body), ("name", .str name),
          ("params", .arr params), ("return_type", result)])] => do
      let params ← params.mapM Param.ofJson?
      let result ← Ty.ofJson? result
      let body ← Stmt.listOfJson? body
      let attributes ← attributes.stringsOf?
      some (.function name params result body attributes)
  | .obj [("Const", .obj [("name", .str name), ("ty", ty), ("value", value)])] => do
      let ty ← Ty.ofJson? ty
      let value ← Term.ofJson? value
      some (.const name ty value)
  | .obj [("Val", .obj [("name", .str name), ("value", value)])] =>
      (Term.ofJson? value).map (.val name)
  | .obj [("TypeAlias", .obj [("name", .str name), ("ty", ty)])] =>
      (Ty.ofJson? ty).map (.synonym name)
  | _ => none

end Item

namespace Program

/-- An import as JSON. -/
def importToJson (path : String) : Json :=
  .obj [("path", .str path)]

/-- Read an import. -/
def importOfJson? : Json → Option String
  | .obj [("path", .str path)] => some path
  | _ => none

/-- A program as JSON. -/
def toJson (program : Program) : Json :=
  .obj [("imports", .arr (program.imports.map importToJson)),
    ("decls", .arr (program.items.map Item.toJson))]

/-- Read a program. -/
def ofJson? : Json → Option Program
  | .obj [("decls", .arr items), ("imports", .arr imports)] => do
      let imports ← imports.mapM importOfJson?
      let items ← items.mapM Item.ofJson?
      some ⟨imports, items⟩
  | _ => none

end Program

end SpecTranspiler

import SpecTranspiler.Target.Term

/-!
# Items and programs of the target language
-/

namespace SpecTranspiler

/-- A parameter of a function. -/
structure Param where
  name : String
  ty : Ty
  mutable : Bool

/-- An item of a program. `val` is a local binding, which no finished program has. -/
inductive Item where
  | struct (name : String) (fields : List (String × Ty)) (attributes : List String)
  | function (name : String) (params : List Param) (result : Ty) (body : List Stmt)
      (attributes : List String)
  | const (name : String) (ty : Ty) (value : Term)
  | val (name : String) (value : Term)
  | synonym (name : String) (ty : Ty)

/-- The name that an item declares. -/
def Item.name : Item → String
  | .struct name .. => name
  | .function name .. => name
  | .const name .. => name
  | .val name .. => name
  | .synonym name .. => name

/-- A program: the paths it imports, and its items in order. -/
structure Program where
  imports : List String
  items : List Item

end SpecTranspiler

import SpecTranspiler.Ir.Document
import SpecTranspiler.Lower.Item

/-!
# Programs from documents

The declarations of all modules are lowered in order. Modules of libraries and tests are
left out, and so are values at the top level, these with a warning.
-/

namespace SpecTranspiler

namespace Module

/-- The ends of the names of modules that hold libraries or tests. -/
def auxiliarySuffixes : List String :=
  ["_stdlib", "_test"]

/-- The module of a name holds a library or tests. -/
def isAuxiliaryName (name : String) : Bool :=
  auxiliarySuffixes.any fun suffix => suffix.toList.isSuffixOf name.toList

/-- Lower a declaration at the top level of a module. -/
def lowerTopLevel (declaration : Json) : Lowering (Option Item) := do
  match ← Item.lower declaration with
  | some (.val name _) =>
      Lowering.warn (.topLevelVal name)
      return none
  | item => return item

/-- Lower the declarations of a module. -/
def lower (module : Module) : Lowering (List Item) := do
  let items ← module.declarations.mapM lowerTopLevel
  return items.filterMap id

end Module

namespace Program

/-- The paths that every program imports. -/
def fixedImports : List String :=
  ["std::collections::HashMap", "std::collections::HashSet",
    "serde::\x7bDeserialize, Serialize\x7d"]

/-- Lower the modules that hold neither libraries nor tests. -/
def lowerModules (modules : List Module) : Lowering (List Item) := do
  let items ← (modules.filter fun part => !Module.isAuxiliaryName part.name).mapM Module.lower
  return items.flatten

end Program

/-- What a document becomes: a program, the names of its types, and the warnings. -/
structure Resolution where
  program : Program
  typeNames : TypeNames
  warnings : List Warning

/-- Lower a document. The first fault ends the work. -/
def Document.lower (document : Document) : Except Fault Resolution := do
  let typeNames ← TypeNames.index document.types
  let (items, warnings) := (Program.lowerModules document.modules).runFresh
  return ⟨⟨Program.fixedImports, ← items⟩, typeNames, warnings.toList⟩

end SpecTranspiler

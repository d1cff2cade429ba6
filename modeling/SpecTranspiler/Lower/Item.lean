import SpecTranspiler.Lower.Term

/-!
# Items from declarations

Type definitions become items, and so do definitions. Imports are dropped, since every
program has the same imports. Declarations of another kind are dropped with a warning.
-/

namespace SpecTranspiler

/-- The kinds of declarations. -/
inductive ItemKind where
  | typedef
  | importing
  | definition
  deriving DecidableEq, Repr

/-- The kind of declarations under a name. -/
def ItemKind.ofName? (name : String) : Option ItemKind :=
  match name with
  | "typedef" => some .typedef
  | "import" => some .importing
  | "def" => some .definition
  | _ => none

namespace Item

/-- The attributes of every struct. -/
def structAttributes : List String :=
  ["derive(Debug, Clone, Default, Serialize, Deserialize)"]

/-- Lower a type definition. A record type becomes a struct, any other a synonym. -/
def ofTypedef (node : Node) : Except Fault Item := do
  let name ← Node.string node "name" "typedef"
  let ⟨descriptor, _⟩ ← Node.child node "type" ("typedef " ++ ticked name)
  match ← Ty.ofDescriptor descriptor with
  | .record fields => return .struct name fields structAttributes
  | ty => return .synonym name ty

/-- Lower a declaration. There is no item for one that is dropped. -/
def lower (declaration : Json) : Lowering (Option Item) := do
  let node ← Node.ofValue declaration "declaration"
  let kind ← Node.string node "kind" "declaration"
  match ItemKind.ofName? kind with
  | some .typedef => return some (← ofTypedef node)
  | some .importing => return none
  | some .definition => lowerDefinition node
  | none =>
      Lowering.warn (.unsupportedDeclKind kind)
      return none

end Item

end SpecTranspiler

import SpecTranspiler.Ir.Node
import SpecTranspiler.Target.Ty

/-!
# Types from their descriptors

A type descriptor is a node whose kind tells how the type is built. The kinds are a closed
list, and any other kind is a fault.
-/

namespace SpecTranspiler

/-- The kinds of type descriptors. -/
inductive TypeKind where
  | record
  | str
  | named
  | list
  | int
  | set
  | function
  | bool
  | tuple
  deriving DecidableEq, Repr

/-- The kind of type descriptors under a name. -/
def TypeKind.ofName? (name : String) : Option TypeKind :=
  match name with
  | "rec" => some .record
  | "str" => some .str
  | "const" => some .named
  | "list" => some .list
  | "int" => some .int
  | "set" => some .set
  | "fun" => some .function
  | "bool" => some .bool
  | "tup" => some .tuple
  | _ => none

namespace Ty

mutual

/-- The type that a descriptor describes. -/
def ofDescriptor (descriptor : Json) : Except Fault Ty :=
  match descriptor with
  | .obj node => do
      let kind ← Node.string node "kind" "type descriptor"
      let context := ticked kind ++ " type"
      match TypeKind.ofName? kind with
      | some .record =>
          let ⟨row, _⟩ ← Node.object node "fields" context
          let ⟨entries, _⟩ ← Node.array row "fields" context
          return .record (← ofRow context entries)
      | some .str => return .str
      | some .named => return .named (← Node.string node "name" context)
      | some .list =>
          let ⟨element, _⟩ ← Node.child node "elem" context
          return .list (← ofDescriptor element)
      | some .int => return .uint64
      | some .set =>
          let ⟨element, _⟩ ← Node.child node "elem" context
          return .set (← ofDescriptor element)
      | some .function =>
          let ⟨key, _⟩ ← Node.child node "arg" context
          let key ← ofDescriptor key
          let ⟨value, _⟩ ← Node.child node "res" context
          return .map key (← ofDescriptor value)
      | some .bool => return .bool
      | some .tuple =>
          let ⟨row, _⟩ ← Node.object node "fields" context
          let ⟨entries, _⟩ ← Node.array row "fields" context
          return .tuple ((← ofRow context entries).map Prod.snd)
      | none => throw (.unknownTypeKind kind)
  | _ => throw (.expectedObject "type descriptor")
termination_by sizeOf descriptor
decreasing_by
  all_goals
    simp only [Json.obj.sizeOf_spec]
    omega

/-- The names and types that the entries of a row describe. -/
def ofRow (context : String) (entries : List Json) : Except Fault (List (String × Ty)) :=
  match entries with
  | [] => return []
  | .obj entry :: rest => do
      let name ← Node.string entry "fieldName" context
      let ⟨ty, _⟩ ← Node.child entry "fieldType" context
      let ty ← ofDescriptor ty
      return (name, ty) :: (← ofRow context rest)
  | _ :: _ => throw (.expectedObject context)
termination_by sizeOf entries
decreasing_by
  all_goals
    simp only [List.cons.sizeOf_spec, Json.obj.sizeOf_spec]
    omega

end

end Ty

end SpecTranspiler

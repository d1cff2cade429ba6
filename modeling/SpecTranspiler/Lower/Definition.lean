import SpecTranspiler.Lower.Descriptor
import SpecTranspiler.Target.Item

/-!
# The parts of definitions

A definition has a qualifier, which tells what it becomes. The definition of a function
holds its parameters, its types and its body in several places.
-/

namespace SpecTranspiler

/-- The qualifiers of definitions. -/
inductive Qualifier where
  | constant
  | function
  | val
  deriving DecidableEq, Repr

/-- The qualifier under a name. -/
def Qualifier.ofName? (name : String) : Option Qualifier :=
  match name with
  | "pureval" => some .constant
  | "puredef" => some .function
  | "val" => some .val
  | _ => none

/-- The context of the fields of a definition. -/
def definitionContext (qualifier name : String) : String :=
  ticked qualifier ++ " definition " ++ ticked name

namespace Item

/-- The name of a parameter. -/
def paramName (context : String) (value : Json) : Except Fault String := do
  Node.string (← Node.ofValue value context) "name" context

/-- The parameters of a function, the type that its body is expected to have, and its body.

A definition that takes parameters holds them with the body in a node of its own, and the
types of parameters and result in its annotation. Otherwise the annotation is the type of
the result. -/
def signature (name : String) (node : Node) (context : String) :
    Except Fault (List Param × Ty × Node.Part Json node) := do
  let ⟨lambda, inside⟩ ← Node.object node "expr" context
  let ⟨typing, _⟩ ← Node.child node "typeAnnotation" context
  match lambda.lookup "params" with
  | none => return ([], ← Ty.ofDescriptor typing, ← Node.child node "expr" context)
  | some _ =>
      let typing ← Node.ofValue typing context
      let ⟨params, _⟩ ← Node.array lambda "params" context
      let names ← params.mapM (paramName context)
      let ⟨args, _⟩ ← Node.array typing "args" context
      let types ← args.mapM Ty.ofDescriptor
      if names.length ≠ types.length then
        throw (.paramCountMismatch name names.length types.length)
      let ⟨result, _⟩ ← Node.child typing "res" context
      let result ← Ty.ofDescriptor result
      let ⟨body, small⟩ ← Node.child lambda "expr" context
      return (List.zipWith (⟨·, ·, true⟩) names types, result, ⟨body, Nat.lt_trans small inside⟩)

end Item

end SpecTranspiler

import SpecTranspiler.Lower.Definition
import SpecTranspiler.Lower.Monad

/-!
# Terms from expressions, items from definitions

An expression is lowered against the type expected of it, where one is known. The type does
one thing: it names the records that are constructed, since a record construction does not
name its own type. Expressions that cannot be expressed become the placeholder, with a
warning.

Expressions hold definitions and definitions hold expressions. Constants and functions become
items, and so do values, which are local bindings. Definitions with another qualifier are
dropped with a warning.
-/

namespace SpecTranspiler

/-- The kinds of expressions. -/
inductive TermKind where
  | str
  | int
  | bool
  | reference
  | binding
  | application
  deriving DecidableEq, Repr

/-- The kind of expressions under a name. -/
def TermKind.ofName? (name : String) : Option TermKind :=
  match name with
  | "str" => some .str
  | "int" => some .int
  | "bool" => some .bool
  | "name" => some .reference
  | "let" => some .binding
  | "app" => some .application
  | _ => none

/-- The operators that can be expressed. -/
inductive Operator where
  | sum
  | record
  | tuple
  | choice
  | negation
  | membership
  | keys
  | field
  deriving DecidableEq, Repr

namespace Operator

/-- The operator under a name. -/
def ofName? (name : String) : Option Operator :=
  match name with
  | "iadd" => some .sum
  | "Rec" => some .record
  | "Tup" => some .tuple
  | "ite" => some .choice
  | "not" => some .negation
  | "contains" => some .membership
  | "keys" => some .keys
  | "field" => some .field
  | _ => none

/-- The name of an operator. -/
def name : Operator → String
  | .sum => "iadd"
  | .record => "Rec"
  | .tuple => "Tup"
  | .choice => "ite"
  | .negation => "not"
  | .membership => "contains"
  | .keys => "keys"
  | .field => "field"

/-- The fault of giving an operator another number of operands. -/
def arityFault (operator : Operator) (expected : Arity) (args : List Json) : Fault :=
  .arityMismatch operator.name expected args.length

end Operator

/-- The types expected of the elements of a tuple: those of a tuple type of the same
length, and otherwise none. -/
def Ty.expectedElements (expected : Option Ty) (count : Nat) : List (Option Ty) :=
  match expected with
  | some (.tuple elements) =>
      if elements.length = count then elements.map some else List.replicate count none
  | _ => List.replicate count none

mutual

/-- Lower an expression against the type expected of it. -/
def Term.lower (value : Json) (expected : Option Ty) : Lowering Term :=
  match value with
  | .obj node => do
      let kind ← Node.string node "kind" "expression"
      let context := ticked kind ++ " expression"
      match TermKind.ofName? kind with
      | some .str => return .literal (.str (← Node.string node "value" context))
      | some .int => return .literal (.uint64 (← Node.uint64 node "value" context))
      | some .bool => return .literal (.bool (← Node.boolean node "value" context))
      | some .reference => return .name (← Node.string node "name" context)
      | some .binding =>
          let ⟨definition, _⟩ ← Node.object node "opdef" context
          let qualifier ← Node.string definition "qualifier" context
          if qualifier = "val" then
            match ← Item.lowerDefinition definition with
            | some (.val label bound) =>
                let ⟨body, _⟩ ← Node.child node "expr" context
                return .bind label bound (← Term.lower body expected)
            | _ => return .todo
          else
            let name ← Node.string definition "name" context
            Lowering.warn (.unsupportedLetBinding name qualifier)
            return .todo
      | some .application =>
          let opcode ← Node.string node "opcode" context
          let context := ticked opcode ++ " application"
          let ⟨args, _⟩ ← Node.array node "args" context
          match Operator.ofName? opcode with
          | some operator => Term.lowerApplication operator context expected args
          | none =>
              Lowering.warn (.unsupportedOpcode opcode)
              return .todo
      | none =>
          Lowering.warn (.unsupportedExprKind kind)
          return .todo
  | _ => throw (.expectedObject "expression")
termination_by 2 * sizeOf value
decreasing_by
  all_goals
    simp only [Json.obj.sizeOf_spec]
    omega

/-- Lower a definition, by its qualifier. There is no item for one that is dropped. -/
def Item.lowerDefinition (node : Node) : Lowering (Option Item) := do
  let name ← Node.string node "name" "definition"
  let qualifier ← Node.string node "qualifier" "definition"
  let context := definitionContext qualifier name
  match Qualifier.ofName? qualifier with
  | some .constant =>
      let ⟨descriptor, _⟩ ← Node.child node "typeAnnotation" context
      let ty ← Ty.ofDescriptor descriptor
      let ⟨value, _⟩ ← Node.child node "expr" context
      return some (.const name ty (← Term.lower value (some ty)))
  | some .function =>
      let (params, result, ⟨body, _⟩) ← Item.signature name node context
      let body ← Term.lower body (some result)
      return some (.function name params result [.ret body] [])
  | some .val =>
      let ⟨value, _⟩ ← Node.child node "expr" context
      return some (.val name (← Term.lower value none))
  | none =>
      Lowering.warn (.unsupportedQualifier name qualifier)
      return none
termination_by 2 * sizeOf node
decreasing_by
  all_goals omega

/-- Lower the application of an operator to operands. -/
def Term.lowerApplication (operator : Operator) (context : String) (expected : Option Ty)
    (args : List Json) : Lowering Term :=
  match operator with
  | .sum =>
      match args with
      | [left, right] => do
          let left ← Term.lower left (some .uint64)
          let right ← Term.lower right (some .uint64)
          return .add left right
      | _ => throw (operator.arityFault (.exactly 2) args)
  | .record =>
      if args.length % 2 ≠ 0 then throw (operator.arityFault .even args)
      else
        match expected with
        | some ty => do return .record ty.render (← Term.lowerFields context args)
        | none => do
            Lowering.warn .recordWithoutExpectedType
            return .todo
  | .tuple => do return .tuple (← Term.lowerEach args (Ty.expectedElements expected args.length))
  | .choice =>
      match args with
      | [condition, yes, no] => do
          let condition ← Term.lower condition (some .bool)
          let yes ← Term.lower yes expected
          let no ← Term.lower no expected
          return .ifElse condition yes no
      | _ => throw (operator.arityFault (.exactly 3) args)
  | .negation =>
      match args with
      | [operand] => do return .negate (← Term.lower operand (some .bool))
      | _ => throw (operator.arityFault (.exactly 1) args)
  | .membership =>
      match args with
      | [set, element] => do
          let set ← Term.lower set (some Ty.wildcardSet)
          let element ← Term.lower element none
          return Term.containsKey set element
      | _ => throw (operator.arityFault (.exactly 2) args)
  | .keys =>
      match args with
      | [map] => do return Term.keySet (← Term.lower map (some Ty.wildcardMap))
      | _ => throw (operator.arityFault (.exactly 1) args)
  | .field =>
      match args with
      | [base, label] => do
          let base ← Term.lower base none
          let label ← Node.ofValue label context
          return .field base (← Node.string label "value" context)
      | _ => throw (operator.arityFault (.exactly 2) args)
termination_by 2 * sizeOf args + 1
decreasing_by
  all_goals
    try simp only [List.cons.sizeOf_spec, List.nil.sizeOf_spec]
    omega

/-- Lower values against the types expected of them, from the left. -/
def Term.lowerEach (args : List Json) (expected : List (Option Ty)) : Lowering (List Term) :=
  match args, expected with
  | arg :: args, ty :: types => do
      let term ← Term.lower arg ty
      return term :: (← Term.lowerEach args types)
  | _, _ => return []
termination_by 2 * sizeOf args
decreasing_by
  all_goals
    simp only [List.cons.sizeOf_spec]
    omega

/-- Lower the operands of a record construction, which are labels and values in turn. -/
def Term.lowerFields (context : String) (args : List Json) : Lowering (List (String × Term)) :=
  match args with
  | label :: value :: rest => do
      let label ← Node.ofValue label context
      let name ← Node.string label "value" context
      let term ← Term.lower value none
      return (name, term) :: (← Term.lowerFields context rest)
  | _ => return []
termination_by 2 * sizeOf args
decreasing_by
  all_goals
    simp only [List.cons.sizeOf_spec]
    omega

end

end SpecTranspiler

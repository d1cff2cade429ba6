import SpecTranspiler.Proofs.ExactNumbers
import SpecTranspiler.Proofs.TermDerivation

/-!
# The expressions that can be lowered

`Term.Grammar` lists the expressions that can be lowered against an optional expected type. Which
parts of a node have to be expressions themselves depends on its operator, on the qualifier of its
definition and on whether a type is expected: parts that are not lowered may be anything.
`Term.lower_succeeds_iff_grammar` says that lowering succeeds on exactly these expressions.
-/

namespace SpecTranspiler

/-- The value labels a field: it is an object with a text as its value. -/
def Json.IsLabel (value : Json) : Prop :=
  ∃ (label : Node) (name : String), value = .obj label ∧ label.lookup "value" = some (.str name)

/-- The expressions that can be lowered against an optional expected type. -/
inductive Term.Grammar : Option Ty → Json → Prop where
  | str {expected : Option Ty} {node : Node} {text : String}
      (kindField : node.lookup "kind" = some (.str "str"))
      (valueField : node.lookup "value" = some (.str text)) :
      Term.Grammar expected (.obj node)
  | bool {expected : Option Ty} {node : Node} {truth : Bool}
      (kindField : node.lookup "kind" = some (.str "bool"))
      (valueField : node.lookup "value" = some (.bool truth)) :
      Term.Grammar expected (.obj node)
  | name {expected : Option Ty} {node : Node} {name : String}
      (kindField : node.lookup "kind" = some (.str "name"))
      (nameField : node.lookup "name" = some (.str name)) :
      Term.Grammar expected (.obj node)
  | int {expected : Option Ty} {node : Node} {number : Json.Number} {n : Nat}
      (kindField : node.lookup "kind" = some (.str "int"))
      (valueField : node.lookup "value" = some (.num number))
      (exact : number.toRat = n) (small : n < 2 ^ 64) : Term.Grammar expected (.obj node)
  | binding {expected : Option Ty} {node definition : Node} {label : String} {value body : Json}
      (binds : node.Binds definition "val" label)
      (valueField : definition.lookup "expr" = some value)
      (bodyField : node.lookup "expr" = some body)
      (bound : Term.Grammar none value) (rest : Term.Grammar expected body) :
      Term.Grammar expected (.obj node)
  | otherBinding {expected : Option Ty} {node definition : Node} {qualifier label : String}
      (binds : node.Binds definition qualifier label) (other : qualifier ≠ "val") :
      Term.Grammar expected (.obj node)
  | sum {expected : Option Ty} {node : Node} {left right : Json}
      (applies : node.Applies "iadd" [left, right])
      (first : Term.Grammar (some .uint64) left) (second : Term.Grammar (some .uint64) right) :
      Term.Grammar expected (.obj node)
  | negation {expected : Option Ty} {node : Node} {operand : Json}
      (applies : node.Applies "not" [operand]) (inner : Term.Grammar (some .bool) operand) :
      Term.Grammar expected (.obj node)
  | choice {expected : Option Ty} {node : Node} {condition yes no : Json}
      (applies : node.Applies "ite" [condition, yes, no])
      (test : Term.Grammar (some .bool) condition) (whenTrue : Term.Grammar expected yes)
      (whenFalse : Term.Grammar expected no) : Term.Grammar expected (.obj node)
  | membership {expected : Option Ty} {node : Node} {set element : Json}
      (applies : node.Applies "contains" [set, element])
      (container : Term.Grammar (some (.set (.named "_"))) set)
      (key : Term.Grammar none element) : Term.Grammar expected (.obj node)
  | keys {expected : Option Ty} {node : Node} {map : Json} (applies : node.Applies "keys" [map])
      (container : Term.Grammar (some (.map (.named "_") (.named "_"))) map) :
      Term.Grammar expected (.obj node)
  | field {expected : Option Ty} {node : Node} {base label : Json}
      (applies : node.Applies "field" [base, label]) (inner : Term.Grammar none base)
      (labels : label.IsLabel) : Term.Grammar expected (.obj node)
  | tuple {expected : Option Ty} {node : Node} {args : List Json}
      (applies : node.Applies "Tup" args)
      (each : ∀ (index : Nat) arg, args[index]? = some arg →
        Term.Grammar (Ty.expectedElement expected args.length index) arg) :
      Term.Grammar expected (.obj node)
  | record {ty : Ty} {node : Node} {args : List Json} (applies : node.Applies "Rec" args)
      (even : args.length % 2 = 0)
      (labels : ∀ (index : Nat) arg, args[2 * index]? = some arg → arg.IsLabel)
      (values : ∀ (index : Nat) arg, args[2 * index + 1]? = some arg → Term.Grammar none arg) :
      Term.Grammar (some ty) (.obj node)
  | namelessRecord {node : Node} {args : List Json} (applies : node.Applies "Rec" args)
      (even : args.length % 2 = 0) : Term.Grammar none (.obj node)
  | otherOperator {expected : Option Ty} {node : Node} {opcode : String} {args : List Json}
      (applies : node.Applies opcode args) (other : opcode ∉ Operator.names) :
      Term.Grammar expected (.obj node)
  | otherKind {expected : Option Ty} {node : Node} {kind : String}
      (kindField : node.lookup "kind" = some (.str kind)) (other : kind ∉ TermKind.names) :
      Term.Grammar expected (.obj node)

namespace Term

/-- What has been lowered is an expression of the grammar. -/
theorem Lowers.grammar {value : Json} {expected : Option Ty} {term : Term}
    {warnings : List Warning} (derived : Lowers value expected term warnings) :
    Grammar expected value := by
  induction derived with
  | str kindField valueField => exact .str kindField valueField
  | int kindField valueField exact =>
      obtain ⟨n, small, same⟩ := Json.Number.exists_toUInt64?_eq_some.mp ⟨_, exact⟩
      exact .int kindField valueField same small
  | bool kindField valueField => exact .bool kindField valueField
  | reference kindField nameField => exact .name kindField nameField
  | binding binds valueField bodyField _ _ valueIH bodyIH =>
      exact .binding binds valueField bodyField valueIH bodyIH
  | otherBinding binds other => exact .otherBinding binds other
  | sum applies _ _ leftIH rightIH => exact .sum applies leftIH rightIH
  | @record _ _ fields applies labelFields _ ih =>
      refine .record applies (LoweredField.even_length_operands fields) ?_ ?_
      · intro index arg found
        rw [LoweredField.getElem?_operands_label] at found
        obtain ⟨field, member, rfl⟩ := Option.map_eq_some_iff.mp found
        exact ⟨_, _, rfl, labelFields field (List.mem_of_getElem? member)⟩
      · intro index arg found
        rw [LoweredField.getElem?_operands_value] at found
        obtain ⟨field, member, rfl⟩ := Option.map_eq_some_iff.mp found
        exact ih field (List.mem_of_getElem? member)
  | namelessRecord applies even => exact .namelessRecord applies even
  | @tuple _ expected parts applies types _ ih =>
      refine .tuple applies fun index arg found => ?_
      rw [List.getElem?_map] at found
      obtain ⟨part, member, rfl⟩ := Option.map_eq_some_iff.mp found
      obtain ⟨inside, -⟩ := List.getElem?_eq_some_iff.mp member
      have matching := Ty.getElem?_expectedElements expected inside
      rw [types, List.getElem?_map, member, Option.map_some, Option.some.injEq] at matching
      rw [List.length_map, ← matching]
      exact ih part (List.mem_of_getElem? member)
  | choice applies _ _ _ conditionIH yesIH noIH =>
      exact .choice applies conditionIH yesIH noIH
  | negation applies _ ih => exact .negation applies ih
  | membership applies _ _ setIH elementIH => exact .membership applies setIH elementIH
  | keys applies _ ih => exact .keys applies ih
  | field applies labelField _ ih => exact .field applies ih ⟨_, _, rfl, labelField⟩
  | otherOperator applies other =>
      exact .otherOperator applies (Operator.ofName?_eq_none.mp other)
  | otherKind kindField other => exact .otherKind kindField (TermKind.ofName?_eq_none.mp other)

/-- The expression can be lowered. -/
def Lowerable (value : Json) (expected : Option Ty) : Prop :=
  ∃ term warnings, Lowers value expected term warnings

/-- Elements that can be lowered one by one are lowered together. -/
theorem Lowerable.parts {args : List Json} {types : List (Option Ty)}
    (paired : types.length = args.length)
    (each : ∀ (index : Nat) arg ty, args[index]? = some arg → types[index]? = some ty →
      Lowerable arg ty) :
    ∃ parts : List Lowered, args = parts.map Lowered.value ∧ types = parts.map Lowered.expected ∧
      ∀ part ∈ parts, Lowers part.value part.expected part.term part.warnings := by
  induction args generalizing types with
  | nil =>
      obtain rfl := List.length_eq_zero_iff.mp paired
      exact ⟨[], rfl, rfl, List.forall_mem_nil _⟩
  | cons arg args ih =>
      obtain ⟨ty, types, rfl⟩ := List.exists_cons_of_length_eq_add_one paired
      obtain ⟨term, warnings, derived⟩ := each 0 arg ty rfl rfl
      obtain ⟨parts, rfl, rfl, all⟩ := ih (Nat.succ.inj paired) fun index =>
        each (index + 1)
      exact ⟨⟨arg, ty, term, warnings⟩ :: parts, rfl, rfl, List.forall_mem_cons.mpr ⟨derived, all⟩⟩

/-- Labels and values in turn are the operands of fields, if the values can be lowered. -/
theorem Lowerable.fields {args : List Json} (even : args.length % 2 = 0)
    (labels : ∀ (index : Nat) arg, args[2 * index]? = some arg → arg.IsLabel)
    (values : ∀ (index : Nat) arg, args[2 * index + 1]? = some arg → Lowerable arg none) :
    ∃ fields : List LoweredField, args = LoweredField.operands fields ∧
      (∀ field ∈ fields, field.label.lookup "value" = some (.str field.name)) ∧
      ∀ field ∈ fields, Lowers field.value none field.term field.warnings := by
  match args with
  | [] => exact ⟨[], rfl, List.forall_mem_nil _, List.forall_mem_nil _⟩
  | [_] => exact (Nat.one_ne_zero even).elim
  | label :: value :: rest =>
      obtain ⟨node, name, rfl, labelField⟩ := labels 0 label rfl
      obtain ⟨term, warnings, derived⟩ := values 0 value rfl
      have restEven : rest.length % 2 = 0 := by
        simp only [List.length_cons] at even
        omega
      obtain ⟨fields, rfl, names, all⟩ := Lowerable.fields restEven
        (fun index => labels (index + 1)) (fun index => values (index + 1))
      exact ⟨⟨node, name, value, term, warnings⟩ :: fields, rfl,
        List.forall_mem_cons.mpr ⟨labelField, names⟩, List.forall_mem_cons.mpr ⟨derived, all⟩⟩

/-- Every expression of the grammar can be lowered. -/
theorem Grammar.lowerable {expected : Option Ty} {value : Json}
    (accepted : Grammar expected value) : Lowerable value expected := by
  induction accepted with
  | str kindField valueField => exact ⟨_, _, .str kindField valueField⟩
  | bool kindField valueField => exact ⟨_, _, .bool kindField valueField⟩
  | name kindField nameField => exact ⟨_, _, .reference kindField nameField⟩
  | int kindField valueField exact small =>
      obtain ⟨n, read⟩ := Json.Number.exists_toUInt64?_eq_some.mpr ⟨_, small, exact⟩
      exact ⟨_, _, .int kindField valueField read⟩
  | binding binds valueField bodyField _ _ boundIH restIH =>
      obtain ⟨_, _, bound⟩ := boundIH
      obtain ⟨_, _, rest⟩ := restIH
      exact ⟨_, _, .binding binds valueField bodyField bound rest⟩
  | otherBinding binds other => exact ⟨_, _, .otherBinding binds other⟩
  | sum applies _ _ firstIH secondIH =>
      obtain ⟨_, _, first⟩ := firstIH
      obtain ⟨_, _, second⟩ := secondIH
      exact ⟨_, _, .sum applies first second⟩
  | negation applies _ ih =>
      obtain ⟨_, _, inner⟩ := ih
      exact ⟨_, _, .negation applies inner⟩
  | choice applies _ _ _ testIH trueIH falseIH =>
      obtain ⟨_, _, test⟩ := testIH
      obtain ⟨_, _, whenTrue⟩ := trueIH
      obtain ⟨_, _, whenFalse⟩ := falseIH
      exact ⟨_, _, .choice applies test whenTrue whenFalse⟩
  | membership applies _ _ containerIH keyIH =>
      obtain ⟨_, _, container⟩ := containerIH
      obtain ⟨_, _, key⟩ := keyIH
      exact ⟨_, _, .membership applies container key⟩
  | keys applies _ ih =>
      obtain ⟨_, _, container⟩ := ih
      exact ⟨_, _, .keys applies container⟩
  | field applies _ labels ih =>
      obtain ⟨_, _, inner⟩ := ih
      obtain ⟨label, name, rfl, labelField⟩ := labels
      exact ⟨_, _, .field applies labelField inner⟩
  | @tuple expected _ args applies _ ih =>
      have paired := expectedElements_length expected args.length
      obtain ⟨parts, rfl, types, all⟩ := Lowerable.parts paired fun index arg ty found typed => by
        obtain ⟨inside, -⟩ := List.getElem?_eq_some_iff.mp found
        rw [Ty.getElem?_expectedElements expected inside, Option.some.injEq] at typed
        exact typed ▸ ih index arg found
      rw [List.length_map] at types
      exact ⟨_, _, .tuple applies types all⟩
  | record applies even labels _ ih =>
      obtain ⟨fields, rfl, names, all⟩ := Lowerable.fields even labels ih
      exact ⟨_, _, .record applies names all⟩
  | namelessRecord applies even => exact ⟨_, _, .namelessRecord applies even⟩
  | otherOperator applies other =>
      exact ⟨_, _, .otherOperator applies (Operator.ofName?_eq_none.mpr other)⟩
  | otherKind kindField other =>
      exact ⟨_, _, .otherKind kindField (TermKind.ofName?_eq_none.mpr other)⟩

/-- Lowering an expression against an expected type succeeds exactly when the grammar of that type
has the expression, whatever was recorded before. -/
theorem lower_succeeds_iff_grammar (value : Json) (expected : Option Ty)
    (earlier : Array Warning) :
    (∃ term log, (lower value expected).runWith earlier = (.ok term, log)) ↔
      Grammar expected value := by
  constructor
  · rintro ⟨term, log, run⟩
    obtain ⟨warnings, derived, -⟩ := traced value run
    exact derived.grammar
  · intro accepted
    obtain ⟨term, warnings, derived⟩ := accepted.lowerable
    exact ⟨term, _, derived.yields earlier⟩

end Term

end SpecTranspiler

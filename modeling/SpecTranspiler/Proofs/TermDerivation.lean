import SpecTranspiler.Proofs.Runs

/-!
# Derivations of lowered expressions

`Term.Lowers` says which term an expression becomes against an expected type, and with which
warnings, one rule for every way in which lowering an expression succeeds. `Term.Applied` has the
rules of the operators by themselves, apart from the node that applies one.
`Term.yields_iff_lowers` ties the rules to the runs, so that what holds of every lowered term
follows by induction on derivations.
-/

namespace SpecTranspiler

/-- The name of a kind of expressions. -/
def TermKind.name : TermKind → String
  | .str => "str"
  | .int => "int"
  | .bool => "bool"
  | .reference => "name"
  | .binding => "let"
  | .application => "app"

theorem TermKind.ofName?_eq_some {name : String} {kind : TermKind} :
    TermKind.ofName? name = some kind ↔ name = kind.name := by
  constructor
  · intro named
    unfold TermKind.ofName? at named
    split at named <;> cases named <;> rfl
  · rintro rfl
    cases kind <;> rfl

theorem Operator.ofName?_eq_some {name : String} {operator : Operator} :
    Operator.ofName? name = some operator ↔ name = operator.name := by
  constructor
  · intro named
    unfold Operator.ofName? at named
    split at named <;> cases named <;> rfl
  · rintro rfl
    cases operator <;> rfl

/-- The kinds of expressions that have a form of their own. -/
def TermKind.names : List String :=
  ["str", "int", "bool", "name", "let", "app"]

/-- The operators that have operands of their own. -/
def Operator.names : List String :=
  ["iadd", "not", "ite", "contains", "keys", "field", "Tup", "Rec"]

theorem TermKind.ofName?_eq_none {name : String} :
    TermKind.ofName? name = none ↔ name ∉ TermKind.names := by
  unfold TermKind.ofName? TermKind.names
  split <;> simp_all

theorem Operator.ofName?_eq_none {name : String} :
    Operator.ofName? name = none ↔ name ∉ Operator.names := by
  unfold Operator.ofName? Operator.names
  split <;> simp_all

theorem Operator.ofName?_name (operator : Operator) :
    Operator.ofName? operator.name = some operator :=
  Operator.ofName?_eq_some.mpr rfl

theorem Operator.name_injective : Function.Injective Operator.name := by
  intro first second same
  have found := first.ofName?_name.symm.trans (same ▸ second.ofName?_name)
  exact Option.some.inj found

namespace Node

/-- The node applies an operator to operands. -/
@[grind cases]
structure Applies (node : Node) (opcode : String) (args : List Json) : Prop where
  kind : node.lookup "kind" = some (.str "app")
  opcode : node.lookup "opcode" = some (.str opcode)
  args : node.lookup "args" = some (.arr args)

/-- The node binds the name of a definition with a qualifier. -/
@[grind cases]
structure Binds (node definition : Node) (qualifier label : String) : Prop where
  kind : node.lookup "kind" = some (.str "let")
  opdef : node.lookup "opdef" = some (.obj definition)
  qualifier : definition.lookup "qualifier" = some (.str qualifier)
  label : definition.lookup "name" = some (.str label)

theorem Applies.unique {node : Node} {first second : String} {args others : List Json}
    (left : node.Applies first args) (right : node.Applies second others) :
    first = second ∧ args = others := by
  have opcodes := left.opcode.symm.trans right.opcode
  have operands := left.args.symm.trans right.args
  simp only [Option.some.injEq, Json.str.injEq, Json.arr.injEq] at opcodes operands
  exact ⟨opcodes, operands⟩

end Node

/-- An expression and the type expected of it, with the term and the warnings it yields. -/
structure Lowered where
  value : Json
  expected : Option Ty
  term : Term
  warnings : List Warning

/-- A field of a record construction: the node of its label, its name and its value. -/
structure LoweredField where
  label : Node
  name : String
  value : Json
  term : Term
  warnings : List Warning

/-- The operands of a record construction with given fields. -/
def LoweredField.operands (fields : List LoweredField) : List Json :=
  fields.flatMap fun field => [.obj field.label, field.value]

theorem LoweredField.even_length_operands (fields : List LoweredField) :
    (LoweredField.operands fields).length % 2 = 0 := by
  induction fields with
  | nil => rfl
  | cons field fields ih =>
      change ((LoweredField.operands fields).length + 2) % 2 = 0
      omega

/-- The operands at even indices are the labels of the fields. -/
theorem LoweredField.getElem?_operands_label (fields : List LoweredField) (index : Nat) :
    (LoweredField.operands fields)[2 * index]? =
      fields[index]?.map fun field => .obj field.label := by
  induction fields generalizing index with
  | nil => rfl
  | cons field fields ih =>
      cases index with
      | zero => rfl
      | succ index => exact ih index

/-- The operands at odd indices are the values of the fields. -/
theorem LoweredField.getElem?_operands_value (fields : List LoweredField) (index : Nat) :
    (LoweredField.operands fields)[2 * index + 1]? = fields[index]?.map LoweredField.value := by
  induction fields generalizing index with
  | nil => rfl
  | cons field fields ih =>
      cases index with
      | zero => rfl
      | succ index => exact ih index

/-- The type expected of the element of a tuple at an index, out of a number of elements. -/
def Ty.expectedElement (expected : Option Ty) (count index : Nat) : Option Ty :=
  match expected with
  | some (.tuple elements) => if elements.length = count then elements[index]? else none
  | _ => none

/-- The list of what is expected of the elements of a tuple holds at each index what is expected of
that element. -/
theorem Ty.getElem?_expectedElements (expected : Option Ty) {count index : Nat}
    (inside : index < count) :
    (Ty.expectedElements expected count)[index]? =
      some (Ty.expectedElement expected count index) := by
  unfold Ty.expectedElements
  split
  · next elements =>
      simp only [Ty.expectedElement]
      split
      · next same =>
          subst same
          rw [List.getElem?_map, List.getElem?_eq_getElem inside, Option.map_some]
      · rw [List.getElem?_replicate, if_pos inside]
  · next other =>
      rw [List.getElem?_replicate, if_pos inside, Ty.expectedElement]
      exact other

/-- An expression becomes a term against an expected type, with warnings. -/
inductive Term.Lowers : Json → Option Ty → Term → List Warning → Prop where
  | str {node : Node} {expected : Option Ty} {text : String}
      (kindField : node.lookup "kind" = some (.str "str"))
      (valueField : node.lookup "value" = some (.str text)) :
      Term.Lowers (.obj node) expected (.literal (.str text)) []
  | int {node : Node} {expected : Option Ty} {number : Json.Number} {n : UInt64}
      (kindField : node.lookup "kind" = some (.str "int"))
      (valueField : node.lookup "value" = some (.num number))
      (exact : number.toUInt64? = some n) :
      Term.Lowers (.obj node) expected (.literal (.uint64 n)) []
  | bool {node : Node} {expected : Option Ty} {truth : Bool}
      (kindField : node.lookup "kind" = some (.str "bool"))
      (valueField : node.lookup "value" = some (.bool truth)) :
      Term.Lowers (.obj node) expected (.literal (.bool truth)) []
  | reference {node : Node} {expected : Option Ty} {name : String}
      (kindField : node.lookup "kind" = some (.str "name"))
      (nameField : node.lookup "name" = some (.str name)) :
      Term.Lowers (.obj node) expected (.name name) []
  | binding {node definition : Node} {expected : Option Ty} {label : String}
      {value body : Json} {bound term : Term} {before after : List Warning}
      (binds : node.Binds definition "val" label)
      (valueField : definition.lookup "expr" = some value)
      (bodyField : node.lookup "expr" = some body)
      (value : Term.Lowers value none bound before)
      (body : Term.Lowers body expected term after) :
      Term.Lowers (.obj node) expected (.bind label bound term) (before ++ after)
  | otherBinding {node definition : Node} {expected : Option Ty} {qualifier label : String}
      (binds : node.Binds definition qualifier label) (other : qualifier ≠ "val") :
      Term.Lowers (.obj node) expected .todo [.unsupportedLetBinding label qualifier]
  | sum {node : Node} {expected : Option Ty} {left right : Json} {first second : Term}
      {before after : List Warning} (applies : node.Applies "iadd" [left, right])
      (left : Term.Lowers left (some .uint64) first before)
      (right : Term.Lowers right (some .uint64) second after) :
      Term.Lowers (.obj node) expected (.add first second) (before ++ after)
  | record {node : Node} {ty : Ty} {fields : List LoweredField}
      (applies : node.Applies "Rec" (LoweredField.operands fields))
      (labelFields : ∀ field ∈ fields, field.label.lookup "value" = some (.str field.name))
      (lowered : ∀ field ∈ fields, Term.Lowers field.value none field.term field.warnings) :
      Term.Lowers (.obj node) (some ty)
        (.record ty.render (fields.map fun field => (field.name, field.term)))
        (fields.flatMap LoweredField.warnings)
  | namelessRecord {node : Node} {args : List Json} (applies : node.Applies "Rec" args)
      (even : args.length % 2 = 0) :
      Term.Lowers (.obj node) none .todo [.recordWithoutExpectedType]
  | tuple {node : Node} {expected : Option Ty} {parts : List Lowered}
      (applies : node.Applies "Tup" (parts.map Lowered.value))
      (types : Ty.expectedElements expected parts.length = parts.map Lowered.expected)
      (lowered : ∀ part ∈ parts,
        Term.Lowers part.value part.expected part.term part.warnings) :
      Term.Lowers (.obj node) expected (.tuple (parts.map Lowered.term))
        (parts.flatMap Lowered.warnings)
  | choice {node : Node} {expected : Option Ty} {condition yes no : Json}
      {test first second : Term} {before between after : List Warning}
      (applies : node.Applies "ite" [condition, yes, no])
      (condition : Term.Lowers condition (some .bool) test before)
      (yes : Term.Lowers yes expected first between)
      (no : Term.Lowers no expected second after) :
      Term.Lowers (.obj node) expected (.ifElse test first second)
        (before ++ (between ++ after))
  | negation {node : Node} {expected : Option Ty} {operand : Json} {term : Term}
      {warnings : List Warning} (applies : node.Applies "not" [operand])
      (operand : Term.Lowers operand (some .bool) term warnings) :
      Term.Lowers (.obj node) expected (.negate term) warnings
  | membership {node : Node} {expected : Option Ty} {set element : Json}
      {first second : Term} {before after : List Warning}
      (applies : node.Applies "contains" [set, element])
      (set : Term.Lowers set (some Ty.wildcardSet) first before)
      (element : Term.Lowers element none second after) :
      Term.Lowers (.obj node) expected (Term.containsKey first second) (before ++ after)
  | keys {node : Node} {expected : Option Ty} {map : Json} {term : Term}
      {warnings : List Warning} (applies : node.Applies "keys" [map])
      (map : Term.Lowers map (some Ty.wildcardMap) term warnings) :
      Term.Lowers (.obj node) expected (Term.keySet term) warnings
  | field {node label : Node} {expected : Option Ty} {base : Json} {name : String}
      {term : Term} {warnings : List Warning}
      (applies : node.Applies "field" [base, .obj label])
      (labelField : label.lookup "value" = some (.str name))
      (base : Term.Lowers base none term warnings) :
      Term.Lowers (.obj node) expected (.field term name) warnings
  | otherOperator {node : Node} {expected : Option Ty} {opcode : String} {args : List Json}
      (applies : node.Applies opcode args) (other : Operator.ofName? opcode = none) :
      Term.Lowers (.obj node) expected .todo [.unsupportedOpcode opcode]
  | otherKind {node : Node} {expected : Option Ty} {kind : String}
      (kindField : node.lookup "kind" = some (.str kind)) (other : TermKind.ofName? kind = none) :
      Term.Lowers (.obj node) expected .todo [.unsupportedExprKind kind]

namespace Term

/-- An operator makes a term of operands against an expected type, with warnings. -/
inductive Applied : Operator → Option Ty → List Json → Term → List Warning → Prop where
  | sum {expected : Option Ty} {left right : Json} {first second : Term}
      {before after : List Warning} (leftLowers : Lowers left (some .uint64) first before)
      (rightLowers : Lowers right (some .uint64) second after) :
      Applied .sum expected [left, right] (.add first second) (before ++ after)
  | record {ty : Ty} {fields : List LoweredField}
      (labelFields : ∀ field ∈ fields, field.label.lookup "value" = some (.str field.name))
      (lowered : ∀ field ∈ fields, Lowers field.value none field.term field.warnings) :
      Applied .record (some ty) (LoweredField.operands fields)
        (.record ty.render (fields.map fun field => (field.name, field.term)))
        (fields.flatMap LoweredField.warnings)
  | namelessRecord {args : List Json} (even : args.length % 2 = 0) :
      Applied .record none args .todo [.recordWithoutExpectedType]
  | tuple {expected : Option Ty} {parts : List Lowered}
      (types : Ty.expectedElements expected parts.length = parts.map Lowered.expected)
      (lowered : ∀ part ∈ parts, Lowers part.value part.expected part.term part.warnings) :
      Applied .tuple expected (parts.map Lowered.value) (.tuple (parts.map Lowered.term))
        (parts.flatMap Lowered.warnings)
  | choice {expected : Option Ty} {condition yes no : Json} {test first second : Term}
      {before between after : List Warning}
      (conditionLowers : Lowers condition (some .bool) test before)
      (yesLowers : Lowers yes expected first between) (noLowers : Lowers no expected second after) :
      Applied .choice expected [condition, yes, no] (.ifElse test first second)
        (before ++ (between ++ after))
  | negation {expected : Option Ty} {operand : Json} {term : Term} {warnings : List Warning}
      (operandLowers : Lowers operand (some .bool) term warnings) :
      Applied .negation expected [operand] (.negate term) warnings
  | membership {expected : Option Ty} {set element : Json} {first second : Term}
      {before after : List Warning} (setLowers : Lowers set (some Ty.wildcardSet) first before)
      (elementLowers : Lowers element none second after) :
      Applied .membership expected [set, element] (containsKey first second) (before ++ after)
  | keys {expected : Option Ty} {map : Json} {term : Term} {warnings : List Warning}
      (mapLowers : Lowers map (some Ty.wildcardMap) term warnings) :
      Applied .keys expected [map] (keySet term) warnings
  | field {expected : Option Ty} {base : Json} {label : Node} {name : String} {term : Term}
      {warnings : List Warning} (labelField : label.lookup "value" = some (.str name))
      (baseLowers : Lowers base none term warnings) :
      Applied .field expected [base, .obj label] (.field term name) warnings

theorem Applied.lowers {node : Node} {operator : Operator} {expected : Option Ty}
    {args : List Json} {term : Term} {warnings : List Warning}
    (applied : Applied operator expected args term warnings)
    (applies : node.Applies operator.name args) : Lowers (.obj node) expected term warnings := by
  cases applied with
  | sum left right => exact .sum applies left right
  | record labelFields lowered => exact .record applies labelFields lowered
  | namelessRecord even => exact .namelessRecord applies even
  | tuple types lowered => exact .tuple applies types lowered
  | choice condition yes no => exact .choice applies condition yes no
  | negation operand => exact .negation applies operand
  | membership set element => exact .membership applies set element
  | keys map => exact .keys applies map
  | field labelField base => exact .field applies labelField base

theorem lowerEach_yields {parts : List Lowered}
    (lowered : ∀ part ∈ parts,
      (lower part.value part.expected).Yields part.term part.warnings) :
    (lowerEach (parts.map Lowered.value) (parts.map Lowered.expected)).Yields
      (parts.map Lowered.term) (parts.flatMap Lowered.warnings) := by
  induction parts with
  | nil =>
      rw [List.map_nil, lowerEach]
      · exact .pure []
      · exact fun _ _ _ _ impossible _ => (List.cons_ne_nil _ _ impossible.symm).elim
  | cons part parts ih =>
      rw [List.map_cons, List.map_cons, lowerEach]
      refine .bind (lowered part List.mem_cons_self) ?_
      exact .map _ (ih fun other member => lowered other (List.mem_cons_of_mem _ member))

/-- Operands in pairs of a label and a value are lowered to fields, with the warnings of the values
in order. -/
theorem lowerFields_yields {fields : List LoweredField} {context : String}
    (labelFields : ∀ field ∈ fields, field.label.lookup "value" = some (.str field.name))
    (lowered : ∀ field ∈ fields, (lower field.value none).Yields field.term field.warnings) :
    (lowerFields context (LoweredField.operands fields)).Yields
      (fields.map fun field => (field.name, field.term))
      (fields.flatMap LoweredField.warnings) := by
  induction fields with
  | nil =>
      rw [LoweredField.operands, List.flatMap_nil, lowerFields]
      · exact .pure []
      · exact fun _ _ _ impossible => (List.cons_ne_nil _ _ impossible.symm).elim
  | cons field fields ih =>
      change (lowerFields context (.obj field.label :: field.value ::
        LoweredField.operands fields)).Yields _ _
      rw [lowerFields]
      refine .read (Node.ofValue_eq_ok.mpr rfl) (.read (Node.string_eq_ok.mpr
        (labelFields field List.mem_cons_self)) (.bind (lowered field List.mem_cons_self) ?_))
      exact .map _ (ih (fun other member => labelFields other (List.mem_cons_of_mem _ member))
        (fun other member => lowered other (List.mem_cons_of_mem _ member)))

/-- An application yields what its operator makes of the operands. -/
theorem lower_yields_of_applies {node : Node} {args : List Json} {expected : Option Ty}
    {term : Term} {warnings : List Warning} (operator : Operator)
    (applies : node.Applies operator.name args)
    (applied : ∀ context, (lowerApplication operator context expected args).Yields term
      warnings) :
    (lower (.obj node) expected).Yields term warnings := by
  rw [lower]
  refine .string applies.kind (.string applies.opcode (.array applies.args fun small => ?_))
  simp only [Operator.ofName?_name]
  exact applied _

end Term

/-- The definition of a value yields a local binding. -/
theorem Item.lowerDefinition_yields_val {node : Node} {label : String} {value : Json}
    {term : Term} {warnings : List Warning}
    (labelField : node.lookup "name" = some (.str label))
    (qualifierField : node.lookup "qualifier" = some (.str "val"))
    (valueField : node.lookup "expr" = some value)
    (lowered : (Term.lower value none).Yields term warnings) :
    (Item.lowerDefinition node).Yields (some (.val label term)) warnings := by
  rw [Item.lowerDefinition]
  refine .string labelField (.string qualifierField (.child valueField fun small => ?_))
  exact lowered.map fun term => some (Item.val label term)

namespace Term

/-- What has a derivation is what lowering yields. -/
theorem Lowers.yields {value : Json} {expected : Option Ty} {term : Term}
    {warnings : List Warning} (derived : Lowers value expected term warnings) :
    (lower value expected).Yields term warnings := by
  induction derived with
  | str kindField valueField =>
      rw [lower]
      exact .string kindField (.string valueField (.pure _))
  | int kindField valueField exact =>
      rw [lower]
      exact .string kindField (.read (Node.uint64_eq_ok.mpr ⟨_, valueField, exact⟩) (.pure _))
  | bool kindField valueField =>
      rw [lower]
      exact .string kindField (.read (Node.boolean_eq_ok.mpr valueField) (.pure _))
  | reference kindField nameField =>
      rw [lower]
      exact .string kindField (.string nameField (.pure _))
  | binding binds valueField bodyField _ _ valueIH bodyIH =>
      rw [lower]
      refine .string binds.kind (.object binds.opdef fun small => .string binds.qualifier ?_)
      have bound := Item.lowerDefinition_yields_val binds.label binds.qualifier valueField
        valueIH
      exact .bind bound (.child bodyField fun small => .map _ bodyIH)
  | otherBinding binds other =>
      rw [lower]
      refine .string binds.kind (.object binds.opdef fun small => .string binds.qualifier ?_)
      simp only [other, ↓reduceIte]
      exact .string binds.label (.bind (.warn _) (.pure _))
  | sum applies _ _ leftIH rightIH =>
      refine lower_yields_of_applies .sum applies fun context => ?_
      rw [lowerApplication]
      exact .bind leftIH (.map _ rightIH)
  | @record _ _ fields applies labelFields _ ih =>
      refine lower_yields_of_applies .record applies fun context => ?_
      rw [lowerApplication, if_neg (not_not_intro (LoweredField.even_length_operands fields))]
      exact .map _ (lowerFields_yields labelFields ih)
  | namelessRecord applies even =>
      refine lower_yields_of_applies .record applies fun context => ?_
      rw [lowerApplication, if_neg (not_not_intro even)]
      exact .bind (.warn _) (.pure _)
  | tuple applies types _ ih =>
      refine lower_yields_of_applies .tuple applies fun context => ?_
      rw [lowerApplication, List.length_map, types]
      exact .map _ (lowerEach_yields ih)
  | choice applies _ _ _ conditionIH yesIH noIH =>
      refine lower_yields_of_applies .choice applies fun context => ?_
      rw [lowerApplication]
      exact .bind conditionIH (.bind yesIH (.map _ noIH))
  | negation applies _ ih =>
      refine lower_yields_of_applies .negation applies fun context => ?_
      rw [lowerApplication]
      exact .map _ ih
  | membership applies _ _ setIH elementIH =>
      refine lower_yields_of_applies .membership applies fun context => ?_
      rw [lowerApplication]
      exact .bind setIH (.map _ elementIH)
  | keys applies _ ih =>
      refine lower_yields_of_applies .keys applies fun context => ?_
      rw [lowerApplication]
      exact .map _ ih
  | field applies labelField _ ih =>
      refine lower_yields_of_applies .field applies fun context => ?_
      rw [lowerApplication]
      exact .bindSilent ih
        (.read (Node.ofValue_eq_ok.mpr rfl) (.string labelField (.pure _)))
  | otherOperator applies other =>
      rw [lower]
      refine .string applies.kind (.string applies.opcode (.array applies.args fun small => ?_))
      simp only [other]
      exact .bind (.warn _) (.pure _)
  | otherKind kindField other =>
      rw [lower]
      refine .string kindField ?_
      simp only [other]
      exact .bind (.warn _) (.pure _)

/-- Every run that lowers the value has a derivation, whose warnings it records. -/
def Traced (value : Json) : Prop :=
  ∀ ⦃expected : Option Ty⦄ ⦃term : Term⦄ ⦃earlier log : Array Warning⦄,
    (lower value expected).runWith earlier = (.ok term, log) →
      ∃ warnings, Lowers value expected term warnings ∧ log = earlier ++ warnings.toArray

/-- A run over operands has a derivation for each of them, and records the warnings of all in order.
-/
theorem lowerEach_traced {args : List Json} (traced : ∀ arg ∈ args, Traced arg)
    {types : List (Option Ty)} (paired : types.length = args.length) {terms : List Term}
    {earlier log : Array Warning}
    (run : (lowerEach args types).runWith earlier = (.ok terms, log)) :
    ∃ parts : List Lowered, parts.map Lowered.value = args ∧
      parts.map Lowered.expected = types ∧ parts.map Lowered.term = terms ∧
      (∀ part ∈ parts, Lowers part.value part.expected part.term part.warnings) ∧
      log = earlier ++ (parts.flatMap Lowered.warnings).toArray := by
  induction args generalizing types terms earlier with
  | nil =>
      obtain rfl := List.length_eq_zero_iff.mp paired
      rw [lowerEach] at run
      · obtain ⟨rfl, rfl⟩ := Lowering.runWith_pure_eq_ok.mp run
        refine ⟨[], rfl, rfl, rfl, ?_, Array.append_empty.symm⟩
        intro part member
        cases member
      · exact fun _ _ _ _ impossible _ => (List.cons_ne_nil _ _ impossible.symm).elim
  | cons arg args ih =>
      obtain ⟨ty, types, rfl⟩ := List.exists_cons_of_length_eq_add_one paired
      rw [lowerEach] at run
      obtain ⟨term, between, first, run⟩ := Lowering.runWith_bind_eq_ok.mp run
      obtain ⟨rest, final, second, run⟩ := Lowering.runWith_bind_eq_ok.mp run
      obtain ⟨rfl, rfl⟩ := Lowering.runWith_pure_eq_ok.mp run
      obtain ⟨warnings, lowered, rfl⟩ := traced arg List.mem_cons_self first
      obtain ⟨parts, rfl, rfl, rfl, all, rfl⟩ :=
        ih (fun other member => traced other (List.mem_cons_of_mem _ member))
          (Nat.succ.inj paired) second
      refine ⟨⟨arg, ty, term, warnings⟩ :: parts, rfl, rfl, rfl, ?_,
        Lowering.append_warnings ..⟩
      intro part member
      rcases List.mem_cons.mp member with rfl | member
      · exact lowered
      · exact all part member

/-- A run over labels and values has a derivation for each value, and records the warnings of all in
order. The operands are taken in pairs, so that their number has to be even. -/
theorem lowerFields_traced {context : String} {args : List Json}
    (traced : ∀ arg ∈ args, Traced arg) (even : args.length % 2 = 0)
    {pairs : List (String × Term)} {earlier log : Array Warning}
    (run : (lowerFields context args).runWith earlier = (.ok pairs, log)) :
    ∃ fields : List LoweredField, LoweredField.operands fields = args ∧
      (∀ field ∈ fields, field.label.lookup "value" = some (.str field.name)) ∧
      (∀ field ∈ fields, Lowers field.value none field.term field.warnings) ∧
      fields.map (fun field => (field.name, field.term)) = pairs ∧
      log = earlier ++ (fields.flatMap LoweredField.warnings).toArray := by
  match args with
  | [] =>
      rw [lowerFields] at run
      · obtain ⟨rfl, rfl⟩ := Lowering.runWith_pure_eq_ok.mp run
        refine ⟨[], rfl, ?_, ?_, rfl, Array.append_empty.symm⟩
        · intro field member
          cases member
        · intro field member
          cases member
      · exact fun _ _ _ impossible => (List.cons_ne_nil _ _ impossible.symm).elim
  | [_] => exact (Nat.one_ne_zero even).elim
  | label :: value :: rest =>
      rw [lowerFields] at run
      obtain ⟨node, labelled, run⟩ := Lowering.runWith_liftM_bind_eq_ok.mp run
      obtain ⟨name, named, run⟩ := Lowering.runWith_liftM_bind_eq_ok.mp run
      obtain ⟨term, between, first, run⟩ := Lowering.runWith_bind_eq_ok.mp run
      obtain ⟨pairs, final, second, run⟩ := Lowering.runWith_bind_eq_ok.mp run
      obtain ⟨rfl, rfl⟩ := Lowering.runWith_pure_eq_ok.mp run
      obtain rfl := Node.ofValue_eq_ok.mp labelled
      obtain ⟨warnings, lowered, rfl⟩ :=
        traced value (List.mem_cons_of_mem _ List.mem_cons_self) first
      have restTraced : ∀ arg ∈ rest, Traced arg := fun arg member =>
        traced arg (List.mem_cons_of_mem _ (List.mem_cons_of_mem _ member))
      have restEven : rest.length % 2 = 0 := by
        simp only [List.length_cons] at even
        omega
      obtain ⟨fields, rfl, names, all, rfl, rfl⟩ := lowerFields_traced restTraced restEven second
      refine ⟨⟨node, name, value, term, warnings⟩ :: fields, rfl, ?_, ?_, rfl,
        Lowering.append_warnings ..⟩
      · intro field member
        rcases List.mem_cons.mp member with rfl | member
        · exact Node.string_eq_ok.mp named
        · exact names field member
      · intro field member
        rcases List.mem_cons.mp member with rfl | member
        · exact lowered
        · exact all field member

theorem expectedElements_length (expected : Option Ty) (count : Nat) :
    (Ty.expectedElements expected count).length = count := by
  unfold Ty.expectedElements
  split
  · split
    · next same => rw [List.length_map, same]
    · exact List.length_replicate
  · exact List.length_replicate

/-- A run that applies an operator follows its rule, if the runs of its operands have
derivations. -/
theorem lowerApplication_traced {operator : Operator} {context : String} {expected : Option Ty}
    {args : List Json} (traced : ∀ arg ∈ args, Traced arg) {term : Term}
    {earlier log : Array Warning}
    (run : (lowerApplication operator context expected args).runWith earlier =
      (.ok term, log)) :
    ∃ warnings, Applied operator expected args term warnings ∧
      log = earlier ++ warnings.toArray := by
  cases operator with
  | sum =>
      rw [lowerApplication.eq_def] at run
      simp only at run
      split at run
      · next left right =>
          obtain ⟨first, between, leftRun, run⟩ := Lowering.runWith_bind_eq_ok.mp run
          obtain ⟨second, final, rightRun, run⟩ := Lowering.runWith_bind_eq_ok.mp run
          obtain ⟨rfl, rfl⟩ := Lowering.runWith_pure_eq_ok.mp run
          obtain ⟨before, leftLowers, rfl⟩ := traced left (by simp) leftRun
          obtain ⟨after, rightLowers, rfl⟩ := traced right (by simp) rightRun
          exact ⟨_, .sum leftLowers rightLowers, Lowering.append_warnings ..⟩
      · exact (Lowering.runWith_throw_ne_ok run).elim
  | record =>
      rw [lowerApplication.eq_def] at run
      simp only at run
      split at run
      · exact (Lowering.runWith_throw_ne_ok run).elim
      · next even =>
          have even := Decidable.not_not.mp even
          cases expected with
          | none =>
              obtain ⟨rfl, rfl⟩ := Lowering.runWith_pure_eq_ok.mp run
              exact ⟨_, .namelessRecord even, rfl⟩
          | some ty =>
              obtain ⟨pairs, final, fieldsRun, run⟩ := Lowering.runWith_bind_eq_ok.mp run
              obtain ⟨rfl, rfl⟩ := Lowering.runWith_pure_eq_ok.mp run
              obtain ⟨fields, rfl, names, all, rfl, rfl⟩ :=
                lowerFields_traced traced even fieldsRun
              exact ⟨_, .record names all, rfl⟩
  | tuple =>
      rw [lowerApplication.eq_def] at run
      simp only at run
      obtain ⟨terms, final, eachRun, run⟩ := Lowering.runWith_bind_eq_ok.mp run
      obtain ⟨rfl, rfl⟩ := Lowering.runWith_pure_eq_ok.mp run
      obtain ⟨parts, rfl, types, rfl, all, rfl⟩ :=
        lowerEach_traced traced (expectedElements_length ..) eachRun
      rw [List.length_map] at types
      exact ⟨_, .tuple types.symm all, rfl⟩
  | choice =>
      rw [lowerApplication.eq_def] at run
      simp only at run
      split at run
      · next condition yes no =>
          obtain ⟨test, first, conditionRun, run⟩ := Lowering.runWith_bind_eq_ok.mp run
          obtain ⟨whenTrue, second, yesRun, run⟩ := Lowering.runWith_bind_eq_ok.mp run
          obtain ⟨whenFalse, third, noRun, run⟩ := Lowering.runWith_bind_eq_ok.mp run
          obtain ⟨rfl, rfl⟩ := Lowering.runWith_pure_eq_ok.mp run
          obtain ⟨before, conditionLowers, rfl⟩ := traced condition (by simp) conditionRun
          obtain ⟨between, yesLowers, rfl⟩ := traced yes (by simp) yesRun
          obtain ⟨after, noLowers, rfl⟩ := traced no (by simp) noRun
          refine ⟨_, .choice conditionLowers yesLowers noLowers, ?_⟩
          rw [Lowering.append_warnings, Lowering.append_warnings]
      · exact (Lowering.runWith_throw_ne_ok run).elim
  | negation =>
      rw [lowerApplication.eq_def] at run
      simp only at run
      split at run
      · next operand =>
          obtain ⟨inner, final, operandRun, run⟩ := Lowering.runWith_bind_eq_ok.mp run
          obtain ⟨rfl, rfl⟩ := Lowering.runWith_pure_eq_ok.mp run
          obtain ⟨warnings, lowers, rfl⟩ := traced operand (by simp) operandRun
          exact ⟨_, .negation lowers, rfl⟩
      · exact (Lowering.runWith_throw_ne_ok run).elim
  | membership =>
      rw [lowerApplication.eq_def] at run
      simp only at run
      split at run
      · next set element =>
          obtain ⟨first, between, setRun, run⟩ := Lowering.runWith_bind_eq_ok.mp run
          obtain ⟨second, final, elementRun, run⟩ := Lowering.runWith_bind_eq_ok.mp run
          obtain ⟨rfl, rfl⟩ := Lowering.runWith_pure_eq_ok.mp run
          obtain ⟨before, setLowers, rfl⟩ := traced set (by simp) setRun
          obtain ⟨after, elementLowers, rfl⟩ := traced element (by simp) elementRun
          exact ⟨_, .membership setLowers elementLowers,
            Lowering.append_warnings ..⟩
      · exact (Lowering.runWith_throw_ne_ok run).elim
  | keys =>
      rw [lowerApplication.eq_def] at run
      simp only at run
      split at run
      · next map =>
          obtain ⟨inner, final, mapRun, run⟩ := Lowering.runWith_bind_eq_ok.mp run
          obtain ⟨rfl, rfl⟩ := Lowering.runWith_pure_eq_ok.mp run
          obtain ⟨warnings, lowers, rfl⟩ := traced map (by simp) mapRun
          exact ⟨_, .keys lowers, rfl⟩
      · exact (Lowering.runWith_throw_ne_ok run).elim
  | field =>
      rw [lowerApplication.eq_def] at run
      simp only at run
      split at run
      · next base label =>
          obtain ⟨inner, final, baseRun, run⟩ := Lowering.runWith_bind_eq_ok.mp run
          obtain ⟨node, labelled, run⟩ := Lowering.runWith_liftM_bind_eq_ok.mp run
          obtain ⟨name, named, run⟩ := Lowering.runWith_liftM_bind_eq_ok.mp run
          obtain ⟨rfl, rfl⟩ := Lowering.runWith_pure_eq_ok.mp run
          obtain rfl := Node.ofValue_eq_ok.mp labelled
          obtain ⟨warnings, lowers, rfl⟩ := traced base (by simp) baseRun
          exact ⟨_, .field (Node.string_eq_ok.mp named) lowers, rfl⟩
      · exact (Lowering.runWith_throw_ne_ok run).elim

end Term

/-- The definition of a value becomes a local binding and nothing else. -/
theorem Item.lowerDefinition_val {node : Node}
    (qualifierField : node.lookup "qualifier" = some (.str "val")) {item : Option Item}
    {earlier log : Array Warning}
    (run : (Item.lowerDefinition node).runWith earlier = (.ok item, log)) :
    ∃ label value term, node.lookup "name" = some (.str label) ∧
      node.lookup "expr" = some value ∧ item = some (.val label term) ∧
      (Term.lower value none).runWith earlier = (.ok term, log) := by
  rw [Item.lowerDefinition] at run
  obtain ⟨label, labelled, run⟩ := Lowering.runWith_liftM_bind_eq_ok.mp run
  obtain ⟨qualifier, qualified, run⟩ := Lowering.runWith_liftM_bind_eq_ok.mp run
  have isVal : qualifier = "val" := by
    simpa only [qualifierField, Option.some.injEq, Json.str.injEq, eq_comm] using
      Node.string_eq_ok.mp qualified
  subst isVal
  obtain ⟨⟨value, small⟩, found, run⟩ := Lowering.runWith_liftM_bind_eq_ok.mp run
  obtain ⟨term, final, lowered, run⟩ := Lowering.runWith_bind_eq_ok.mp run
  obtain ⟨rfl, rfl⟩ := Lowering.runWith_pure_eq_ok.mp run
  exact ⟨label, value, term, Node.string_eq_ok.mp labelled, Node.child_eq_ok.mp found, rfl,
    lowered⟩

namespace Term

/-- A run over a node has a derivation, if the runs over the smaller values have one. -/
theorem traced_obj {node : Node} (inner : ∀ part : Json, sizeOf part < sizeOf node → Traced part) :
    Traced (.obj node) := by
  intro expected term earlier log run
  rw [lower] at run
  obtain ⟨kind, kindFound, run⟩ := Lowering.runWith_liftM_bind_eq_ok.mp run
  have kindField := Node.string_eq_ok.mp kindFound
  cases known : TermKind.ofName? kind with
  | none =>
      simp only [known] at run
      obtain ⟨rfl, rfl⟩ := Lowering.runWith_pure_eq_ok.mp run
      exact ⟨_, .otherKind kindField known, rfl⟩
  | some termKind =>
      obtain rfl := TermKind.ofName?_eq_some.mp known
      simp only [known] at run
      cases termKind with
      | str =>
          obtain ⟨text, found, run⟩ := Lowering.runWith_liftM_bind_eq_ok.mp run
          obtain ⟨rfl, rfl⟩ := Lowering.runWith_pure_eq_ok.mp run
          exact ⟨_, .str kindField (Node.string_eq_ok.mp found), Array.append_empty.symm⟩
      | int =>
          obtain ⟨n, found, run⟩ := Lowering.runWith_liftM_bind_eq_ok.mp run
          obtain ⟨rfl, rfl⟩ := Lowering.runWith_pure_eq_ok.mp run
          obtain ⟨number, valueField, exact⟩ := Node.uint64_eq_ok.mp found
          exact ⟨_, .int kindField valueField exact, Array.append_empty.symm⟩
      | bool =>
          obtain ⟨truth, found, run⟩ := Lowering.runWith_liftM_bind_eq_ok.mp run
          obtain ⟨rfl, rfl⟩ := Lowering.runWith_pure_eq_ok.mp run
          exact ⟨_, .bool kindField (Node.boolean_eq_ok.mp found), Array.append_empty.symm⟩
      | reference =>
          obtain ⟨name, found, run⟩ := Lowering.runWith_liftM_bind_eq_ok.mp run
          obtain ⟨rfl, rfl⟩ := Lowering.runWith_pure_eq_ok.mp run
          exact ⟨_, .reference kindField (Node.string_eq_ok.mp found), Array.append_empty.symm⟩
      | binding =>
          obtain ⟨⟨definition, inside⟩, found, run⟩ := Lowering.runWith_liftM_bind_eq_ok.mp run
          obtain ⟨qualifier, qualified, run⟩ := Lowering.runWith_liftM_bind_eq_ok.mp run
          have opdef := Node.object_eq_ok.mp found
          have qualifierField := Node.string_eq_ok.mp qualified
          split at run
          · next isVal =>
              subst isVal
              obtain ⟨item, between, defined, run⟩ := Lowering.runWith_bind_eq_ok.mp run
              -- The other results of a definition cannot occur, since its qualifier is `val`.
              obtain ⟨label, value, bound, labelField, valueField, rfl, valueRun⟩ :=
                Item.lowerDefinition_val qualifierField defined
              obtain ⟨⟨body, small⟩, bodyFound, run⟩ := Lowering.runWith_liftM_bind_eq_ok.mp run
              obtain ⟨rest, final, bodyRun, run⟩ := Lowering.runWith_bind_eq_ok.mp run
              obtain ⟨rfl, rfl⟩ := Lowering.runWith_pure_eq_ok.mp run
              have valueSmall : sizeOf value < sizeOf node :=
                Nat.lt_trans (Node.sizeOf_lookup_lt valueField) inside
              obtain ⟨before, valueLowers, rfl⟩ := inner value valueSmall valueRun
              obtain ⟨after, bodyLowers, rfl⟩ := inner body small bodyRun
              exact ⟨_, .binding ⟨kindField, opdef, qualifierField, labelField⟩ valueField
                (Node.child_eq_ok.mp bodyFound) valueLowers bodyLowers,
                Lowering.append_warnings ..⟩
          · next other =>
              obtain ⟨label, labelled, run⟩ := Lowering.runWith_liftM_bind_eq_ok.mp run
              obtain ⟨rfl, rfl⟩ := Lowering.runWith_pure_eq_ok.mp run
              exact ⟨_, .otherBinding ⟨kindField, opdef, qualifierField,
                Node.string_eq_ok.mp labelled⟩ other, rfl⟩
      | application =>
          obtain ⟨opcode, opcodeFound, run⟩ := Lowering.runWith_liftM_bind_eq_ok.mp run
          obtain ⟨⟨args, inside⟩, argsFound, run⟩ := Lowering.runWith_liftM_bind_eq_ok.mp run
          have applies : node.Applies opcode args :=
            ⟨kindField, Node.string_eq_ok.mp opcodeFound, Node.array_eq_ok.mp argsFound⟩
          cases operated : Operator.ofName? opcode with
          | none =>
              simp only [operated] at run
              obtain ⟨rfl, rfl⟩ := Lowering.runWith_pure_eq_ok.mp run
              exact ⟨_, .otherOperator applies operated, rfl⟩
          | some operator =>
              obtain rfl := Operator.ofName?_eq_some.mp operated
              simp only [operated] at run
              have operands : ∀ arg ∈ args, Traced arg := fun arg member =>
                inner arg (Nat.lt_trans (List.sizeOf_lt_of_mem member) inside)
              obtain ⟨warnings, applied, rfl⟩ := lowerApplication_traced operands run
              exact ⟨warnings, applied.lowers applies, rfl⟩

/-- Every successful run has a derivation. The induction is on the size of the value, since
lowering follows the fields of nodes. -/
theorem traced (value : Json) : Traced value := by
  cases value with
  | obj node => exact traced_obj fun part small => traced part
  | _ =>
      intro expected term earlier log run
      rw [lower] at run
      · exact (Lowering.runWith_throw_ne_ok run).elim
      · intro members impossible
        cases impossible
termination_by sizeOf value
decreasing_by
  simp only [Json.obj.sizeOf_spec]
  omega

/-- Lowering yields exactly what has a derivation. -/
theorem yields_iff_lowers {value : Json} {expected : Option Ty} {term : Term}
    {warnings : List Warning} :
    (lower value expected).Yields term warnings ↔ Lowers value expected term warnings := by
  constructor
  · intro yields
    obtain ⟨recorded, derived, same⟩ := traced value (yields #[])
    obtain ⟨-, rfl⟩ := yields.unique derived.yields
    exact derived
  · exact Lowers.yields

theorem Lowers.unique {value : Json} {expected : Option Ty} {first second : Term}
    {before after : List Warning} (left : Lowers value expected first before)
    (right : Lowers value expected second after) : first = second ∧ before = after :=
  left.yields.unique right.yields

section Inversion

variable {node : Node} {args : List Json} {expected : Option Ty} {term : Term}
  {warnings : List Warning}

/-- An application has been lowered by the rule of its operator. -/
theorem Lowers.of_applies (operator : Operator) (applies : node.Applies operator.name args)
    (derived : Lowers (.obj node) expected term warnings) :
    Applied operator expected args term warnings := by
  have operates (other : Operator) {operands : List Json}
      (same : node.Applies other.name operands) : operator = other ∧ args = operands := by
    obtain ⟨names, operands⟩ := applies.unique same
    exact ⟨Operator.name_injective names, operands⟩
  cases derived with
  | sum same left right =>
      obtain ⟨rfl, rfl⟩ := operates .sum same
      exact .sum left right
  | record same labelFields lowered =>
      obtain ⟨rfl, rfl⟩ := operates .record same
      exact .record labelFields lowered
  | namelessRecord same even =>
      obtain ⟨rfl, rfl⟩ := operates .record same
      exact .namelessRecord even
  | tuple same types lowered =>
      obtain ⟨rfl, rfl⟩ := operates .tuple same
      exact .tuple types lowered
  | choice same condition yes no =>
      obtain ⟨rfl, rfl⟩ := operates .choice same
      exact .choice condition yes no
  | negation same operand =>
      obtain ⟨rfl, rfl⟩ := operates .negation same
      exact .negation operand
  | membership same set element =>
      obtain ⟨rfl, rfl⟩ := operates .membership same
      exact .membership set element
  | keys same map =>
      obtain ⟨rfl, rfl⟩ := operates .keys same
      exact .keys map
  | field same labelField base =>
      obtain ⟨rfl, rfl⟩ := operates .field same
      exact .field labelField base
  | otherOperator same unknown =>
      obtain ⟨rfl, -⟩ := applies.unique same
      cases operator.ofName?_name.symm.trans unknown
  | otherKind kindField unknown =>
      cases applies.kind.symm.trans kindField
      cases unknown
  | _ => grind

/-- A local value is lowered to a binding of the bound term in front of the body, with the warnings
of both in this order. -/
theorem Lowers.of_binds {definition : Node} {label : String}
    (binds : node.Binds definition "val" label)
    (derived : Lowers (.obj node) expected term warnings) :
    ∃ value body bound rest before after, definition.lookup "expr" = some value ∧
      node.lookup "expr" = some body ∧ term = .bind label bound rest ∧
      warnings = before ++ after ∧ Lowers value none bound before ∧
      Lowers body expected rest after := by
  cases derived with
  | binding other valueField bodyField value body =>
      have sameDefinition := binds.opdef.symm.trans other.opdef
      simp only [Option.some.injEq, Json.obj.injEq] at sameDefinition
      subst sameDefinition
      have sameLabel := binds.label.symm.trans other.label
      simp only [Option.some.injEq, Json.str.injEq] at sameLabel
      subst sameLabel
      exact ⟨_, _, _, _, _, _, valueField, bodyField, rfl, rfl, value, body⟩
  | otherKind kindField unknown =>
      cases binds.kind.symm.trans kindField
      cases unknown
  | _ => grind

theorem Lowers.of_applies_choice (applies : node.Applies "ite" args)
    (derived : Lowers (.obj node) expected term warnings) :
    ∃ condition yes no test first second before between after, args = [condition, yes, no] ∧
      term = .ifElse test first second ∧ Lowers condition (some .bool) test before ∧
      Lowers yes expected first between ∧ Lowers no expected second after := by
  cases derived.of_applies .choice applies with
  | choice condition yes no => exact ⟨_, _, _, _, _, _, _, _, _, rfl, rfl, condition, yes, no⟩

theorem Lowers.of_applies_tuple (applies : node.Applies "Tup" args)
    (derived : Lowers (.obj node) expected term warnings) :
    ∃ parts : List Lowered, args = parts.map Lowered.value ∧
      Ty.expectedElements expected parts.length = parts.map Lowered.expected ∧
      term = .tuple (parts.map Lowered.term) ∧
      ∀ part ∈ parts, Lowers part.value part.expected part.term part.warnings := by
  cases derived.of_applies .tuple applies with
  | tuple types lowered => exact ⟨_, rfl, types, rfl, lowered⟩

theorem Lowers.of_applies_record {ty : Ty} (applies : node.Applies "Rec" args)
    (derived : Lowers (.obj node) (some ty) term warnings) :
    ∃ fields, term = .record ty.render fields := by
  cases derived.of_applies .record applies with
  | record => exact ⟨_, rfl⟩

end Inversion

end Term

end SpecTranspiler

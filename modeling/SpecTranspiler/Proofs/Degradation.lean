import SpecTranspiler.Proofs.Positions
import SpecTranspiler.Proofs.TermDerivation

/-!
# Local degradation

`Term.Active` lists the positions of an expression that are lowered together with it, each with the
type expected there and the position that its term takes in the whole term. At such a position any
expression can stand: what it becomes takes the place of the former term, and its warnings take the
place of the former warnings (`Term.Active.slot`). An expression of an unknown kind therefore leaves
a placeholder and one warning behind, and nothing else changes (`Term.lower_degrades_locally`).
-/

namespace SpecTranspiler

/-- The operator, given a number of operands, lowers the one at an index against an optional type,
and what it becomes takes a position in the term of the application. -/
inductive Operator.Takes (count : Nat) :
    Operator → Option Ty → Nat → Option Ty → List Nat → Prop where
  | left {expected : Option Ty} : Operator.Takes count .sum expected 0 (some .uint64) [0]
  | right {expected : Option Ty} : Operator.Takes count .sum expected 1 (some .uint64) [1]
  | negated {expected : Option Ty} : Operator.Takes count .negation expected 0 (some .bool) [0]
  | map {expected : Option Ty} :
      Operator.Takes count .keys expected 0 (some (.map (.named "_") (.named "_"))) [0, 0]
  | condition {expected : Option Ty} : Operator.Takes count .choice expected 0 (some .bool) [0]
  | yes {expected : Option Ty} : Operator.Takes count .choice expected 1 expected [1]
  | no {expected : Option Ty} : Operator.Takes count .choice expected 2 expected [2]
  | set {expected : Option Ty} :
      Operator.Takes count .membership expected 0 (some (.set (.named "_"))) [0, 0]
  | member {expected : Option Ty} : Operator.Takes count .membership expected 1 none [1, 0]
  | base {expected : Option Ty} : Operator.Takes count .field expected 0 none [0]
  | element {expected : Option Ty} {index : Nat} :
      Operator.Takes count .tuple expected index (Ty.expectedElement expected count index) [index]
  | value {ty : Ty} {index : Nat} :
      Operator.Takes count .record (some ty) (2 * index + 1) none [index]

/-- An expression against an optional expected type has a part at a position that is lowered
against an optional type, and what it becomes takes a position in the whole term. -/
inductive Term.Active :
    Json → Option Ty → List Json.Step → Json → Option Ty → List Nat → Prop where
  | here {value : Json} {expected : Option Ty} : Term.Active value expected [] value expected []
  | operand {node : Node} {expected ty below : Option Ty} {operator : Operator}
      {args : List Json} {index : Nat} {arg part : Json} {path : List Json.Step}
      {target rest : List Nat} (applies : node.Applies operator.name args)
      (found : args[index]? = some arg)
      (takes : operator.Takes args.length expected index ty target)
      (inside : Term.Active arg ty path part below rest) :
      Term.Active (.obj node) expected (.member "args" :: .element index :: path) part below
        (target ++ rest)
  | bound {node definition : Node} {expected below : Option Ty} {label : String}
      {value part : Json} {path : List Json.Step} {rest : List Nat}
      (binds : node.Binds definition "val" label)
      (found : definition.lookup "expr" = some value)
      (inside : Term.Active value none path part below rest) :
      Term.Active (.obj node) expected (.member "opdef" :: .member "expr" :: path) part below
        (0 :: rest)
  | body {node definition : Node} {expected below : Option Ty} {label : String}
      {body part : Json} {path : List Json.Step} {rest : List Nat}
      (binds : node.Binds definition "val" label) (found : node.lookup "expr" = some body)
      (inside : Term.Active body expected path part below rest) :
      Term.Active (.obj node) expected (.member "expr" :: path) part below (1 :: rest)

namespace Node

variable {node : Node}

theorem Applies.put {opcode : String} {args : List Json} (applies : node.Applies opcode args)
    (others : List Json) : (node.put "args" (.arr others)).Applies opcode others where
  kind := by rw [lookup_put_of_ne (by simp), applies.kind]
  opcode := by rw [lookup_put_of_ne (by simp), applies.opcode]
  args := lookup_put_self applies.args _

variable {definition : Node} {qualifier label : String}

theorem Binds.putValue (binds : node.Binds definition qualifier label) (value : Json) :
    (node.put "opdef" (.obj (definition.put "expr" value))).Binds (definition.put "expr" value)
      qualifier label where
  kind := by rw [lookup_put_of_ne (by simp), binds.kind]
  opdef := lookup_put_self binds.opdef _
  qualifier := by rw [lookup_put_of_ne (by simp), binds.qualifier]
  label := by rw [lookup_put_of_ne (by simp), binds.label]

theorem Binds.putBody (binds : node.Binds definition qualifier label) (body : Json) :
    (node.put "expr" body).Binds definition qualifier label where
  kind := by rw [lookup_put_of_ne (by simp), binds.kind]
  opdef := by rw [lookup_put_of_ne (by simp), binds.opdef]
  qualifier := binds.qualifier
  label := binds.label

end Node

/-- Another value of a field is another operand behind the same label. -/
theorem LoweredField.set_operands (front back : List LoweredField) (field : LoweredField)
    (value : Json) (term : Term) (warnings : List Warning) :
    (LoweredField.operands (front ++ field :: back)).set (2 * front.length + 1) value =
      LoweredField.operands
        (front ++ ⟨field.label, field.name, value, term, warnings⟩ :: back) := by
  induction front with
  | nil => rfl
  | cons first front ih => exact congrArg (Json.obj first.label :: first.value :: ·) ih

namespace Term

/-- What a part becomes stands at a position of the term, and its warnings stand together among the
warnings. Whatever is lowered in the place of the part takes these places. -/
def Slot (whole : Json → Term → List Warning → Prop) (part : Json) (below : Option Ty)
    (term : Term) (warnings : List Warning) (target : List Nat) : Prop :=
  ∃ inner before inside after, Lowers part below inner inside ∧ term.part? target = some inner ∧
    warnings = before ++ inside ++ after ∧
    ∀ other new raised, Lowers other below new raised →
      whole other (term.replace new target) (before ++ raised ++ after)

namespace Slot

variable {whole : Json → Term → List Warning → Prop} {part : Json} {below : Option Ty}
  {term : Term} {warnings : List Warning} {target : List Nat}

/-- The part is lowered first. -/
theorem first {inner : Term} {inside after : List Warning}
    (lowered : Lowers part below inner inside) (found : term.part? target = some inner)
    (refill : ∀ other new raised, Lowers other below new raised →
      whole other (term.replace new target) (raised ++ after)) :
    Slot whole part below term (inside ++ after) target :=
  ⟨inner, [], inside, after, lowered, found, rfl, refill⟩

/-- The part is lowered last. -/
theorem last (before : List Warning) {inner : Term} {inside : List Warning}
    (lowered : Lowers part below inner inside) (found : term.part? target = some inner)
    (refill : ∀ other new raised, Lowers other below new raised →
      whole other (term.replace new target) (before ++ raised)) :
    Slot whole part below term (before ++ inside) target := by
  refine ⟨inner, before, inside, [], lowered, found, (List.append_nil _).symm, ?_⟩
  intro other new raised derived
  rw [List.append_nil]
  exact refill other new raised derived

theorem mono (slot : Slot whole part below term warnings target)
    {wider : Json → Term → List Warning → Prop}
    (covers : ∀ other term warnings, whole other term warnings → wider other term warnings) :
    Slot wider part below term warnings target := by
  obtain ⟨inner, before, inside, after, lowered, found, split, refill⟩ := slot
  refine ⟨inner, before, inside, after, lowered, found, split, ?_⟩
  intro other new raised derived
  exact covers _ _ _ (refill other new raised derived)

/-- A place in what stands at a place is a place in the whole. -/
theorem trans (outer : Slot whole part below term warnings target) {rebuild : Json → Json}
    {leaf : Json} {lowest : Option Ty} {rest : List Nat}
    (inner : ∀ {term warnings}, Lowers part below term warnings →
      Slot (fun other => Lowers (rebuild other) below) leaf lowest term warnings rest) :
    Slot (fun other => whole (rebuild other)) leaf lowest term warnings (target ++ rest) := by
  obtain ⟨middle, before, _, after, lowered, found, rfl, refill⟩ := outer
  obtain ⟨last, first, inside, final, deepest, foundInside, rfl, refillInside⟩ := inner lowered
  refine ⟨last, before ++ first, inside, final ++ after, deepest, ?_, ?_, ?_⟩
  · rw [part?_append, found]
    exact foundInside
  · simp only [List.append_assoc]
  · intro other new raised derived
    have rebuilt := refill _ _ _ (refillInside other new raised derived)
    rw [replace_append found]
    simpa only [List.append_assoc] using rebuilt

end Slot

section Operands

variable {expected : Option Ty} {index : Nat} {arg : Json}

/-- An element of a tuple can be any expression. -/
theorem Slot.element {parts : List Lowered}
    (types : Ty.expectedElements expected parts.length = parts.map Lowered.expected)
    (lowered : ∀ part ∈ parts, Lowers part.value part.expected part.term part.warnings)
    (found : (parts.map Lowered.value)[index]? = some arg) :
    Slot (fun other => Applied .tuple expected ((parts.map Lowered.value).set index other)) arg
      (Ty.expectedElement expected parts.length index) (.tuple (parts.map Lowered.term))
      (parts.flatMap Lowered.warnings) [index] := by
  rw [List.getElem?_map] at found
  obtain ⟨part, member, rfl⟩ := Option.map_eq_some_iff.mp found
  have inside := (List.getElem?_eq_some_iff.mp member).1
  have expects : part.expected = Ty.expectedElement expected parts.length index := by
    have matching := Ty.getElem?_expectedElements expected inside
    rwa [types, List.getElem?_map, member, Option.map_some, Option.some.injEq] at matching
  rw [← expects]
  obtain ⟨front, back, rfl, rfl⟩ := exists_append_cons_of_getElem? member
  obtain ⟨fronts, here, backs⟩ := forall_mem_append_cons.mp lowered
  refine ⟨part.term, front.flatMap Lowered.warnings, part.warnings,
    back.flatMap Lowered.warnings, here, ?_, ?_, ?_⟩
  · simp [part?, parts]
  · simp only [List.flatMap_append, List.flatMap_cons, List.append_assoc]
  · intro other new raised derived
    have rebuilt := @Applied.tuple expected
      (front ++ ⟨other, part.expected, new, raised⟩ :: back) (by simpa using types)
      (forall_mem_append_cons.mpr ⟨fronts, derived, backs⟩)
    have operands := set_append_cons (front.map Lowered.value) part.value other
      (back.map Lowered.value)
    have replaced := replace_tuple (front.map Lowered.term) (back.map Lowered.term) part.term new
    rw [List.length_map] at operands replaced
    simpa only [operands, List.map_append, List.map_cons, replaced, List.flatMap_append,
      List.flatMap_cons, List.append_assoc] using rebuilt

/-- A value of a record construction can be any expression. -/
theorem Slot.value {ty : Ty} {fields : List LoweredField}
    (labelFields : ∀ field ∈ fields, field.label.lookup "value" = some (.str field.name))
    (lowered : ∀ field ∈ fields, Lowers field.value none field.term field.warnings)
    (found : (LoweredField.operands fields)[2 * index + 1]? = some arg) :
    Slot (fun other => Applied .record (some ty)
        ((LoweredField.operands fields).set (2 * index + 1) other)) arg none
      (.record ty.render (fields.map fun field => (field.name, field.term)))
      (fields.flatMap LoweredField.warnings) [index] := by
  rw [LoweredField.getElem?_operands_value] at found
  obtain ⟨field, member, rfl⟩ := Option.map_eq_some_iff.mp found
  obtain ⟨front, back, rfl, rfl⟩ := exists_append_cons_of_getElem? member
  obtain ⟨frontLabels, label, backLabels⟩ := forall_mem_append_cons.mp labelFields
  obtain ⟨fronts, here, backs⟩ := forall_mem_append_cons.mp lowered
  refine ⟨field.term, front.flatMap LoweredField.warnings, field.warnings,
    back.flatMap LoweredField.warnings, here, ?_, ?_, ?_⟩
  · simp [part?, parts]
  · simp only [List.flatMap_append, List.flatMap_cons, List.append_assoc]
  · intro other new raised derived
    have rebuilt := @Applied.record ty
      (front ++ ⟨field.label, field.name, other, new, raised⟩ :: back)
      (forall_mem_append_cons.mpr ⟨frontLabels, label, backLabels⟩)
      (forall_mem_append_cons.mpr ⟨fronts, derived, backs⟩)
    have operands := LoweredField.set_operands front back field other new raised
    have replaced := replace_record ty.render field.name
      (front.map fun field => (field.name, field.term))
      (back.map fun field => (field.name, field.term)) field.term new
    rw [List.length_map] at replaced
    simpa only [operands, List.map_append, List.map_cons, replaced, List.flatMap_append,
      List.flatMap_cons, List.append_assoc] using rebuilt

/-- Every operand that an operator lowers has a slot in the term of the application, at the position
that the operator gives it. There is one case for each operand of each operator. -/
theorem Applied.slot {operator : Operator} {args : List Json} {term : Term}
    {warnings : List Warning} {ty : Option Ty} {target : List Nat}
    (applied : Applied operator expected args term warnings)
    (takes : operator.Takes args.length expected index ty target)
    (found : args[index]? = some arg) :
    Slot (fun other => Applied operator expected (args.set index other)) arg ty term warnings
      target := by
  cases takes with
  | left =>
      cases applied with
      | sum left right =>
          cases found
          exact .first left rfl fun _ _ _ other => .sum other right
  | right =>
      cases applied with
      | sum left right =>
          cases found
          exact .last _ right rfl fun _ _ _ other => .sum left other
  | negated =>
      cases applied with
      | negation operand =>
          cases found
          exact .last [] operand rfl fun _ _ _ other => .negation other
  | map =>
      cases applied with
      | keys map =>
          cases found
          exact .last [] map rfl fun _ _ _ other => .keys other
  | condition =>
      cases applied with
      | choice condition yes no =>
          cases found
          exact .first condition rfl fun _ _ _ other => .choice other yes no
  | yes =>
      cases applied with
      | choice condition yes no =>
          cases found
          refine ⟨_, _, _, _, yes, rfl, (List.append_assoc ..).symm, ?_⟩
          intro _ _ _ other
          rw [List.append_assoc]
          exact .choice condition other no
  | no =>
      cases applied with
      | choice condition yes no =>
          cases found
          rw [← List.append_assoc]
          refine .last _ no rfl ?_
          intro _ _ _ other
          rw [List.append_assoc]
          exact .choice condition yes other
  | set =>
      cases applied with
      | membership set element =>
          cases found
          exact .first set rfl fun _ _ _ other => .membership other element
  | member =>
      cases applied with
      | membership set element =>
          cases found
          exact .last _ element rfl fun _ _ _ other => .membership set other
  | base =>
      cases applied with
      | field labelField base =>
          cases found
          exact .last [] base rfl fun _ _ _ other => .field labelField other
  | element =>
      cases applied with
      | tuple types lowered =>
          rw [List.length_map]
          exact .element types lowered found
  | value =>
      cases applied with
      | record labelFields lowered => exact .value labelFields lowered found

end Operands

namespace Active

variable {value part : Json} {expected below : Option Ty} {path : List Json.Step}
  {target : List Nat}

theorem part?_eq_some (active : Active value expected path part below target) :
    value.part? path = some part := by
  induction active with
  | here => rfl
  | operand applies found _ _ ih =>
      simpa [Json.part?, Json.below?, applies.args, found] using ih
  | bound binds found _ ih => simpa [Json.part?, Json.below?, binds.opdef, found] using ih
  | body _ found _ ih => simpa [Json.part?, Json.below?, found] using ih

/-- Any expression can stand at an active position. The derivation of the whole is kept on the way
to the position, rule by rule. -/
theorem slot (active : Active value expected path part below target) :
    ∀ {term : Term} {warnings : List Warning}, Lowers value expected term warnings →
      Slot (fun other => Lowers (value.replace other path) expected) part below term warnings
        target := by
  induction active with
  | here =>
      intro term warnings derived
      exact .last [] derived rfl fun _ _ _ other => other
  | @operand node expected _ _ operator args index arg _ path _ _ applies found takes _ ih =>
      intro term warnings derived
      refine ((derived.of_applies operator applies).slot takes found |>.trans ih).mono ?_
      intro other _ _ applied
      have replaced : (Json.obj node).replace other (.member "args" :: .element index :: path) =
          .obj (node.put "args" (.arr (args.set index (arg.replace other path)))) := by
        simp [Json.replace, Json.below?, Json.put, applies.args, found]
      rw [replaced]
      exact applied.lowers (applies.put _)
  | @bound node definition expected _ label value _ path _ binds found _ ih =>
      intro term warnings derived
      obtain ⟨_, body, inner, rest, before, after, valueField, bodyField, rfl, rfl, lowered,
        others⟩ := derived.of_binds binds
      obtain rfl := Option.some.inj (found.symm.trans valueField)
      have outer : Slot (fun other => Lowers
          (.obj (node.put "opdef" (.obj (definition.put "expr" other)))) expected) value none
          (.bind label inner rest) (before ++ after) [0] := by
        refine .first lowered rfl fun other _ _ derived => ?_
        refine .binding (binds.putValue other) (Node.lookup_put_self found _) ?_ derived others
        rw [Node.lookup_put_of_ne (by simp), bodyField]
      refine (outer.trans ih).mono ?_
      intro other _ _ derived
      simpa [Json.replace, Json.below?, Json.put, binds.opdef, found] using derived
  | @body node definition expected _ label body _ path _ binds found _ ih =>
      intro term warnings derived
      obtain ⟨value, _, inner, rest, before, after, valueField, bodyField, rfl, rfl, others,
        lowered⟩ := derived.of_binds binds
      obtain rfl := Option.some.inj (found.symm.trans bodyField)
      have outer : Slot (fun other => Lowers (.obj (node.put "expr" other)) expected) body expected
          (.bind label inner rest) (before ++ after) [1] := by
        refine .last before lowered rfl fun other _ _ derived => ?_
        exact .binding (binds.putBody other) valueField (Node.lookup_put_self found _) others
          derived
      refine (outer.trans ih).mono ?_
      intro other _ _ derived
      simpa [Json.replace, Json.below?, Json.put, found] using derived

end Active

/-- An expression of an unknown kind at an active position of an expression that can be lowered
leaves a placeholder where the term of the former part stood, and one warning in the place of the
warnings that the former part raised. All else stays as it was. -/
theorem lower_degrades_locally {value part : Json} {expected below : Option Ty}
    {path : List Json.Step} {target : List Nat} {term : Term} {earlier log : Array Warning}
    (run : (lower value expected).runWith earlier = (.ok term, log))
    (active : Active value expected path part below target) :
    ∃ inner before inside after, value.part? path = some part ∧
      (lower part below).runWith (earlier ++ before.toArray) =
        (.ok inner, earlier ++ (before ++ inside).toArray) ∧
      term.part? target = some inner ∧ log = earlier ++ (before ++ inside ++ after).toArray ∧
      (term.replace .todo target).part? target = some .todo ∧
      (∀ other, Apart target other →
        (term.replace .todo target).part? other = term.part? other) ∧
      ∀ (node : Node) (kind : String), node.lookup "kind" = some (.str kind) →
        kind ∉ TermKind.names →
        (lower (value.replace (.obj node) path) expected).runWith earlier =
          (.ok (term.replace .todo target),
            earlier ++ (before ++ .unsupportedExprKind kind :: after).toArray) := by
  obtain ⟨warnings, derived, rfl⟩ := traced value run
  obtain ⟨inner, before, inside, after, lowered, found, rfl, refill⟩ := active.slot derived
  refine ⟨inner, before, inside, after, active.part?_eq_some, ?_, found, rfl,
    part?_replace_self found _, fun other apart => part?_replace_of_apart found apart _, ?_⟩
  · rw [lowered.yields, Lowering.append_warnings]
  · intro node kind kindField unknown
    have replaced := refill _ _ _ (.otherKind kindField (TermKind.ofName?_eq_none.mpr unknown))
    rw [replaced.yields, List.append_assoc, List.singleton_append]

/-- A binding over a tuple whose second element tests for a negated element. Expressions of unknown
kinds stand before, inside and behind the negation. -/
def sampleBinding : Json :=
  .obj [("expr", .obj [("args", .arr [.obj [("kind", .str "lambda")],
        .obj [("args", .arr [.obj [("kind", .str "name"), ("name", .str "paid")],
            .obj [("args", .arr [.obj [("kind", .str "match")]]), ("kind", .str "app"),
              ("opcode", .str "not")]]),
          ("kind", .str "app"), ("opcode", .str "contains")],
        .obj [("kind", .str "forall")]]),
      ("kind", .str "app"), ("opcode", .str "Tup")]),
    ("kind", .str "let"),
    ("opdef", .obj [("expr", .obj [("kind", .str "bool"), ("value", .bool true)]),
      ("name", .str "open"), ("qualifier", .str "val")])]

/-- The negation is replaced, and the warnings before and behind it stay. -/
theorem sampleBinding_degrades_locally :
    ∃ path before inside after,
      (lower sampleBinding none).runFresh =
        (.ok (.bind "open" (.literal (.bool true))
            (.tuple [.todo, containsKey (.name "paid") (.negate .todo), .todo])),
          (before ++ inside ++ after).toArray) ∧
      before ++ inside ++ after = [.unsupportedExprKind "lambda", .unsupportedExprKind "match",
        .unsupportedExprKind "forall"] ∧
      (lower (sampleBinding.replace (.obj [("kind", .str "exists")]) path) none).runFresh =
        (.ok (.bind "open" (.literal (.bool true))
            (.tuple [.todo, containsKey (.name "paid") .todo, .todo])),
          (before ++ .unsupportedExprKind "exists" :: after).toArray) := by
  have run : (lower sampleBinding none).runWith #[] =
      (.ok (.bind "open" (.literal (.bool true))
          (.tuple [.todo, containsKey (.name "paid") (.negate .todo), .todo])),
        #[.unsupportedExprKind "lambda", .unsupportedExprKind "match",
          .unsupportedExprKind "forall"]) := by
    with_unfolding_all rfl
  have active : Active sampleBinding none [.member "expr", .member "args", .element 1,
      .member "args", .element 1] _ none [1, 1, 1, 0] :=
    .body ⟨rfl, rfl, rfl, rfl⟩ rfl
      (@Active.operand _ _ _ _ .tuple _ 1 _ _ _ [1] _ ⟨rfl, rfl, rfl⟩ rfl .element
        (@Active.operand _ _ _ _ .membership _ 1 _ _ _ [1, 0] _ ⟨rfl, rfl, rfl⟩ rfl .member .here))
  obtain ⟨inner, before, inside, after, -, -, -, log, -, -, degrades⟩ :=
    lower_degrades_locally run active
  rw [Array.empty_append] at log
  have replaced := degrades [("kind", .str "exists")] "exists" rfl (by decide)
  rw [Array.empty_append] at replaced
  exact ⟨_, before, inside, after, log ▸ run, (congrArg Array.toList log).symm, replaced⟩

end Term

end SpecTranspiler

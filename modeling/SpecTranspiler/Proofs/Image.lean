import SpecTranspiler.Proofs.Subterms
import SpecTranspiler.Proofs.TermDerivation

/-!
# The terms that lowering yields

`Term.Image` lists, for an optional expected type, the terms that an expression can become
against it. Lowering never leaves this set, and reaches all of it from values that a text can
hold. A record in a lowered term is therefore named after a type that was handed down to it.
-/

namespace SpecTranspiler

/-- The terms that expressions become against an optional expected type. -/
inductive Term.Image : Option Ty → Term → Prop where
  | todo {expected : Option Ty} : Term.Image expected .todo
  | literal {expected : Option Ty} (value : Literal) : Term.Image expected (.literal value)
  | name {expected : Option Ty} (name : String) : Term.Image expected (.name name)
  | field {expected : Option Ty} {base : Term} (name : String) (inner : Term.Image none base) :
      Term.Image expected (.field base name)
  | negate {expected : Option Ty} {operand : Term} (inner : Term.Image (some .bool) operand) :
      Term.Image expected (.negate operand)
  | add {expected : Option Ty} {left right : Term} (first : Term.Image (some .uint64) left)
      (second : Term.Image (some .uint64) right) : Term.Image expected (.add left right)
  | ifElse {expected : Option Ty} {condition yes no : Term}
      (test : Term.Image (some .bool) condition) (whenTrue : Term.Image expected yes)
      (whenFalse : Term.Image expected no) : Term.Image expected (.ifElse condition yes no)
  | bind {expected : Option Ty} {value body : Term} (name : String)
      (bound : Term.Image none value) (rest : Term.Image expected body) :
      Term.Image expected (.bind name value body)
  | typedTuple {elements : List (Ty × Term)}
      (each : ∀ element ∈ elements, Term.Image (some element.1) element.2) :
      Term.Image (some (.tuple (elements.map Prod.fst))) (.tuple (elements.map Prod.snd))
  | untypedTuple {expected : Option Ty} {elements : List Term}
      (mismatch : ∀ types, expected = some (.tuple types) → types.length ≠ elements.length)
      (each : ∀ element ∈ elements, Term.Image none element) :
      Term.Image expected (.tuple elements)
  | containsKey {expected : Option Ty} {set element : Term}
      (container : Term.Image (some (.set (.named "_"))) set)
      (key : Term.Image none element) :
      Term.Image expected
        (.methodCall (.borrow set) "contains_key" [] [.borrow element])
  | keySet {expected : Option Ty} {map : Term}
      (container : Term.Image (some (.map (.named "_") (.named "_"))) map) :
      Term.Image expected
        (.methodCall (.methodCall map "keys" [] []) "collect" [.set (.named "_")] [])
  | record {ty : Ty} {fields : List (String × Term)}
      (each : ∀ field ∈ fields, Term.Image none field.2) :
      Term.Image (some ty) (.record ty.render fields)

/-- The types that operators expect of their operands. -/
def Ty.operandTypes : List Ty :=
  [.bool, .uint64, .set (.named "_"), .map (.named "_") (.named "_")]

/-- A type is expected of some part of an expression that an optional type is expected of. -/
inductive Ty.HandedDown : Option Ty → Ty → Prop where
  | whole (ty : Ty) : Ty.HandedDown (some ty) ty
  | element {types : List Ty} {ty part : Ty} (member : ty ∈ types)
      (inside : Ty.HandedDown (some ty) part) : Ty.HandedDown (some (.tuple types)) part
  | operand {expected : Option Ty} {ty : Ty} (member : ty ∈ Ty.operandTypes) :
      Ty.HandedDown expected ty

namespace Term

/-- Elements with the types expected of them, from their derivations. -/
theorem Image.elements_of_parts {types : List Ty} {parts : List Lowered}
    (expected : types.map some = parts.map Lowered.expected)
    (image : ∀ part ∈ parts, Image part.expected part.term) :
    ∃ elements : List (Ty × Term), elements.map Prod.fst = types ∧
      elements.map Prod.snd = parts.map Lowered.term ∧
      ∀ element ∈ elements, Image (some element.1) element.2 := by
  induction parts generalizing types with
  | nil =>
      obtain rfl := List.map_eq_nil_iff.mp expected
      refine ⟨[], rfl, rfl, ?_⟩
      intro element member
      cases member
  | cons part parts ih =>
      obtain ⟨ty, types, rfl, sameType, sameRest⟩ := List.map_eq_cons_iff.mp expected
      obtain ⟨elements, rfl, terms, all⟩ :=
        ih sameRest fun other member => image other (List.mem_cons_of_mem _ member)
      have head := image part List.mem_cons_self
      rw [← sameType] at head
      refine ⟨(ty, part.term) :: elements, rfl, ?_, ?_⟩
      · rw [List.map_cons, List.map_cons, terms]
      · intro element member
        rcases List.mem_cons.mp member with rfl | member
        · exact head
        · exact all element member

/-- A tuple whose elements were lowered against the types that are expected of them. -/
theorem Image.tuple_of_parts {expected : Option Ty} {parts : List Lowered}
    (types : Ty.expectedElements expected parts.length = parts.map Lowered.expected)
    (image : ∀ part ∈ parts, Image part.expected part.term) :
    Image expected (.tuple (parts.map Lowered.term)) := by
  have untyped (replicated : List.replicate parts.length none = parts.map Lowered.expected) :
      ∀ element ∈ parts.map Lowered.term, Image none element := by
    intro element member
    obtain ⟨part, partMember, rfl⟩ := List.mem_map.mp member
    have blank : part.expected = none := by
      have listed : part.expected ∈ List.replicate parts.length none := by
        rw [replicated]
        exact List.mem_map_of_mem partMember
      exact List.eq_of_mem_replicate listed
    have head := image part partMember
    rwa [blank] at head
  unfold Ty.expectedElements at types
  split at types
  · next elements =>
      split at types
      · obtain ⟨pairs, rfl, terms, all⟩ := Image.elements_of_parts types image
        rw [← terms]
        exact .typedTuple all
      · next different =>
          refine .untypedTuple ?_ (untyped types)
          rintro others same
          cases same
          rwa [List.length_map]
  · next other =>
      exact .untypedTuple (fun others same => (other others same).elim) (untyped types)

/-- Every lowered term is in the image of the type expected of it. -/
theorem Lowers.image {value : Json} {expected : Option Ty} {term : Term}
    {warnings : List Warning} (derived : Lowers value expected term warnings) :
    Image expected term := by
  induction derived with
  | str => exact .literal _
  | int => exact .literal _
  | bool => exact .literal _
  | reference => exact .name _
  | binding _ _ _ _ _ valueIH bodyIH => exact .bind _ valueIH bodyIH
  | otherBinding => exact .todo
  | sum _ _ _ leftIH rightIH => exact .add leftIH rightIH
  | record _ _ _ ih =>
      refine .record fun pair member => ?_
      obtain ⟨field, fieldMember, rfl⟩ := List.mem_map.mp member
      exact ih field fieldMember
  | namelessRecord => exact .todo
  | tuple _ types _ ih => exact .tuple_of_parts types ih
  | choice _ _ _ _ conditionIH yesIH noIH => exact .ifElse conditionIH yesIH noIH
  | negation _ _ ih => exact .negate ih
  | membership _ _ _ setIH elementIH => exact .containsKey setIH elementIH
  | keys _ _ ih => exact .keySet ih
  | field _ _ _ ih => exact .field _ ih
  | otherOperator => exact .todo
  | otherKind => exact .todo

end Term

namespace Json

/-- The value can be read from a text: the keys of its objects ascend strictly, and its integers
have 64 bits. -/
inductive Canonical : Json → Prop where
  | null : Canonical .null
  | bool (truth : Bool) : Canonical (.bool truth)
  | int {value : Int} (least : -9223372036854775808 ≤ value)
      (greatest : value < 18446744073709551616) : Canonical (.num (.int value))
  | float (value : Binary64) : Canonical (.num (.float value))
  | str (text : String) : Canonical (.str text)
  | arr {elements : List Json} (each : ∀ element ∈ elements, Canonical element) :
      Canonical (.arr elements)
  | obj {members : Node} (ascending : (members.map Prod.fst).Pairwise (· < ·))
      (each : ∀ member ∈ members, Canonical member.2) : Canonical (.obj members)

/-- The node of a value of a kind. -/
def valueNode (kind : String) (value : Json) : Node :=
  [("kind", .str kind), ("value", value)]

/-- The node that applies an operator to operands. -/
def applicationNode (opcode : String) (args : List Json) : Node :=
  [("args", .arr args), ("kind", .str "app"), ("opcode", .str opcode)]

/-- The definition of a value under a name. -/
def definitionNode (name : String) (value : Json) : Node :=
  [("expr", value), ("name", .str name), ("qualifier", .str "val")]

/-- The node that binds a name to a value inside a body. -/
def bindingNode (name : String) (value body : Json) : Node :=
  [("expr", body), ("kind", .str "let"), ("opdef", .obj (definitionNode name value))]

theorem Canonical.valueNode {kind : String} {value : Json} (canonical : Canonical value) :
    Canonical (.obj (valueNode kind value)) := by
  refine .obj ?_ ?_
  · change ["kind", "value"].Pairwise (· < ·)
    decide
  · simp only [Json.valueNode, List.forall_mem_cons]
    exact ⟨.str _, canonical, List.forall_mem_nil _⟩

theorem Canonical.applicationNode {opcode : String} {args : List Json}
    (each : ∀ arg ∈ args, Canonical arg) : Canonical (.obj (applicationNode opcode args)) := by
  refine .obj ?_ ?_
  · change ["args", "kind", "opcode"].Pairwise (· < ·)
    decide
  · simp only [Json.applicationNode, List.forall_mem_cons]
    exact ⟨.arr each, .str _, .str _, List.forall_mem_nil _⟩

theorem Canonical.bindingNode {name : String} {value body : Json} (first : Canonical value)
    (second : Canonical body) : Canonical (.obj (bindingNode name value body)) := by
  have definition : Canonical (.obj (definitionNode name value)) := by
    refine .obj ?_ ?_
    · change ["expr", "name", "qualifier"].Pairwise (· < ·)
      decide
    · simp only [definitionNode, List.forall_mem_cons]
      exact ⟨first, .str _, .str _, List.forall_mem_nil _⟩
  refine .obj ?_ ?_
  · change ["expr", "kind", "opdef"].Pairwise (· < ·)
    decide
  · simp only [Json.bindingNode, List.forall_mem_cons]
    exact ⟨second, .str _, definition, List.forall_mem_nil _⟩

end Json

namespace Term

/-- Some value that a text can hold becomes the term. -/
def Reached (expected : Option Ty) (term : Term) : Prop :=
  ∃ value warnings, value.Canonical ∧ Lowers value expected term warnings

/-- A term that an operator makes of operands is reached when they are canonical. -/
theorem Reached.of_application {expected : Option Ty} {term : Term} {warnings : List Warning}
    (opcode : String) {args : List Json} (canonical : ∀ arg ∈ args, arg.Canonical)
    (derived : ∀ node : Node, node.Applies opcode args →
      Lowers (.obj node) expected term warnings) : Reached expected term :=
  ⟨.obj (Json.applicationNode opcode args), warnings, .applicationNode canonical,
    derived _ ⟨rfl, rfl, rfl⟩⟩

theorem Reached.literal (expected : Option Ty) (value : Literal) :
    Reached expected (.literal value) := by
  cases value with
  | uint64 n =>
      have inside := n.toNat_lt
      have exact : (Json.Number.int n.toNat).toUInt64? = some n := by
        rw [Json.Number.toUInt64?, if_pos]
        · rw [Int.toNat_natCast, UInt64.ofNat_toNat]
        · exact ⟨Int.natCast_nonneg _, Int.ofNat_lt.mpr n.toNat_lt_size⟩
      have canonical : Json.Canonical (.num (.int n.toNat)) := .int (by omega) (by omega)
      exact ⟨_, _, .valueNode canonical, .int rfl rfl exact⟩
  | str text => exact ⟨_, _, .valueNode (.str text), .str rfl rfl⟩
  | bool truth => exact ⟨_, _, .valueNode (.bool truth), .bool rfl rfl⟩

/-- Elements that are reached one by one are reached together. -/
theorem Reached.parts {elements : List (Option Ty × Term)}
    (reached : ∀ element ∈ elements, Reached element.1 element.2) :
    ∃ parts : List Lowered, elements = parts.map (fun part => (part.expected, part.term)) ∧
      (∀ part ∈ parts, part.value.Canonical) ∧
      ∀ part ∈ parts, Lowers part.value part.expected part.term part.warnings := by
  induction elements with
  | nil => exact ⟨[], rfl, List.forall_mem_nil _, List.forall_mem_nil _⟩
  | cons element elements ih =>
      obtain ⟨value, warnings, canonical, derived⟩ := reached element List.mem_cons_self
      obtain ⟨parts, rfl, canonicals, all⟩ :=
        ih fun other member => reached other (List.mem_cons_of_mem _ member)
      exact ⟨⟨value, element.1, element.2, warnings⟩ :: parts, rfl,
        List.forall_mem_cons.mpr ⟨canonical, canonicals⟩,
        List.forall_mem_cons.mpr ⟨derived, all⟩⟩

/-- Fields whose values are reached are reached together. -/
theorem Reached.fields {fields : List (String × Term)}
    (reached : ∀ field ∈ fields, Reached none field.2) :
    ∃ lowered : List LoweredField, fields = lowered.map (fun field => (field.name, field.term)) ∧
      (∀ arg ∈ LoweredField.operands lowered, arg.Canonical) ∧
      (∀ field ∈ lowered, field.label.lookup "value" = some (.str field.name)) ∧
      ∀ field ∈ lowered, Lowers field.value none field.term field.warnings := by
  induction fields with
  | nil =>
      exact ⟨[], rfl, List.forall_mem_nil _, List.forall_mem_nil _, List.forall_mem_nil _⟩
  | cons field fields ih =>
      obtain ⟨value, warnings, canonical, derived⟩ := reached field List.mem_cons_self
      obtain ⟨lowered, rfl, canonicals, names, all⟩ :=
        ih fun other member => reached other (List.mem_cons_of_mem _ member)
      have label : Json.Canonical (.obj (Json.valueNode "str" (.str field.1))) :=
        .valueNode (.str _)
      exact ⟨⟨Json.valueNode "str" (.str field.1), field.1, value, field.2, warnings⟩ :: lowered,
        rfl, List.forall_mem_cons.mpr ⟨label, List.forall_mem_cons.mpr ⟨canonical, canonicals⟩⟩,
        List.forall_mem_cons.mpr ⟨rfl, names⟩, List.forall_mem_cons.mpr ⟨derived, all⟩⟩

/-- A tuple is reached when its elements are, against the types that are expected of them. -/
theorem Reached.tuple {expected : Option Ty} {elements : List (Option Ty × Term)}
    (types : Ty.expectedElements expected elements.length = elements.map Prod.fst)
    (reached : ∀ element ∈ elements, Reached element.1 element.2) :
    Reached expected (.tuple (elements.map Prod.snd)) := by
  obtain ⟨parts, rfl, canonicals, all⟩ := Reached.parts reached
  rw [List.length_map, List.map_map] at types
  rw [List.map_map]
  refine .of_application "Tup" ?_ fun node applies => .tuple applies types all
  intro arg member
  obtain ⟨part, partMember, rfl⟩ := List.mem_map.mp member
  exact canonicals part partMember

/-- Every term of the image is reached. -/
theorem Image.reached {expected : Option Ty} {term : Term} (image : Image expected term) :
    Reached expected term := by
  induction image with
  | todo =>
      have canonical : Json.Canonical (.obj [("kind", .str "lambda")]) :=
        .obj (List.pairwise_singleton ..) (List.forall_mem_singleton.mpr (.str _))
      exact ⟨_, _, canonical, .otherKind rfl rfl⟩
  | literal value => exact .literal _ value
  | name name =>
      have canonical : Json.Canonical (.obj [("kind", .str "name"), ("name", .str name)]) := by
        refine .obj ?_ ?_
        · change ["kind", "name"].Pairwise (· < ·)
          decide
        · simp only [List.forall_mem_cons]
          exact ⟨.str _, .str _, List.forall_mem_nil _⟩
      exact ⟨_, _, canonical, .reference rfl rfl⟩
  | field name _ ih =>
      obtain ⟨base, _, canonical, derived⟩ := ih
      have label : Json.Canonical (.obj (Json.valueNode "str" (.str name))) :=
        .valueNode (.str _)
      have labelField : (Json.valueNode "str" (.str name)).lookup "value" = some (.str name) := rfl
      exact .of_application "field" (by simp [canonical, label])
        fun node applies => .field applies labelField derived
  | negate _ ih =>
      obtain ⟨operand, _, canonical, derived⟩ := ih
      exact .of_application "not" (by simp [canonical])
        fun node applies => .negation applies derived
  | add _ _ firstIH secondIH =>
      obtain ⟨left, _, leftCanonical, leftDerived⟩ := firstIH
      obtain ⟨right, _, rightCanonical, rightDerived⟩ := secondIH
      exact .of_application "iadd" (by simp [leftCanonical, rightCanonical])
        fun node applies => .sum applies leftDerived rightDerived
  | ifElse _ _ _ testIH trueIH falseIH =>
      obtain ⟨condition, _, testCanonical, testDerived⟩ := testIH
      obtain ⟨yes, _, trueCanonical, trueDerived⟩ := trueIH
      obtain ⟨no, _, falseCanonical, falseDerived⟩ := falseIH
      exact .of_application "ite" (by simp [testCanonical, trueCanonical, falseCanonical])
        fun node applies => .choice applies testDerived trueDerived falseDerived
  | bind name _ _ boundIH restIH =>
      obtain ⟨value, _, valueCanonical, valueDerived⟩ := boundIH
      obtain ⟨body, _, bodyCanonical, bodyDerived⟩ := restIH
      have binds : Node.Binds (Json.bindingNode name value body)
          (Json.definitionNode name value) "val" name := ⟨rfl, rfl, rfl, rfl⟩
      exact ⟨_, _, .bindingNode valueCanonical bodyCanonical,
        .binding binds rfl rfl valueDerived bodyDerived⟩
  | @typedTuple elements _ ih =>
      have types : Ty.expectedElements (some (.tuple (elements.map Prod.fst)))
          (elements.map fun element => (some element.1, element.2)).length =
            (elements.map fun element => (some element.1, element.2)).map Prod.fst := by
        simp only [Ty.expectedElements, List.length_map, ↓reduceIte, List.map_map]
        rfl
      have reached := Reached.tuple types (List.forall_mem_map.mpr ih)
      rwa [List.map_map] at reached
  | @untypedTuple expected elements mismatch _ ih =>
      have types : Ty.expectedElements expected
          (elements.map fun element => ((none : Option Ty), element)).length =
            (elements.map fun element => ((none : Option Ty), element)).map Prod.fst := by
        rw [List.length_map, List.map_map]
        unfold Ty.expectedElements
        split
        · next others =>
            rw [if_neg (mismatch others rfl)]
            exact List.map_const'.symm
        · exact List.map_const'.symm
      have reached := Reached.tuple types (List.forall_mem_map.mpr ih)
      rwa [List.map_map, List.map_id''] at reached
      exact fun _ => rfl
  | containsKey _ _ containerIH keyIH =>
      obtain ⟨set, _, setCanonical, setDerived⟩ := containerIH
      obtain ⟨element, _, elementCanonical, elementDerived⟩ := keyIH
      exact .of_application "contains" (by simp [setCanonical, elementCanonical])
        fun node applies => .membership applies setDerived elementDerived
  | keySet _ ih =>
      obtain ⟨map, _, canonical, derived⟩ := ih
      exact .of_application "keys" (by simp [canonical])
        fun node applies => .keys applies derived
  | record _ ih =>
      obtain ⟨lowered, rfl, canonicals, names, all⟩ := Reached.fields ih
      exact .of_application "Rec" canonicals fun node applies => .record applies names all

/-- What is handed down from the first type is handed down from the second. -/
def HandsDownFrom (handed expected : Option Ty) : Prop :=
  ∀ ty, Ty.HandedDown handed ty → Ty.HandedDown expected ty

theorem handsDownFrom_none (expected : Option Ty) : HandsDownFrom none expected := by
  intro ty handed
  cases handed with
  | operand member => exact .operand member

theorem handsDownFrom_operand {ty : Ty} (operand : ty ∈ Ty.operandTypes)
    (expected : Option Ty) : HandsDownFrom (some ty) expected := by
  intro part handed
  cases handed with
  | whole => exact .operand operand
  | element => simp [Ty.operandTypes] at operand
  | operand member => exact .operand member

/-- The term is a step of a membership test or of a key set, or in the image of a type that was
handed down. -/
inductive Placed (expected : Option Ty) : Term → Prop where
  | borrow (operand : Term) : Placed expected (.borrow operand)
  | keys (map : Term) : Placed expected (.methodCall map "keys" [] [])
  | image {handed : Option Ty} {term : Term} (below : HandsDownFrom handed expected)
      (image : Image handed term) : Placed expected term

/-- All that occurs in the term is placed. -/
def PlacedThroughout (expected : Option Ty) (term : Term) : Prop :=
  ∀ part, Within part term → Placed expected part

theorem PlacedThroughout.lift {handed expected : Option Ty} {term : Term}
    (placed : PlacedThroughout handed term) (below : HandsDownFrom handed expected) :
    PlacedThroughout expected term := by
  intro part inside
  cases placed part inside with
  | borrow operand => exact .borrow operand
  | keys map => exact .keys map
  | image deeper image => exact .image (fun ty inside => below ty (deeper ty inside)) image

theorem PlacedThroughout.of_parts {expected : Option Ty} {term : Term}
    (whole : Placed expected term)
    (each : ∀ part ∈ term.parts, PlacedThroughout expected part) :
    PlacedThroughout expected term := by
  intro part inside
  cases inside with
  | here => exact whole
  | deeper direct inside => exact each _ direct part inside

theorem PlacedThroughout.of_image {expected : Option Ty} {term : Term}
    (image : Image expected term) (each : ∀ part ∈ term.parts, PlacedThroughout expected part) :
    PlacedThroughout expected term :=
  .of_parts (.image (fun _ => id) image) each

/-- Whatever occurs in a term of the image is placed: it is of the image itself, for a type that is
handed down, or it is one of the two shapes that operators put around their operands. -/
theorem Image.placedThroughout {expected : Option Ty} {term : Term}
    (image : Image expected term) : PlacedThroughout expected term := by
  induction image with
  | todo => exact .of_image .todo (List.forall_mem_nil _)
  | literal value => exact .of_image (.literal value) (List.forall_mem_nil _)
  | name name => exact .of_image (.name name) (List.forall_mem_nil _)
  | field name inner ih =>
      exact .of_image (.field name inner)
        (List.forall_mem_singleton.mpr (ih.lift (handsDownFrom_none _)))
  | @negate expected _ inner ih =>
      have test : HandsDownFrom (some .bool) expected :=
        handsDownFrom_operand (by simp [Ty.operandTypes]) expected
      exact .of_image (.negate inner) (List.forall_mem_singleton.mpr (ih.lift test))
  | @add expected _ _ first second firstIH secondIH =>
      have summand : HandsDownFrom (some .uint64) expected :=
        handsDownFrom_operand (by simp [Ty.operandTypes]) expected
      exact .of_image (.add first second) (List.forall_mem_cons.mpr
        ⟨firstIH.lift summand, List.forall_mem_singleton.mpr (secondIH.lift summand)⟩)
  | @ifElse expected _ _ _ test whenTrue whenFalse testIH trueIH falseIH =>
      have condition : HandsDownFrom (some .bool) expected :=
        handsDownFrom_operand (by simp [Ty.operandTypes]) expected
      exact .of_image (.ifElse test whenTrue whenFalse) (List.forall_mem_cons.mpr
        ⟨testIH.lift condition, List.forall_mem_cons.mpr
          ⟨trueIH, List.forall_mem_singleton.mpr falseIH⟩⟩)
  | bind name bound rest boundIH restIH =>
      exact .of_image (.bind name bound rest) (List.forall_mem_cons.mpr
        ⟨boundIH.lift (handsDownFrom_none _), List.forall_mem_singleton.mpr restIH⟩)
  | typedTuple each ih =>
      refine .of_image (.typedTuple each) (List.forall_mem_map.mpr fun element member => ?_)
      refine (ih element member).lift fun ty handed => ?_
      exact .element (List.mem_map_of_mem member) handed
  | untypedTuple mismatch each ih =>
      refine .of_image (.untypedTuple mismatch each) fun element member => ?_
      exact (ih element member).lift (handsDownFrom_none _)
  | @containsKey expected _ _ container key containerIH keyIH =>
      have set : HandsDownFrom (some (.set (.named "_"))) expected :=
        handsDownFrom_operand (by simp [Ty.operandTypes]) expected
      refine .of_image (.containsKey container key) (List.forall_mem_cons.mpr
        ⟨?_, List.forall_mem_singleton.mpr ?_⟩)
      · exact .of_parts (.borrow _) (List.forall_mem_singleton.mpr (containerIH.lift set))
      · exact .of_parts (.borrow _)
          (List.forall_mem_singleton.mpr (keyIH.lift (handsDownFrom_none _)))
  | @keySet expected _ container ih =>
      have map : HandsDownFrom (some (.map (.named "_") (.named "_"))) expected :=
        handsDownFrom_operand (by simp [Ty.operandTypes]) expected
      refine .of_image (.keySet container) (List.forall_mem_singleton.mpr ?_)
      exact .of_parts (.keys _) (List.forall_mem_singleton.mpr (ih.lift map))
  | record each ih =>
      refine .of_image (.record each) (List.forall_mem_map.mpr fun field member => ?_)
      exact (ih field member).lift (handsDownFrom_none _)

theorem Image.ne_record {term : Term} (image : Image none term) (name : String)
    (fields : List (String × Term)) : term ≠ .record name fields := by
  rintro rfl
  cases image

/-- A record in a term of the image is named after a type that was handed down, and no field of
it is a record. -/
theorem Image.record_within {expected : Option Ty} {term : Term} (image : Image expected term)
    {name : String} {fields : List (String × Term)}
    (inside : Within (.record name fields) term) :
    (∃ ty, Ty.HandedDown expected ty ∧ name = ty.render) ∧
      ∀ field ∈ fields, ∀ name fields, field.2 ≠ .record name fields := by
  cases image.placedThroughout _ inside with
  | image below record =>
      cases record with
      | @record ty _ each =>
          refine ⟨⟨ty, below ty (.whole ty), rfl⟩, fun field member => ?_⟩
          exact (each field member).ne_record

/-- A value that is bound in a term of the image is no record. -/
theorem Image.bound_within {expected : Option Ty} {term : Term} (image : Image expected term)
    {label : String} {value body : Term} (inside : Within (.bind label value body) term)
    (name : String) (fields : List (String × Term)) : value ≠ .record name fields := by
  cases image.placedThroughout _ inside with
  | image below binding =>
      cases binding with
      | bind _ bound _ => exact bound.ne_record name fields

/-- Against an expected type, expressions become exactly the terms of its image, and canonical
values are enough to reach them all. A record in such a term is named after a type that was
handed down; neither a field of a record nor a bound value is itself a record. -/
theorem lower_image (expected : Option Ty) :
    (∀ term, (∃ value earlier log, (lower value expected).runWith earlier = (.ok term, log)) ↔
      Image expected term) ∧
    (∀ term, Image expected term →
      ∃ value log, value.Canonical ∧ (lower value expected).runFresh = (.ok term, log)) ∧
    ∀ value earlier term log, (lower value expected).runWith earlier = (.ok term, log) →
      (∀ name fields, Within (.record name fields) term →
        (∃ ty, Ty.HandedDown expected ty ∧ name = ty.render) ∧
          ∀ field ∈ fields, ∀ name fields, field.2 ≠ .record name fields) ∧
      ∀ label bound body, Within (.bind label bound body) term →
        ∀ name fields, bound ≠ .record name fields := by
  have sound : ∀ value earlier term log,
      (lower value expected).runWith earlier = (.ok term, log) → Image expected term := by
    intro value earlier term log run
    obtain ⟨warnings, derived, -⟩ := traced value run
    exact derived.image
  have complete : ∀ term, Image expected term →
      ∃ value log, value.Canonical ∧ (lower value expected).runFresh = (.ok term, log) := by
    intro term image
    obtain ⟨value, warnings, canonical, derived⟩ := image.reached
    exact ⟨value, _, canonical, derived.yields #[]⟩
  refine ⟨fun term => ⟨?_, ?_⟩, complete, ?_⟩
  · rintro ⟨value, earlier, log, run⟩
    exact sound value earlier term log run
  · intro image
    obtain ⟨value, log, -, run⟩ := complete term image
    exact ⟨value, #[], log, run⟩
  · intro value earlier term log run
    have image := sound value earlier term log run
    exact ⟨fun name fields => image.record_within, fun label bound body => image.bound_within⟩

/-- A record whose only field is a record again. -/
def sampleNested : Json :=
  .obj (Json.applicationNode "Rec" [.obj (Json.valueNode "str" (.str "inner")),
    .obj (Json.applicationNode "Rec" [])])

/-- The outer record is named after the expected type, and the inner one is a placeholder. -/
theorem sampleNested_image :
    ∃ term, (lower sampleNested (some (.named "Outer"))).runFresh =
        (.ok term, #[.recordWithoutExpectedType]) ∧
      Image (some (.named "Outer")) term ∧
      Within (.record "Outer" [("inner", .todo)]) term ∧
      (∃ ty, Ty.HandedDown (some (.named "Outer")) ty ∧ "Outer" = ty.render) ∧
      ∃ value log, value.Canonical ∧
        (lower value (some (.named "Outer"))).runFresh = (.ok term, log) := by
  have run : (lower sampleNested (some (.named "Outer"))).runWith #[] =
      (.ok (.record "Outer" [("inner", .todo)]), #[.recordWithoutExpectedType]) := by
    with_unfolding_all rfl
  obtain ⟨exactly, reached, inside⟩ := lower_image (some (.named "Outer"))
  have image := (exactly _).mp ⟨_, _, _, run⟩
  exact ⟨_, run, image, .here, ((inside _ _ _ _ run).1 _ _ .here).1, reached _ image⟩

end Term

end SpecTranspiler

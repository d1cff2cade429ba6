import SpecTranspiler.Lower.Program
import SpecTranspiler.Proofs.Runs

/-!
# Unread members have no influence

Lowering asks a node for members under few keys. `Json.prune` takes all other members away, at
every depth, also below members that are never looked at. Every accessor gives on the pruned
node what it gives on the node itself, with the parts pruned in turn, so that types,
expressions, declarations and whole documents come out the same, faults and warnings included.
-/

namespace SpecTranspiler

namespace Json

/-- The keys of the members that are asked for. -/
def readKeys : List String :=
  ["kind", "value", "name", "qualifier", "opdef", "expr", "opcode", "args", "typeAnnotation",
    "params", "type", "fields", "fieldName", "fieldType", "elem", "arg", "res"]

mutual

/-- The value without the members under other keys, at every depth. -/
def prune : Json → Json
  | .arr elements => .arr (pruneAll elements)
  | .obj members => .obj (pruneMembers members)
  | .null => .null
  | .bool value => .bool value
  | .num value => .num value
  | .str value => .str value

/-- The values without the members under other keys. -/
def pruneAll : List Json → List Json
  | [] => []
  | value :: rest => value.prune :: pruneAll rest

/-- The members that are asked for, with their values pruned. -/
def pruneMembers : List (String × Json) → List (String × Json)
  | [] => []
  | (key, value) :: rest =>
      if key ∈ readKeys then (key, value.prune) :: pruneMembers rest else pruneMembers rest

end

theorem pruneAll_eq_map (values : List Json) : pruneAll values = values.map prune := by
  induction values with
  | nil => rw [pruneAll, List.map_nil]
  | cons value rest ih => rw [pruneAll, ih, List.map_cons]

/-- A key that is read anywhere keeps its value, which is pruned. -/
theorem lookup_pruneMembers {key : String} (asked : key ∈ readKeys)
    (members : List (String × Json)) :
    (pruneMembers members).lookup key = (members.lookup key).map prune := by
  induction members with
  | nil => rfl
  | cons member rest ih =>
      obtain ⟨other, value⟩ := member
      rw [pruneMembers]
      by_cases same : key = other
      · subst same
        rw [if_pos asked, List.lookup_cons_self, List.lookup_cons_self, Option.map_some]
      · have apart : (key == other) = false := beq_false_of_ne same
        rw [List.lookup_cons, apart]
        split
        · rw [List.lookup_cons, apart, ih]
        · exact ih

end Json

/-- What is done to each value of a list does not depend on unread members, if it does not for
one value. -/
theorem Json.mapM_pruneAll {m : Type → Type} [Monad m] [LawfulMonad m] {β : Type}
    {step : Json → m β} (same : ∀ value, step value.prune = step value) (values : List Json) :
    (Json.pruneAll values).mapM step = values.mapM step := by
  rw [Json.pruneAll_eq_map, List.mapM_map]
  exact congrArg (values.mapM ·) (funext same)

/-- Two readings stop with the same fault, or give parts that belong together. -/
inductive Reads {α β : Type} (Related : α → β → Prop) : Except Fault α → Except Fault β → Prop where
  | fault (fault : Fault) : Reads Related (.error fault) (.error fault)
  | found {a : α} {b : β} (related : Related a b) : Reads Related (.ok a) (.ok b)

namespace Reads

variable {α β γ : Type} {Related : α → β → Prop} {left : Except Fault α} {right : Except Fault β}

/-- What follows two readings is the same, if it is the same on parts that belong together. -/
theorem bind_eq (reads : Reads Related left right) {first : α → Except Fault γ}
    {second : β → Except Fault γ} (next : ∀ a b, Related a b → first a = second b) :
    (left >>= first) = (right >>= second) := by
  cases reads with
  | fault fault => rfl
  | found related => exact next _ _ related

theorem bind {δ : Type} {Following : γ → δ → Prop} (reads : Reads Related left right)
    {first : α → Except Fault γ} {second : β → Except Fault δ}
    (next : ∀ a b, Related a b → Reads Following (first a) (second b)) :
    Reads Following (left >>= first) (right >>= second) := by
  cases reads with
  | fault fault => exact .fault fault
  | found related => exact next _ _ related

/-- The same while warnings are recorded. -/
theorem lift_bind_eq (reads : Reads Related left right) {first : α → Lowering γ}
    {second : β → Lowering γ} (next : ∀ a b, Related a b → first a = second b) :
    ((liftM left : Lowering α) >>= first) = ((liftM right : Lowering β) >>= second) := by
  cases reads with
  | fault fault => rfl
  | found related => exact next _ _ related

/-- Parts of nodes belong together when their values do. -/
theorem of_val {f : β → α} {p : α → Prop} {q : β → Prop} {left : Except Fault (Subtype p)}
    {right : Except Fault (Subtype q)}
    (same : left.map Subtype.val = (right.map Subtype.val).map f) :
    Reads (fun first second => first.1 = f second.1) left right := by
  rcases left with fault | first
  · rcases right with other | second
    · obtain rfl := Except.error.inj same
      exact .fault fault
    · cases same
  · rcases right with other | second
    · cases same
    · exact .found (Except.ok.inj same)

theorem of_eq {reading other : Except Fault α} (same : reading = other) :
    Reads (· = ·) reading other := by
  subst same
  cases reading with
  | error fault => exact .fault fault
  | ok a => exact .found rfl

end Reads

namespace Node

variable {node : Node} {key context : String}

theorem ofValue_prune (value : Json) (context : String) :
    Reads (fun pruned node => pruned = Json.pruneMembers node) (ofValue value.prune context)
      (ofValue value context) := by
  cases value with
  | obj members =>
      rw [Json.prune]
      exact .found rfl
  | _ =>
      rw [Json.prune]
      exact .fault _

theorem string_prune (asked : key ∈ Json.readKeys) :
    string (Json.pruneMembers node) key context = string node key context := by
  unfold string
  rw [Json.lookup_pruneMembers asked]
  rcases node.lookup key with _ | value
  · rfl
  · cases value <;> simp only [Option.map_some, Json.prune]

theorem boolean_prune (asked : key ∈ Json.readKeys) :
    boolean (Json.pruneMembers node) key context = boolean node key context := by
  unfold boolean
  rw [Json.lookup_pruneMembers asked]
  rcases node.lookup key with _ | value
  · rfl
  · cases value <;> simp only [Option.map_some, Json.prune]

theorem uint64_prune (asked : key ∈ Json.readKeys) :
    uint64 (Json.pruneMembers node) key context = uint64 node key context := by
  unfold uint64
  rw [Json.lookup_pruneMembers asked]
  rcases node.lookup key with _ | value
  · rfl
  · cases value <;> simp only [Option.map_some, Json.prune]

theorem child_val (node : Node) (key context : String) :
    (child node key context).map Subtype.val =
      match node.lookup key with
      | some value => .ok value
      | none => .error (.missingField key context) := by
  unfold child
  split
  · next found => simp only [found, Except.map]
  · next found => simp only [found, Except.map]

theorem array_val (node : Node) (key context : String) :
    (array node key context).map Subtype.val =
      match node.lookup key with
      | some (.arr elements) => .ok elements
      | some _ => .error (.wrongFieldType key .array context)
      | none => .error (.missingField key context) := by
  unfold array
  split
  · next found => simp only [found, Except.map]
  · next value other found =>
      rw [found]
      cases value with
      | arr elements => exact absurd rfl (other elements)
      | _ => rfl
  · next found => simp only [found, Except.map]

theorem object_val (node : Node) (key context : String) :
    (object node key context).map Subtype.val =
      match node.lookup key with
      | some (.obj members) => .ok members
      | some _ => .error (.wrongFieldType key .object context)
      | none => .error (.missingField key context) := by
  unfold object
  split
  · next found => simp only [found, Except.map]
  · next value other found =>
      rw [found]
      cases value with
      | obj members => exact absurd rfl (other members)
      | _ => rfl
  · next found => simp only [found, Except.map]

theorem child_prune (asked : key ∈ Json.readKeys) :
    Reads (fun pruned part => pruned.1 = part.1.prune)
      (child (Json.pruneMembers node) key context) (child node key context) := by
  apply Reads.of_val
  rw [child_val, child_val, Json.lookup_pruneMembers asked]
  cases node.lookup key <;> rfl

theorem array_prune (asked : key ∈ Json.readKeys) :
    Reads (fun pruned part => pruned.1 = Json.pruneAll part.1)
      (array (Json.pruneMembers node) key context) (array node key context) := by
  apply Reads.of_val
  rw [array_val, array_val, Json.lookup_pruneMembers asked]
  rcases node.lookup key with _ | value
  · rfl
  · cases value <;> simp only [Option.map_some, Json.prune, Except.map]

theorem object_prune (asked : key ∈ Json.readKeys) :
    Reads (fun pruned part => pruned.1 = Json.pruneMembers part.1)
      (object (Json.pruneMembers node) key context) (object node key context) := by
  apply Reads.of_val
  rw [object_val, object_val, Json.lookup_pruneMembers asked]
  rcases node.lookup key with _ | value
  · rfl
  · cases value <;> simp only [Option.map_some, Json.prune, Except.map]

end Node

namespace Ty

/-- The entries of a row describe the same fields without their unread members, if the descriptors
inside them describe the same types. -/
theorem ofRow_prune {context : String} {entries : List Json}
    (inner : ∀ entry ∈ entries, ∀ part : Json, sizeOf part < sizeOf entry →
      ofDescriptor part.prune = ofDescriptor part) :
    ofRow context (Json.pruneAll entries) = ofRow context entries := by
  induction entries with
  | nil => rfl
  | cons entry rest ih =>
      obtain ⟨here, there⟩ := List.forall_mem_cons.mp inner
      rw [Json.pruneAll]
      cases entry with
      | obj node =>
          rw [Json.prune, ofRow, ofRow, Node.string_prune (by decide), ih there]
          refine bind_congr fun name => (Node.child_prune (by decide)).bind_eq ?_
          rintro ⟨_, _⟩ ⟨part, small⟩ rfl
          dsimp only
          rw [here part (by simp only [Json.obj.sizeOf_spec]; omega)]
      | _ =>
        rw [Json.prune, ofRow, ofRow]
        · rintro _ ⟨⟩
        · rintro _ ⟨⟩

/-- A descriptor describes the same type without its unread members. The induction is on the
size of the value, since descriptors lie under the fields of descriptors. -/
theorem ofDescriptor_prune (descriptor : Json) :
    ofDescriptor descriptor.prune = ofDescriptor descriptor := by
  cases descriptor with
  | obj node =>
      have inner (part : Json) (small : sizeOf part < sizeOf node) :
          ofDescriptor part.prune = ofDescriptor part :=
        ofDescriptor_prune part
      have row (context : String) (entries : List Json) (small : sizeOf entries < sizeOf node) :
          ofRow context (Json.pruneAll entries) = ofRow context entries :=
        ofRow_prune fun entry member part smaller =>
          inner part (Nat.lt_trans smaller (Nat.lt_trans (List.sizeOf_lt_of_mem member) small))
      rw [Json.prune, ofDescriptor, ofDescriptor, Node.string_prune (by decide)]
      refine bind_congr fun kind => ?_
      dsimp only
      split
      · refine (Node.object_prune (by decide)).bind_eq ?_
        rintro ⟨_, _⟩ ⟨members, inside⟩ rfl
        refine (Node.array_prune (by decide)).bind_eq ?_
        rintro ⟨_, _⟩ ⟨entries, small⟩ rfl
        exact congrArg (· >>= _) (row _ entries (Nat.lt_trans small inside))
      · rfl
      · rw [Node.string_prune (by decide)]
      · refine (Node.child_prune (by decide)).bind_eq ?_
        rintro ⟨_, _⟩ ⟨part, small⟩ rfl
        exact congrArg (· >>= _) (inner part small)
      · rfl
      · refine (Node.child_prune (by decide)).bind_eq ?_
        rintro ⟨_, _⟩ ⟨part, small⟩ rfl
        exact congrArg (· >>= _) (inner part small)
      · refine (Node.child_prune (by decide)).bind_eq ?_
        rintro ⟨_, _⟩ ⟨key, smallKey⟩ rfl
        dsimp only
        rw [inner key smallKey]
        refine bind_congr fun ty => (Node.child_prune (by decide)).bind_eq ?_
        rintro ⟨_, _⟩ ⟨value, smallValue⟩ rfl
        exact congrArg (· >>= _) (inner value smallValue)
      · rfl
      · refine (Node.object_prune (by decide)).bind_eq ?_
        rintro ⟨_, _⟩ ⟨members, inside⟩ rfl
        refine (Node.array_prune (by decide)).bind_eq ?_
        rintro ⟨_, _⟩ ⟨entries, small⟩ rfl
        exact congrArg (· >>= _) (row _ entries (Nat.lt_trans small inside))
      · rfl
  | arr elements => rw [Json.prune, ofDescriptor, ofDescriptor] <;> rintro _ ⟨⟩
  | _ => rw [Json.prune]
termination_by sizeOf descriptor
decreasing_by
  simp only [Json.obj.sizeOf_spec]
  omega

end Ty

namespace Item

theorem paramName_prune (context : String) (value : Json) :
    paramName context value.prune = paramName context value := by
  refine (Node.ofValue_prune value context).bind_eq ?_
  rintro _ node rfl
  exact Node.string_prune (by decide)

/-- A definition has the same parameters and the same type without its unread members, and the
body of it is pruned. -/
theorem signature_prune (name : String) (node : Node) (context : String) :
    Reads (fun pruned part => pruned.1 = part.1 ∧ pruned.2.1 = part.2.1 ∧
        pruned.2.2.1 = part.2.2.1.prune)
      (signature name (Json.pruneMembers node) context) (signature name node context) := by
  unfold signature
  refine (Node.object_prune (by decide)).bind ?_
  rintro ⟨_, _⟩ ⟨lambda, inside⟩ rfl
  refine (Node.child_prune (by decide)).bind ?_
  rintro ⟨_, _⟩ ⟨typing, _⟩ rfl
  dsimp only
  rw [Json.lookup_pruneMembers (by decide)]
  rcases lambda.lookup "params" with _ | held
  · dsimp only [Option.map_none]
    rw [Ty.ofDescriptor_prune]
    refine (Reads.of_eq rfl).bind ?_
    rintro _ result rfl
    refine (Node.child_prune (by decide)).bind ?_
    rintro ⟨_, _⟩ ⟨body, _⟩ rfl
    exact .found ⟨rfl, rfl, rfl⟩
  · dsimp only [Option.map_some]
    refine (Node.ofValue_prune typing context).bind ?_
    rintro _ typing rfl
    refine (Node.array_prune (by decide)).bind ?_
    rintro ⟨_, _⟩ ⟨params, _⟩ rfl
    dsimp only
    rw [Json.mapM_pruneAll (paramName_prune context)]
    refine (Reads.of_eq rfl).bind ?_
    rintro _ names rfl
    refine (Node.array_prune (by decide)).bind ?_
    rintro ⟨_, _⟩ ⟨args, _⟩ rfl
    dsimp only
    rw [Json.mapM_pruneAll Ty.ofDescriptor_prune]
    refine (Reads.of_eq rfl).bind ?_
    rintro _ types rfl
    split
    · exact .fault _
    · refine (Node.child_prune (by decide)).bind ?_
      rintro ⟨_, _⟩ ⟨result, _⟩ rfl
      dsimp only
      rw [Ty.ofDescriptor_prune]
      refine (Reads.of_eq rfl).bind ?_
      rintro _ ty rfl
      refine (Node.child_prune (by decide)).bind ?_
      rintro ⟨_, _⟩ ⟨body, _⟩ rfl
      exact .found ⟨rfl, rfl, rfl⟩

theorem ofTypedef_prune (node : Node) : ofTypedef (Json.pruneMembers node) = ofTypedef node := by
  unfold ofTypedef
  rw [Node.string_prune (by decide)]
  refine bind_congr fun name => (Node.child_prune (by decide)).bind_eq ?_
  rintro ⟨_, _⟩ ⟨descriptor, _⟩ rfl
  dsimp only
  rw [Ty.ofDescriptor_prune]

end Item

namespace Term

theorem lowerEach_prune {args : List Json} (types : List (Option Ty))
    (operands : ∀ arg ∈ args, ∀ expected, lower arg.prune expected = lower arg expected) :
    lowerEach (Json.pruneAll args) types = lowerEach args types := by
  induction args generalizing types with
  | nil => rfl
  | cons arg args ih =>
      obtain ⟨here, there⟩ := List.forall_mem_cons.mp operands
      rw [Json.pruneAll]
      cases types with
      | nil =>
          rw [lowerEach, lowerEach]
          · rintro _ _ _ _ _ ⟨⟩
          · rintro _ _ _ _ _ ⟨⟩
      | cons ty types => rw [lowerEach, lowerEach, here ty, ih types there]

/-- The operands of a record construction are lowered alike without their unread members, if each of
them is. -/
theorem lowerFields_prune {context : String} {args : List Json}
    (operands : ∀ arg ∈ args, ∀ expected, lower arg.prune expected = lower arg expected) :
    lowerFields context (Json.pruneAll args) = lowerFields context args := by
  match args with
  | [] => rfl
  | [_] =>
      rw [Json.pruneAll, Json.pruneAll, lowerFields, lowerFields]
      · rintro _ _ _ ⟨⟩
      · rintro _ _ _ ⟨⟩
  | label :: value :: rest =>
      have others : lowerFields context (Json.pruneAll rest) = lowerFields context rest :=
        lowerFields_prune fun arg member =>
          operands arg (List.mem_cons_of_mem _ (List.mem_cons_of_mem _ member))
      rw [Json.pruneAll, Json.pruneAll, lowerFields, lowerFields, others,
        operands value (List.mem_cons_of_mem _ List.mem_cons_self) none]
      refine (Node.ofValue_prune label context).lift_bind_eq ?_
      rintro _ node rfl
      rw [Node.string_prune (by decide)]

theorem arityFault_pruneAll (operator : Operator) (expected : Arity) (args : List Json) :
    operator.arityFault expected (Json.pruneAll args) = operator.arityFault expected args := by
  rw [Operator.arityFault, Json.pruneAll_eq_map, List.length_map]
  rfl

/-- The application of an operator is lowered the same without unread members, if its operands
are. -/
theorem lowerApplication_prune {operator : Operator} {context : String} {expected : Option Ty}
    {args : List Json}
    (operands : ∀ arg ∈ args, ∀ expected, lower arg.prune expected = lower arg expected) :
    lowerApplication operator context expected (Json.pruneAll args) =
      lowerApplication operator context expected args := by
  have count : (Json.pruneAll args).length = args.length := by
    rw [Json.pruneAll_eq_map, List.length_map]
  have refused (arity : Arity) :
      (throw (operator.arityFault arity (Json.pruneAll args)) : Lowering Term) =
        throw (operator.arityFault arity args) := by
    rw [arityFault_pruneAll]
  rw [lowerApplication.eq_def, lowerApplication.eq_def operator context expected args]
  cases operator with
  | sum | membership =>
      match args with
      | [left, right] =>
          simp only [Json.pruneAll]
          rw [operands left (by simp), operands right (by simp)]
      | [] | [_] | _ :: _ :: _ :: _ => exact refused _
  | record =>
      dsimp only
      rw [count, lowerFields_prune operands, arityFault_pruneAll]
  | tuple =>
      dsimp only
      rw [count, lowerEach_prune _ operands]
  | choice =>
      match args with
      | [condition, yes, no] =>
          simp only [Json.pruneAll]
          rw [operands condition (by simp), operands yes (by simp), operands no (by simp)]
      | [] | [_] | [_, _] | _ :: _ :: _ :: _ :: _ => exact refused _
  | negation | keys =>
      match args with
      | [operand] =>
          simp only [Json.pruneAll]
          rw [operands operand (by simp)]
      | [] | _ :: _ :: _ => exact refused _
  | field =>
      match args with
      | [base, label] =>
          simp only [Json.pruneAll]
          rw [operands base (by simp)]
          refine bind_congr fun term => (Node.ofValue_prune label context).lift_bind_eq ?_
          rintro _ node rfl
          rw [Node.string_prune (by decide)]
      | [] | [_] | _ :: _ :: _ :: _ => exact refused _

end Term

/-- A definition is lowered the same without unread members, if the expressions inside are. -/
theorem Item.lowerDefinition_prune {node : Node}
    (inner : ∀ part : Json, sizeOf part < sizeOf node →
      ∀ expected, Term.lower part.prune expected = Term.lower part expected) :
    Item.lowerDefinition (Json.pruneMembers node) = Item.lowerDefinition node := by
  rw [Item.lowerDefinition, Item.lowerDefinition, Node.string_prune (by decide),
    Node.string_prune (by decide)]
  refine bind_congr fun name => bind_congr fun qualifier => ?_
  dsimp only
  split
  · refine (Node.child_prune (by decide)).lift_bind_eq ?_
    rintro ⟨_, _⟩ ⟨descriptor, _⟩ rfl
    dsimp only
    rw [Ty.ofDescriptor_prune]
    refine bind_congr fun ty => (Node.child_prune (by decide)).lift_bind_eq ?_
    rintro ⟨_, _⟩ ⟨value, small⟩ rfl
    dsimp only
    rw [inner value small]
  · refine (Item.signature_prune name node _).lift_bind_eq ?_
    rintro ⟨_, _, _, _⟩ ⟨params, result, body, small⟩ related
    dsimp only at related ⊢
    obtain ⟨rfl, rfl, rfl⟩ := related
    rw [inner body small]
  · refine (Node.child_prune (by decide)).lift_bind_eq ?_
    rintro ⟨_, _⟩ ⟨value, small⟩ rfl
    dsimp only
    rw [inner value small]
  · rfl

namespace Term

/-- A node is lowered the same without unread members, if the values inside are. -/
theorem lower_obj_prune {node : Node}
    (inner : ∀ part : Json, sizeOf part < sizeOf node →
      ∀ expected, lower part.prune expected = lower part expected) (expected : Option Ty) :
    lower (.obj (Json.pruneMembers node)) expected = lower (.obj node) expected := by
  rw [lower, lower, Node.string_prune (by decide)]
  refine bind_congr fun kind => ?_
  dsimp only
  split
  · rw [Node.string_prune (by decide)]
  · rw [Node.uint64_prune (by decide)]
  · rw [Node.boolean_prune (by decide)]
  · rw [Node.string_prune (by decide)]
  · refine (Node.object_prune (by decide)).lift_bind_eq ?_
    rintro ⟨_, _⟩ ⟨definition, inside⟩ rfl
    dsimp only
    have within : Item.lowerDefinition (Json.pruneMembers definition) =
        Item.lowerDefinition definition :=
      Item.lowerDefinition_prune fun part small => inner part (Nat.lt_trans small inside)
    rw [Node.string_prune (by decide), Node.string_prune (by decide), within]
    refine bind_congr fun qualifier => ?_
    split
    · refine bind_congr fun item => ?_
      split
      · refine (Node.child_prune (by decide)).lift_bind_eq ?_
        rintro ⟨_, _⟩ ⟨body, small⟩ rfl
        dsimp only
        rw [inner body small]
      · rfl
    · rfl
  · rw [Node.string_prune (by decide)]
    refine bind_congr fun opcode => (Node.array_prune (by decide)).lift_bind_eq ?_
    rintro ⟨_, _⟩ ⟨args, inside⟩ rfl
    dsimp only
    split
    · exact lowerApplication_prune fun arg member =>
        inner arg (Nat.lt_trans (List.sizeOf_lt_of_mem member) inside)
    · rfl
  · rfl

/-- An expression is lowered the same without unread members. The induction is on the size of
the value, since lowering follows the fields of nodes. -/
theorem lower_prune (value : Json) (expected : Option Ty) :
    lower value.prune expected = lower value expected := by
  cases value with
  | obj node =>
      rw [Json.prune]
      exact lower_obj_prune (fun part small => lower_prune part) expected
  | arr elements => rw [Json.prune, lower, lower] <;> rintro _ ⟨⟩
  | _ => rw [Json.prune]
termination_by sizeOf value
decreasing_by
  simp only [Json.obj.sizeOf_spec]
  omega

end Term

/-- A declaration is lowered the same without unread members. -/
theorem Item.lower_prune (declaration : Json) :
    Item.lower declaration.prune = Item.lower declaration := by
  unfold Item.lower
  refine (Node.ofValue_prune declaration _).lift_bind_eq ?_
  rintro _ node rfl
  rw [Node.string_prune (by decide)]
  refine bind_congr fun kind => ?_
  split
  · rw [Item.ofTypedef_prune]
  · rfl
  · exact Item.lowerDefinition_prune fun part _ => Term.lower_prune part
  · rfl

/-- The module without the unread members of its declarations. -/
def Module.prune (part : Module) : Module :=
  ⟨part.name, part.declarations.map Json.prune⟩

theorem Module.lower_prune (part : Module) : part.prune.lower = part.lower := by
  have topLevel (declaration : Json) :
      Module.lowerTopLevel declaration.prune = Module.lowerTopLevel declaration := by
    rw [Module.lowerTopLevel, Item.lower_prune]
    rfl
  rw [Module.lower, Module.lower, Module.prune, ← Json.pruneAll_eq_map,
    Json.mapM_pruneAll topLevel]

/-- The document without the unread members of its declarations. -/
def Document.prune (document : Document) : Document :=
  ⟨document.types, document.modules.map Module.prune⟩

theorem Program.lowerModules_prune (modules : List Module) :
    Program.lowerModules (modules.map Module.prune) = Program.lowerModules modules := by
  unfold Program.lowerModules
  rw [List.filter_map, List.mapM_map]
  exact congrArg (fun step => List.mapM step _ >>= _) (funext Module.lower_prune)

theorem Document.lower_prune (document : Document) : document.prune.lower = document.lower := by
  unfold Document.lower Document.prune
  rw [Program.lowerModules_prune]

namespace Json

/-- The array with each of its elements changed. -/
def mapElements (f : Json → Json) : Json → Json
  | .arr elements => .arr (elements.map f)
  | other => other

/-- The object with the value of each of its members changed. -/
def mapMembers (f : Json → Json) : Json → Json
  | .obj members => .obj (members.map fun member => (member.1, f member.2))
  | other => other

namespace Decoder

variable {α : Type} {decoder : Decoder α} {change : Json → Json} {image : α → α}

/-- From a changed value the decoder reads what it reads from the value, changed likewise. -/
def Follows (decoder : Decoder α) (change : Json → Json) (image : α → α) : Prop :=
  ∀ value, decoder.ofValue (change value) = (decoder.ofValue value).map image

theorem follows_id (decoder : Decoder α) : decoder.Follows id id := by
  intro value
  exact (congrFun Except.map_id _).symm

/-- An array follows a change of its elements. -/
theorem Follows.list (follows : decoder.Follows change image) :
    decoder.list.Follows (mapElements change) (List.map image) := by
  intro value
  cases value with
  | arr elements =>
      change (elements.map change).mapM decoder.ofValue = (elements.mapM decoder.ofValue).map _
      rw [List.mapM_map]
      induction elements with
      | nil => rfl
      | cons element rest ih =>
          rw [List.mapM_cons, List.mapM_cons, Function.comp_apply, follows, ih]
          rcases decoder.ofValue element with mismatch | a
          · rfl
          · rcases rest.mapM decoder.ofValue with mismatch | results
            · rfl
            · rfl
  | _ => rfl

theorem Follows.table (follows : decoder.Follows change id) :
    decoder.table.Follows (mapMembers change) id := by
  have same (value : Json) : decoder.ofValue (change value) = decoder.ofValue value := by
    rw [follows, Except.map_id, id_eq]
  intro value
  rw [Except.map_id, id_eq]
  cases value with
  | obj members =>
      change (members.map _).foldlM _ [] = members.foldlM _ []
      rw [List.foldlM_map]
      simp only [same]
  | _ => rfl

end Decoder

/-- While a draft is changed, the field reads from a changed value what it reads from the value,
changed likewise. -/
structure Slot.Follows {σ : Type} (slot : Slot σ) (change : Json → Json) (image : σ → σ) :
    Prop where
  filled : ∀ draft, slot.filled (image draft) = slot.filled draft
  absent : ∀ draft, slot.absent (image draft) = (slot.absent draft).map image
  read : ∀ draft value,
    slot.ofValue (image draft) (change value) = (slot.ofValue draft value).map image

/-- A field follows a change of its value, if its place in the draft is changed likewise. -/
theorem Decoder.Follows.slot {α σ : Type} {decoder : Decoder α} {change : Json → Json}
    {part : α → α} (follows : decoder.Follows change part) {key : String} {get : σ → Option α}
    {set : σ → α → σ} {default : Option α} {image : σ → σ}
    (gets : ∀ draft, get (image draft) = (get draft).map part)
    (sets : ∀ draft a, set (image draft) (part a) = image (set draft a))
    (keeps : default.map part = default) :
    (Slot.of key decoder get set default).Follows change image where
  filled draft := by
    change (get (image draft)).isSome = (get draft).isSome
    rw [gets, Option.isSome_map]
  absent draft := by
    cases default with
    | none => rfl
    | some a =>
        have kept : part a = a := Option.some.inj keeps
        have same := sets draft a
        rw [kept] at same
        exact congrArg some same
  read draft value := by
    change (decoder.ofValue (change value)).map _ = ((decoder.ofValue value).map _).map image
    rw [follows]
    rcases decoder.ofValue value with mismatch | a
    · rfl
    · exact congrArg Except.ok (sets draft a)

namespace Record

variable {σ α : Type}

/-- The elements of an array that are fields, each changed by the key of its field. -/
def pruneElements (inner : String → Json → Json) : List (Slot σ) → List Json → List Json
  | [], elements => elements
  | _ :: _, [] => []
  | slot :: slots, element :: elements =>
      inner slot.key element :: pruneElements inner slots elements

/-- The members of an object that are fields, each changed by its key. -/
def pruneFields (record : Record σ α) (inner : String → Json → Json)
    (members : List (String × Json)) : List (String × Json) :=
  (members.filter fun member => (record.slot? member.1).isSome).map fun member =>
    (member.1, inner member.1 member.2)

/-- The value of a record without the members that are no fields, each field changed by its
key. -/
def prune (record : Record σ α) (inner : String → Json → Json) : Json → Json
  | .obj members => .obj (record.pruneFields inner members)
  | .arr elements => .arr (pruneElements inner record.slots elements)
  | other => other

/-- The fields of the record follow the change of their values. -/
structure Follows (record : Record σ α) (inner : String → Json → Json) (draft : σ → σ)
    (image : α → α) : Prop where
  slots : ∀ slot ∈ record.slots, slot.Follows (inner slot.key) draft
  start : draft record.start = record.start
  finish : ∀ final, record.finish (draft final) = (record.finish final).map image

variable {record : Record σ α} {inner : String → Json → Json} {draft : σ → σ} {image : α → α}

theorem foldlM_follows {β : Type} {step next : σ → β → Except Mismatch σ} {inputs : List β}
    (same : ∀ input ∈ inputs, ∀ state, next (draft state) input = (step state input).map draft)
    (state : σ) :
    inputs.foldlM next (draft state) = (inputs.foldlM step state).map draft := by
  induction inputs generalizing state with
  | nil => rfl
  | cons input rest ih =>
      obtain ⟨here, there⟩ := List.forall_mem_cons.mp same
      rw [List.foldlM_cons, List.foldlM_cons, here]
      rcases step state input with mismatch | reached
      · rfl
      · exact ih there reached

/-- A changed draft is completed to the changed record. -/
theorem Follows.complete (follows : record.Follows inner draft image) (final : σ) :
    record.complete (draft final) = (record.complete final).map image := by
  unfold Record.complete
  extract_lets fill
  have filled : record.slots.foldlM fill (draft final) =
      (record.slots.foldlM fill final).map draft := by
    refine foldlM_follows (fun slot among state => ?_) final
    have follow := follows.slots slot among
    dsimp only [fill]
    rw [follow.filled, follow.absent]
    split
    · rfl
    · cases slot.absent state <;> rfl
  rw [filled]
  rcases record.slots.foldlM fill final with mismatch | complete
  · rfl
  · dsimp only [Except.map]
    rw [follows.finish]
    cases record.finish complete <;> rfl

/-- Members that are no fields are passed over, and the others are read changed. -/
theorem Follows.foldlM (follows : record.Follows inner draft image)
    (members : List (String × Json)) (state : σ) :
    (record.pruneFields inner members).foldlM record.valueMember (draft state) =
      (members.foldlM record.valueMember state).map draft := by
  rw [pruneFields, List.foldlM_map, List.foldlM_filter]
  refine foldlM_follows (fun member _ state => ?_) state
  unfold valueMember
  cases found : record.slot? member.1 with
  | none => rfl
  | some slot =>
      have among : slot ∈ record.slots := List.mem_of_find?_eq_some found
      have key : slot.key = member.1 := by simpa using List.find?_some found
      have here := follows.slots slot among
      rw [key] at here
      dsimp only
      rw [Option.isSome_some, if_pos rfl, here.filled, here.read]
      split <;> rfl

/-- From changed elements the fields are read in order as from the elements, into a draft that is
changed likewise. Elements left over are not changed. -/
theorem Follows.valueElements (follows : record.Follows inner draft image) {slots : List (Slot σ)}
    (among : ∀ slot ∈ slots, slot ∈ record.slots) (index : Nat) (state : σ)
    (elements : List Json) :
    record.valueElements slots index (draft state) (pruneElements inner slots elements) =
      (record.valueElements slots index state elements).map fun (state, rest) =>
        (draft state, rest) := by
  induction slots generalizing index state elements with
  | nil =>
      rw [pruneElements, Record.valueElements, Record.valueElements]
      rfl
  | cons slot slots ih =>
      obtain ⟨here, there⟩ := List.forall_mem_cons.mp among
      have follow := follows.slots slot here
      cases elements with
      | nil =>
          rw [pruneElements, Record.valueElements, Record.valueElements, follow.absent]
          cases slot.absent state with
          | none => rfl
          | some filled =>
              have nothing : pruneElements inner slots [] = [] := by
                cases slots <;> rfl
              have rest := ih there (index + 1) filled []
              rw [nothing] at rest
              exact rest
      | cons element elements =>
          rw [pruneElements, Record.valueElements, Record.valueElements, follow.read]
          rcases slot.ofValue state element with mismatch | filled
          · rfl
          · exact ih there (index + 1) filled elements

theorem length_pruneElements (inner : String → Json → Json) (slots : List (Slot σ))
    (elements : List Json) : (pruneElements inner slots elements).length = elements.length := by
  induction slots generalizing elements with
  | nil => rfl
  | cons slot slots ih =>
      cases elements with
      | nil => rfl
      | cons element elements => rw [pruneElements, List.length_cons, List.length_cons, ih]

/-- The decoder of a record reads nothing but its fields. -/
theorem Follows.decoder (follows : record.Follows inner draft image) :
    record.decoder.Follows (record.prune inner) image := by
  intro value
  change record.ofValue (record.prune inner value) = (record.ofValue value).map image
  cases value with
  | obj members =>
      have fields := follows.foldlM members record.start
      rw [follows.start] at fields
      rw [prune, Record.ofValue, Record.ofValue, fields]
      rcases members.foldlM record.valueMember record.start with mismatch | final
      · rfl
      · exact follows.complete final
  | arr elements =>
      have fields := follows.valueElements (fun _ among => among) 0 record.start elements
      rw [follows.start] at fields
      rw [prune, Record.ofValue, Record.ofValue, fields, length_pruneElements]
      rcases record.valueElements record.slots 0 record.start elements with
        mismatch | ⟨final, _ | ⟨element, rest⟩⟩
      · rfl
      · exact follows.complete final
      · rfl
  | _ => rfl

end Record

end Json

namespace Document

open Json (Decoder Record)

/-- The value of a field of a document without the unread members of the entries of the type
table, of the modules and of their declarations. -/
def pruneField (key : String) : Json → Json :=
  if key = "types" then
    Json.mapMembers (entryRecord.prune fun _ => typeRecord.prune fun _ => id)
  else
    Json.mapElements (moduleRecord.prune fun key =>
      if key = "declarations" then Json.mapElements Json.prune else id)

/-- The value of a document without anything that is not asked for. -/
def pruneValue : Json → Json :=
  documentRecord.prune pruneField

theorem typeRecord_follows : typeRecord.Follows (fun _ => id) id id where
  slots := by
    refine List.forall_mem_singleton.mpr ((Decoder.follows_id _).slot ?_ ?_ rfl)
    · exact fun draft => (congrFun Option.map_id draft).symm
    · exact fun _ _ => rfl
  start := rfl
  finish final := (congrFun Option.map_id _).symm

theorem entryRecord_follows :
    entryRecord.Follows (fun _ => typeRecord.prune fun _ => id) id id where
  slots := by
    refine List.forall_mem_singleton.mpr (typeRecord_follows.decoder.slot ?_ ?_ rfl)
    · exact fun draft => (congrFun Option.map_id draft).symm
    · exact fun _ _ => rfl
  start := rfl
  finish final := (congrFun Option.map_id _).symm

/-- A module follows a change of its declarations. -/
theorem moduleRecord_follows :
    moduleRecord.Follows
      (fun key => if key = "declarations" then Json.mapElements Json.prune else id)
      (fun draft => (draft.1, draft.2.map (List.map Json.prune))) Module.prune where
  slots := by
    refine List.forall_mem_cons.mpr ⟨?_, List.forall_mem_singleton.mpr ?_⟩
    · refine (Decoder.follows_id _).slot ?_ ?_ rfl
      · exact fun draft => (congrFun Option.map_id draft.1).symm
      · exact fun _ _ => rfl
    · have declarations : Decoder.value.Follows Json.prune Json.prune := fun _ => rfl
      refine declarations.list.slot ?_ ?_ rfl
      · exact fun _ => rfl
      · exact fun _ _ => rfl
  start := rfl
  finish final := by
    rcases final with ⟨_ | name, _ | declarations⟩ <;> rfl

theorem documentRecord_follows :
    documentRecord.Follows pruneField
      (fun draft => (draft.1, draft.2.map (List.map Module.prune))) Document.prune where
  slots := by
    refine List.forall_mem_cons.mpr ⟨?_, List.forall_mem_singleton.mpr ?_⟩
    · refine entryRecord_follows.decoder.table.slot ?_ ?_ rfl
      · exact fun draft => (congrFun Option.map_id draft.1).symm
      · exact fun _ _ => rfl
    · refine moduleRecord_follows.decoder.list.slot ?_ ?_ rfl
      · exact fun _ => rfl
      · exact fun _ _ => rfl
  start := rfl
  finish final := by
    rcases final with ⟨_ | types, _ | modules⟩ <;> rfl

/-- From a value without the unread members a document is decoded without them. -/
theorem ofValue_pruneValue (value : Json) :
    ofValue (pruneValue value) = (ofValue value).map Document.prune := by
  change (documentRecord.decoder.ofValue (documentRecord.prune pruneField value)).mapError _ =
    ((documentRecord.decoder.ofValue value).mapError _).map _
  rw [documentRecord_follows.decoder value]
  cases documentRecord.decoder.ofValue value <;> rfl

theorem lower_ofValue_pruneValue (value : Json) :
    (ofValue (pruneValue value)).map lower = (ofValue value).map lower := by
  rw [ofValue_pruneValue]
  cases ofValue value with
  | error mismatch => rfl
  | ok document => exact congrArg Except.ok document.lower_prune

end Document

/-- **Unread members have no influence.** A type, an expression and a declaration come out the
same with and without the members under keys that are not asked for, at any depth: the result or
the fault, and the warnings, after any warnings recorded before. Hence documents that differ in
such members only are lowered to the same program with the same warnings, or fail alike, and so
do the values that documents are decoded from. -/
theorem lowering_ignores_unread_members :
    (∀ descriptor : Json, Ty.ofDescriptor descriptor.prune = Ty.ofDescriptor descriptor) ∧
      (∀ (value : Json) (expected : Option Ty) (earlier : Array Warning),
        (Term.lower value.prune expected).runWith earlier =
          (Term.lower value expected).runWith earlier) ∧
      (∀ (declaration : Json) (earlier : Array Warning),
        (Item.lower declaration.prune).runWith earlier =
          (Item.lower declaration).runWith earlier) ∧
      (∀ first second : Document, first.prune = second.prune → first.lower = second.lower) ∧
      ∀ first second : Json, Document.pruneValue first = Document.pruneValue second →
        (Document.ofValue first).map Document.lower =
          (Document.ofValue second).map Document.lower := by
  refine ⟨Ty.ofDescriptor_prune, ?_, ?_, ?_, ?_⟩
  · intro value expected earlier
    rw [Term.lower_prune]
  · intro declaration earlier
    rw [Item.lower_prune]
  · intro first second same
    rw [← first.lower_prune, same, second.lower_prune]
  · intro first second same
    rw [← Document.lower_ofValue_pruneValue, same, Document.lower_ofValue_pruneValue]

namespace Document

/-- A document with members that nobody asks for, at every depth. -/
def annotatedValue : Json :=
  .obj [
    ("effects", .arr [.null]),
    ("modules", .arr [.obj [
      ("declarations", .arr [.obj [
        ("doc", .str "the fee"),
        ("expr", .obj [
          ("args", .arr [
            .obj [("id", .num (.int 3)), ("kind", .str "int"), ("value", .num (.int 1))],
            .obj [("id", .num (.int 4)), ("kind", .str "lambda"), ("params", .arr [])]]),
          ("id", .num (.int 5)), ("kind", .str "app"), ("opcode", .str "iadd")]),
        ("kind", .str "def"), ("name", .str "fee"), ("qualifier", .str "pureval"),
        ("typeAnnotation", .obj [("id", .num (.int 6)), ("kind", .str "int")])]]),
      ("id", .num (.int 7)), ("name", .str "bank")]]),
    ("types", .obj [("6", .obj [("id", .num (.int 6)),
      ("type", .obj [("kind", .str "const"), ("name", .str "Fee")])])])]

/-- The same document without them. -/
def bareValue : Json :=
  .obj [
    ("modules", .arr [.obj [
      ("declarations", .arr [.obj [
        ("expr", .obj [
          ("args", .arr [
            .obj [("kind", .str "int"), ("value", .num (.int 1))],
            .obj [("kind", .str "lambda"), ("params", .arr [])]]),
          ("kind", .str "app"), ("opcode", .str "iadd")]),
        ("kind", .str "def"), ("name", .str "fee"), ("qualifier", .str "pureval"),
        ("typeAnnotation", .obj [("kind", .str "int")])]]),
      ("name", .str "bank")]]),
    ("types", .obj [("6", .obj [("type", .obj [("name", .str "Fee")])])])]

/-- The value with annotations is lowered as the bare one is, since both are pruned to one value. -/
theorem annotatedValue_ignored :
    pruneValue annotatedValue = pruneValue bareValue ∧
      (ofValue annotatedValue).map lower = (ofValue bareValue).map lower ∧
      (ofValue bareValue).map lower = .ok (.ok
        { program := ⟨Program.fixedImports,
            [.const "fee" .uint64 (.add (.literal (.uint64 1)) .todo)]⟩
          typeNames := [(6, "Fee")]
          warnings := [.unsupportedExprKind "lambda"] }) := by
  have same : pruneValue annotatedValue = pruneValue bareValue := by
    with_unfolding_all rfl
  have lowered : (ofValue bareValue).map lower = .ok (.ok
      { program := ⟨Program.fixedImports,
          [.const "fee" .uint64 (.add (.literal (.uint64 1)) .todo)]⟩
        typeNames := [(6, "Fee")]
        warnings := [.unsupportedExprKind "lambda"] }) := by
    with_unfolding_all rfl
  exact ⟨same, lowering_ignores_unread_members.2.2.2.2 _ _ same, lowered⟩

end Document

end SpecTranspiler

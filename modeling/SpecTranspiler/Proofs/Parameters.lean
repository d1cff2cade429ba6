import Mathlib.Data.List.Forall2
import SpecTranspiler.Proofs.Accounting
import SpecTranspiler.Proofs.Miscounts

/-!
# Parameters of functions

The names and the types of the parameters of a function come from two lists of its definition. The
lists are read one after the other, `Item.Gathers`, and then paired position by position. Only
between these two steps a difference in length is noticed. `Item.signature_eq_ok_iff` and
`Item.signature_eq_mismatch_iff` say when either happens, and what follows for the whole function is
stated with `Item.Lockstep`.
-/

namespace SpecTranspiler

theorem bind_of_ok {ε α β : Type} {reading : Except ε α} {next : α → Except ε β} {a : α}
    (found : reading = .ok a) : (reading >>= next) = next a := by
  rw [found]
  rfl

/-- Values that are read one after the other are read each. -/
theorem mapM_eq_ok {α β : Type} {read : α → Except Fault β} {values : List α} {results : List β} :
    values.mapM read = .ok results ↔
      List.Forall₂ (fun value result => read value = .ok result) values results := by
  induction values generalizing results with
  | nil =>
      rw [List.mapM_nil, pure_eq_ok, List.forall₂_nil_left_iff]
  | cons value values ih =>
      rw [List.mapM_cons, bind_eq_ok, List.forall₂_cons_left_iff]
      constructor
      · rintro ⟨first, readFirst, run⟩
        obtain ⟨others, readOthers, run⟩ := bind_eq_ok.mp run
        obtain rfl := pure_eq_ok.mp run
        exact ⟨first, others, readFirst, ih.mp readOthers, rfl⟩
      · rintro ⟨first, others, readFirst, readOthers, rfl⟩
        exact ⟨first, readFirst, bind_eq_ok.mpr ⟨others, ih.mpr readOthers, rfl⟩⟩

/-- Where something is related to every element, a list is related to the list. -/
theorem exists_forall₂_iff {α β : Type} {Related : α → β → Prop} {values : List α} :
    (∃ results, List.Forall₂ Related values results) ↔
      ∀ value ∈ values, ∃ result, Related value result := by
  induction values with
  | nil => exact iff_of_true ⟨[], .nil⟩ nofun
  | cons value values ih =>
      rw [List.forall_mem_cons, ← ih]
      constructor
      · rintro ⟨results, related⟩
        cases related with
        | cons here there => exact ⟨⟨_, here⟩, ⟨_, there⟩⟩
      · rintro ⟨⟨first, here⟩, others, there⟩
        exact ⟨first :: others, .cons here there⟩

/-- The outcome is a result, or that parameters differ in number from their types. -/
def Counted {α : Type} (outcome : Except Fault α) : Prop :=
  ∀ fault, outcome = .error fault → fault.isMiscount = true

/-- A reading that cannot miscount has succeeded, if what comes out in the end is counted. -/
theorem Counted.exists_ok {α β : Type} {reading : Except Fault α} {next : α → Except Fault β}
    (counted : Counted (reading >>= next)) (fine : NeverMiscounts reading) :
    ∃ a, reading = .ok a ∧ Counted (next a) := by
  cases reading with
  | error fault =>
      have miscount := counted fault rfl
      rw [fine fault rfl] at miscount
      cases miscount
  | ok a => exact ⟨a, rfl, counted⟩

/-- The node is the definition of a function under a name. One node inside it holds its types, and
one its expression. -/
structure Node.DefinesFunction (node : Node) (name : String) (typing lambda : Node) : Prop where
  kind : node.lookup "kind" = some (.str "def")
  qualifier : node.lookup "qualifier" = some (.str "puredef")
  name : node.lookup "name" = some (.str name)
  typed : node.lookup "typeAnnotation" = some (.obj typing)
  expression : node.lookup "expr" = some (.obj lambda)

namespace Node

variable {node : Node} {key : String} (context : String)

theorem exists_array_eq_ok {elements : List Json} (found : node.lookup key = some (.arr elements)) :
    ∃ small, node.array key context = .ok ⟨elements, small⟩ := by
  have smaller := sizeOf_lookup_lt found
  simp only [Json.arr.sizeOf_spec] at smaller
  exact ⟨by omega, array_eq_ok.mpr found⟩

theorem exists_object_eq_ok {members : Node} (found : node.lookup key = some (.obj members)) :
    ∃ small, node.object key context = .ok ⟨members, small⟩ := by
  have smaller := sizeOf_lookup_lt found
  simp only [Json.obj.sizeOf_spec] at smaller
  exact ⟨by omega, object_eq_ok.mpr found⟩

theorem exists_child_eq_ok {value : Json} (found : node.lookup key = some value) :
    ∃ small, node.child key context = .ok ⟨value, small⟩ :=
  ⟨sizeOf_lookup_lt found, child_eq_ok.mpr found⟩

end Node

theorem Json.text?_eq_some {key text : String} {value : Json} :
    value.text? key = some text ↔
      ∃ node : Node, value = .obj node ∧ node.lookup key = some (.str text) := by
  constructor
  · intro found
    cases value with
    | obj node =>
        refine ⟨node, rfl, ?_⟩
        rw [Json.text?] at found
        split at found
        · next holds => rw [holds, Option.some.inj found]
        · cases found
    | _ => cases found
  · rintro ⟨node, rfl, holds⟩
    exact Json.text?_obj holds

namespace Lowering

variable {α β : Type} {reading : Except Fault α} {next : α → Lowering β}

theorem read_bind {a : α} (found : reading = .ok a) :
    ((liftM reading : Lowering α) >>= next) = next a := by
  rw [found]
  rfl

/-- A miscount is that of the reading, if what follows it does not count. -/
theorem runWith_read_bind_eq_miscount {fault : Fault} {earlier log : Array Warning}
    (miscount : fault.isMiscount = true) (second : ∀ a, (next a).NeverMiscounts) :
    ((liftM reading : Lowering α) >>= next).runWith earlier = (.error fault, log) ↔
      reading = .error fault ∧ log = earlier := by
  cases reading with
  | error other =>
      change ((.error other, earlier) : Except Fault β × Array Warning) = (.error fault, log) ↔ _
      rw [Prod.mk.injEq, Except.error.injEq, Except.error.injEq]
      exact and_congr_right fun _ => eq_comm
  | ok a =>
      rw [read_bind rfl]
      refine iff_of_false ?_ nofun
      intro run
      have fine := second a earlier fault (congrArg Prod.fst run)
      rw [miscount] at fine
      cases fine

end Lowering

namespace Item

theorem paramName_eq_ok {context label : String} {value : Json} :
    paramName context value = .ok label ↔ value.text? "name" = some label := by
  rw [paramName, bind_eq_ok, Json.text?_eq_some]
  simp only [Node.ofValue_eq_ok, Node.string_eq_ok]

/-- The names and the types of parameters are read from the values and descriptors that an
expression and its annotation hold. -/
structure Gathers (lambda typing : Node) (values descriptors : List Json) (names : List String)
    (types : List Ty) : Prop where
  valuesField : lambda.lookup "params" = some (.arr values)
  named : List.Forall₂ (fun value label => Json.text? "name" value = some label) values names
  descriptorsField : typing.lookup "args" = some (.arr descriptors)
  typed : List.Forall₂ (fun descriptor ty => Ty.ofDescriptor descriptor = .ok ty) descriptors types

variable {node typing lambda : Node} {name context : String} {values descriptors : List Json}
  {names : List String} {types : List Ty}

/-- Where names and types are read, they are compared in number before anything else is read. -/
theorem signature_of_gathers (context : String) (defines : node.DefinesFunction name typing lambda)
    (gathers : Gathers lambda typing values descriptors names types) :
    ∃ inside : sizeOf lambda < sizeOf node, signature name node context =
      if names.length ≠ types.length then
        .error (.paramCountMismatch name names.length types.length)
      else do
        let ⟨descriptor, _⟩ ← Node.child typing "res" context
        let result ← Ty.ofDescriptor descriptor
        let ⟨body, small⟩ ← Node.child lambda "expr" context
        return (List.zipWith (⟨·, ·, true⟩) names types, result,
          ⟨body, Nat.lt_trans small inside⟩) := by
  obtain ⟨inside, lambdaRead⟩ := Node.exists_object_eq_ok context defines.expression
  obtain ⟨_, typingRead⟩ := Node.exists_child_eq_ok context defines.typed
  obtain ⟨_, valuesRead⟩ := Node.exists_array_eq_ok context gathers.valuesField
  obtain ⟨_, descriptorsRead⟩ := Node.exists_array_eq_ok context gathers.descriptorsField
  have namesRead : values.mapM (paramName context) = .ok names :=
    mapM_eq_ok.mpr (gathers.named.imp fun _ _ => paramName_eq_ok.mpr)
  have typesRead := mapM_eq_ok.mpr gathers.typed
  refine ⟨inside, ?_⟩
  rw [signature]
  refine (bind_of_ok lambdaRead).trans ((bind_of_ok typingRead).trans ?_)
  simp only [gathers.valuesField]
  refine (bind_of_ok rfl).trans ((bind_of_ok valuesRead).trans ((bind_of_ok namesRead).trans ?_))
  refine (bind_of_ok descriptorsRead).trans ((bind_of_ok typesRead).trans ?_)
  split <;> rfl

/-- Parameters are counted only after all of their names and types were read. -/
theorem exists_gathers_of_counted (defines : node.DefinesFunction name typing lambda)
    (given : lambda.lookup "params" ≠ none) (counted : Counted (signature name node context)) :
    ∃ values descriptors names types, Gathers lambda typing values descriptors names types := by
  rw [signature] at counted
  obtain ⟨⟨lambda', _⟩, lambdaRead, counted⟩ := counted.exists_ok .object
  obtain ⟨⟨descriptor, _⟩, descriptorRead, counted⟩ := counted.exists_ok .child
  cases (Node.object_eq_ok.mp lambdaRead).symm.trans defines.expression
  cases (Node.child_eq_ok.mp descriptorRead).symm.trans defines.typed
  obtain ⟨params, present⟩ := Option.ne_none_iff_exists'.mp given
  simp only [present] at counted
  obtain ⟨types, typesRead, counted⟩ := counted.exists_ok (.ofValue _ _)
  cases typesRead
  obtain ⟨⟨values, _⟩, valuesRead, counted⟩ := counted.exists_ok .array
  obtain ⟨names, namesRead, counted⟩ :=
    counted.exists_ok (.mapM (paramName_neverMiscounts context) values)
  obtain ⟨⟨descriptors, _⟩, descriptorsRead, counted⟩ := counted.exists_ok .array
  obtain ⟨types, typesRead, -⟩ :=
    counted.exists_ok (.mapM Ty.ofDescriptor_neverMiscounts descriptors)
  refine ⟨values, descriptors, names, types, Node.array_eq_ok.mp valuesRead, ?_,
    Node.array_eq_ok.mp descriptorsRead, mapM_eq_ok.mp typesRead⟩
  exact (mapM_eq_ok.mp namesRead).imp fun _ _ => paramName_eq_ok.mp

/-- A function with parameters is read in full exactly when its names and types are, in equal
number, and its result and its body as well. -/
theorem signature_eq_ok_iff {params : List Param} {result : Ty} {body : Node.Part Json node}
    (defines : node.DefinesFunction name typing lambda) (given : lambda.lookup "params" ≠ none) :
    signature name node context = .ok (params, result, body) ↔
      ∃ values descriptors names types, Gathers lambda typing values descriptors names types ∧
        (names.length = types.length ∧ params = List.zipWith (⟨·, ·, true⟩) names types) ∧
        (∃ descriptor, typing.lookup "res" = some descriptor ∧
          Ty.ofDescriptor descriptor = .ok result) ∧
        lambda.lookup "expr" = some body.1 := by
  constructor
  · intro signed
    have counted : Counted (signature name node context) := by
      intro fault failed
      cases signed.symm.trans failed
    obtain ⟨values, descriptors, names, types, gathers⟩ :=
      exists_gathers_of_counted defines given counted
    refine ⟨values, descriptors, names, types, gathers, ?_⟩
    obtain ⟨inside, computed⟩ := signature_of_gathers context defines gathers
    rw [computed] at signed
    split at signed
    · cases signed
    · next equal =>
        obtain ⟨⟨descriptor, _⟩, descriptorRead, signed⟩ := bind_eq_ok.mp signed
        obtain ⟨ty, typed, signed⟩ := bind_eq_ok.mp signed
        obtain ⟨⟨inner, _⟩, innerRead, signed⟩ := bind_eq_ok.mp signed
        cases pure_eq_ok.mp signed
        exact ⟨⟨not_not.mp equal, rfl⟩, ⟨descriptor, Node.child_eq_ok.mp descriptorRead, typed⟩,
          Node.child_eq_ok.mp innerRead⟩
  · rintro ⟨values, descriptors, names, types, gathers, ⟨equal, rfl⟩, ⟨descriptor, found, typed⟩,
      bodyFound⟩
    obtain ⟨inside, computed⟩ := signature_of_gathers context defines gathers
    obtain ⟨_, descriptorRead⟩ := Node.exists_child_eq_ok context found
    obtain ⟨_, bodyRead⟩ := Node.exists_child_eq_ok context bodyFound
    rw [computed, if_neg (not_not.mpr equal)]
    refine bind_eq_ok.mpr ⟨_, descriptorRead, bind_eq_ok.mpr ⟨result, typed, ?_⟩⟩
    exact bind_eq_ok.mpr ⟨_, bodyRead, rfl⟩

/-- The numbers of parameters and types are reported exactly when all of them were read and the
numbers differ. -/
theorem signature_eq_mismatch_iff {owner : String} {found wanted : Nat}
    (defines : node.DefinesFunction name typing lambda) (given : lambda.lookup "params" ≠ none) :
    signature name node context = .error (.paramCountMismatch owner found wanted) ↔
      ∃ values descriptors names types, Gathers lambda typing values descriptors names types ∧
        names.length ≠ types.length ∧
        owner = name ∧ found = names.length ∧ wanted = types.length := by
  constructor
  · intro failed
    have counted : Counted (signature name node context) := by
      intro fault same
      cases failed.symm.trans same
      rfl
    obtain ⟨values, descriptors, names, types, gathers⟩ :=
      exists_gathers_of_counted defines given counted
    refine ⟨values, descriptors, names, types, gathers, ?_⟩
    obtain ⟨inside, computed⟩ := signature_of_gathers context defines gathers
    rw [computed] at failed
    split at failed
    · next differ =>
        cases failed
        exact ⟨differ, rfl, rfl, rfl⟩
    · have fine := NeverMiscounts.child.bind
        (fun part => (Ty.ofDescriptor_neverMiscounts part.1).bind
          fun result => NeverMiscounts.child.map _) _ failed
      cases fine
  · rintro ⟨values, descriptors, names, types, gathers, differ, rfl, rfl, rfl⟩
    obtain ⟨inside, computed⟩ := signature_of_gathers context defines gathers
    rw [computed, if_pos differ]

/-- Parameters take their names from one list and their types from another, each from the value at
its own position. -/
structure Lockstep (values descriptors : List Json) (params : List Param) : Prop where
  values_length : values.length = params.length
  descriptors_length : descriptors.length = params.length
  paired : ∀ (index : Nat) (value descriptor : Json) (param : Param), values[index]? = some value →
    descriptors[index]? = some descriptor → params[index]? = some param →
      value.text? "name" = some param.name ∧ Ty.ofDescriptor descriptor = .ok param.ty ∧
        param.mutable = true

/-- Lists in lockstep are related element by element. -/
theorem lockstep_iff_forall₂ {params : List Param} :
    Lockstep values descriptors params ↔
      List.Forall₂ (fun value (param : Param) => Json.text? "name" value = some param.name)
        values params ∧
      List.Forall₂ (fun descriptor (param : Param) => Ty.ofDescriptor descriptor = .ok param.ty)
        descriptors params ∧
      ∀ param ∈ params, param.mutable = true := by
  constructor
  · intro lockstep
    obtain ⟨valuesLength, descriptorsLength, paired⟩ := lockstep
    have at_index (index : Nat) (below : index < params.length) :=
      paired index _ _ _ (List.getElem?_eq_getElem (valuesLength ▸ below))
        (List.getElem?_eq_getElem (descriptorsLength ▸ below)) (List.getElem?_eq_getElem below)
    refine ⟨List.forall₂_iff_get.mpr ⟨valuesLength, ?_⟩,
      List.forall₂_iff_get.mpr ⟨descriptorsLength, ?_⟩, ?_⟩
    · intro index _ below
      exact (at_index index below).1
    · intro index _ below
      exact (at_index index below).2.1
    · intro param member
      obtain ⟨index, below, rfl⟩ := List.mem_iff_getElem.mp member
      exact (at_index index below).2.2
  · rintro ⟨named, typed, mutable⟩
    refine ⟨named.length_eq, typed.length_eq, ?_⟩
    intro index value descriptor param valueAt descriptorAt paramAt
    obtain ⟨below, rfl⟩ := List.getElem?_eq_some_iff.mp valueAt
    obtain ⟨below', rfl⟩ := List.getElem?_eq_some_iff.mp descriptorAt
    obtain ⟨below'', rfl⟩ := List.getElem?_eq_some_iff.mp paramAt
    exact ⟨named.get below below'', typed.get below' below'', mutable _ (List.getElem_mem below'')⟩

/-- Pairing equally many names and types loses none of them. -/
theorem eq_zipWith_iff {params : List Param} :
    names.length = types.length ∧ params = List.zipWith (⟨·, ·, true⟩) names types ↔
      names = params.map Param.name ∧ types = params.map Param.ty ∧
        ∀ param ∈ params, param.mutable = true := by
  constructor
  · rintro ⟨equal, rfl⟩
    rw [← List.map_uncurry_zip_eq_zipWith, List.map_map, List.map_map]
    refine ⟨(List.map_fst_zip (Nat.le_of_eq equal)).symm,
      (List.map_snd_zip (Nat.le_of_eq equal.symm)).symm, ?_⟩
    exact List.forall_mem_map.mpr fun _ _ => rfl
  · rintro ⟨rfl, rfl, mutable⟩
    refine ⟨by rw [List.length_map, List.length_map], ?_⟩
    rw [List.zipWith_map, List.zipWith_self]
    refine (List.map_id params).symm.trans (List.map_congr_left fun param member => ?_)
    rw [← mutable param member, id]

/-- The names and types of parameters can be read, in whatever number. -/
structure ReadsParams (lambda typing : Node) (values descriptors : List Json) : Prop where
  valuesField : lambda.lookup "params" = some (.arr values)
  named : ∀ value ∈ values, ∃ label, value.text? "name" = some label
  descriptorsField : typing.lookup "args" = some (.arr descriptors)
  typed : ∀ descriptor ∈ descriptors, ∃ ty, Ty.ofDescriptor descriptor = .ok ty

theorem readsParams_iff_gathers : ReadsParams lambda typing values descriptors ↔
    ∃ names types, Gathers lambda typing values descriptors names types := by
  constructor
  · rintro ⟨valuesField, named, descriptorsField, typed⟩
    obtain ⟨names, named⟩ := exists_forall₂_iff.mpr named
    obtain ⟨types, typed⟩ := exists_forall₂_iff.mpr typed
    exact ⟨names, types, valuesField, named, descriptorsField, typed⟩
  · rintro ⟨names, types, gathers⟩
    exact ⟨gathers.valuesField, exists_forall₂_iff.mp ⟨names, gathers.named⟩,
      gathers.descriptorsField, exists_forall₂_iff.mp ⟨types, gathers.typed⟩⟩

/-- The type of a result can be read, and a body lowers under it, on a log of earlier warnings. -/
structure ReadsBody (lambda typing : Node) (result : Ty) (term : Term)
    (earlier log : Array Warning) : Prop where
  typed : ∃ descriptor, typing.lookup "res" = some descriptor ∧
    Ty.ofDescriptor descriptor = .ok result
  lowered : ∃ value, lambda.lookup "expr" = some value ∧
    (Term.lower value (some result)).runWith earlier = (.ok term, log)

/-- A function is lowered by reading its signature and lowering its body. -/
theorem lower_definesFunction (defines : node.DefinesFunction name typing lambda) :
    lower (.obj node) = (do
      let (params, result, body) ← signature name node (definitionContext "puredef" name)
      let term ← Term.lower body.1 (some result)
      return some (.function name params result [.ret term] [])) := by
  rw [lower, Lowering.read_bind (Node.ofValue_eq_ok.mpr rfl),
    Lowering.read_bind (Node.string_eq_ok.mpr defines.kind)]
  change lowerDefinition node = _
  rw [lowerDefinition, Lowering.read_bind (Node.string_eq_ok.mpr defines.name),
    Lowering.read_bind (Node.string_eq_ok.mpr defines.qualifier)]
  rfl

/-- The parameters are in lockstep with the lists they come from exactly when they are paired from
equally many names and types. -/
theorem exists_gathers_iff_lockstep {params : List Param} :
    (∃ names types, Gathers lambda typing values descriptors names types ∧
      (names.length = types.length ∧ params = List.zipWith (⟨·, ·, true⟩) names types)) ↔
      lambda.lookup "params" = some (.arr values) ∧
        typing.lookup "args" = some (.arr descriptors) ∧ Lockstep values descriptors params := by
  rw [lockstep_iff_forall₂]
  simp only [eq_zipWith_iff]
  constructor
  · rintro ⟨_, _, ⟨valuesField, named, descriptorsField, typed⟩, rfl, rfl, mutable⟩
    rw [List.forall₂_map_right_iff] at named typed
    exact ⟨valuesField, descriptorsField, named, typed, mutable⟩
  · rintro ⟨valuesField, descriptorsField, named, typed, mutable⟩
    exact ⟨_, _, ⟨valuesField, List.forall₂_map_right_iff.mpr named, descriptorsField,
      List.forall₂_map_right_iff.mpr typed⟩, rfl, rfl, mutable⟩

/-- Equally many names and types that can be read are paired. -/
theorem ReadsParams.exists_lockstep (reads : ReadsParams lambda typing values descriptors)
    (equal : values.length = descriptors.length) :
    ∃ params, Lockstep values descriptors params := by
  obtain ⟨names, types, gathers⟩ := readsParams_iff_gathers.mp reads
  have lengths : names.length = types.length := by
    rw [← gathers.named.length_eq, equal, gathers.typed.length_eq]
  obtain ⟨-, -, lockstep⟩ :=
    exists_gathers_iff_lockstep.mp ⟨names, types, gathers, lengths, rfl⟩
  exact ⟨_, lockstep⟩

/-- What is in lockstep with parameters can be read, in equal number. -/
theorem Lockstep.readsParams {params : List Param} (lockstep : Lockstep values descriptors params)
    (valuesField : lambda.lookup "params" = some (.arr values))
    (descriptorsField : typing.lookup "args" = some (.arr descriptors)) :
    ReadsParams lambda typing values descriptors ∧ values.length = descriptors.length := by
  obtain ⟨names, types, gathers, -⟩ :=
    exists_gathers_iff_lockstep.mpr ⟨valuesField, descriptorsField, lockstep⟩
  exact ⟨readsParams_iff_gathers.mpr ⟨names, types, gathers⟩,
    lockstep.values_length.trans lockstep.descriptors_length.symm⟩

variable {earlier log : Array Warning} {item : Option Item}

theorem lower_function_eq_ok (defines : node.DefinesFunction name typing lambda) :
    (lower (.obj node)).runWith earlier = (.ok item, log) ↔
      ∃ params result body term,
        signature name node (definitionContext "puredef" name) = .ok (params, result, body) ∧
        (Term.lower body.1 (some result)).runWith earlier = (.ok term, log) ∧
        item = some (.function name params result [.ret term] []) := by
  rw [lower_definesFunction defines, Lowering.runWith_liftM_bind_eq_ok]
  constructor
  · rintro ⟨⟨params, result, body⟩, signed, run⟩
    obtain ⟨term, between, lowered, run⟩ := Lowering.runWith_bind_eq_ok.mp run
    obtain ⟨rfl, rfl⟩ := Lowering.runWith_pure_eq_ok.mp run
    exact ⟨params, result, body, term, signed, lowered, rfl⟩
  · rintro ⟨params, result, body, term, signed, lowered, rfl⟩
    exact ⟨_, signed, Lowering.runWith_bind_eq_ok.mpr ⟨term, log, lowered, rfl⟩⟩

/-- A function with parameters becomes an item exactly when parameters can be in lockstep with
their lists and the body is read. -/
theorem lower_params_eq_ok (defines : node.DefinesFunction name typing lambda)
    (given : lambda.lookup "params" ≠ none) :
    (lower (.obj node)).runWith earlier = (.ok item, log) ↔
      ∃ values descriptors params result term,
        lambda.lookup "params" = some (.arr values) ∧
        typing.lookup "args" = some (.arr descriptors) ∧ Lockstep values descriptors params ∧
        ReadsBody lambda typing result term earlier log ∧
        item = some (.function name params result [.ret term] []) := by
  rw [lower_function_eq_ok defines]
  constructor
  · rintro ⟨params, result, body, term, signed, lowered, rfl⟩
    obtain ⟨values, descriptors, names, types, gathers, zipped, typed, bodyField⟩ :=
      (signature_eq_ok_iff defines given).mp signed
    obtain ⟨valuesField, descriptorsField, lockstep⟩ :=
      exists_gathers_iff_lockstep.mp ⟨names, types, gathers, zipped⟩
    exact ⟨values, descriptors, params, result, term, valuesField, descriptorsField, lockstep,
      ⟨typed, body.1, bodyField, lowered⟩, rfl⟩
  · rintro ⟨values, descriptors, params, result, term, valuesField, descriptorsField, lockstep,
      ⟨typed, body, bodyField, lowered⟩, rfl⟩
    obtain ⟨names, types, gathers, zipped⟩ :=
      exists_gathers_iff_lockstep.mpr ⟨valuesField, descriptorsField, lockstep⟩
    obtain ⟨inside, -⟩ := Node.exists_object_eq_ok "" defines.expression
    refine ⟨params, result, ⟨body, Nat.lt_trans (Node.sizeOf_lookup_lt bodyField) inside⟩, term,
      ?_, lowered, rfl⟩
    exact (signature_eq_ok_iff defines given).mpr
      ⟨values, descriptors, names, types, gathers, zipped, typed, bodyField⟩

/-- The numbers of parameters and types are reported exactly when all of them can be read and the
numbers differ, before the body is looked at. -/
theorem lower_params_eq_mismatch {owner : String} {found wanted : Nat}
    (defines : node.DefinesFunction name typing lambda) (given : lambda.lookup "params" ≠ none) :
    (lower (.obj node)).runWith earlier = (.error (.paramCountMismatch owner found wanted), log) ↔
      (∃ values descriptors, ReadsParams lambda typing values descriptors ∧
        values.length ≠ descriptors.length ∧
        owner = name ∧ found = values.length ∧ wanted = descriptors.length) ∧ log = earlier := by
  rw [lower_definesFunction defines, Lowering.runWith_read_bind_eq_miscount rfl
    fun signed => (Term.lower_neverMiscounts _ _).map _, signature_eq_mismatch_iff defines given]
  refine and_congr_left fun _ => exists_congr fun values => exists_congr fun descriptors => ?_
  rw [readsParams_iff_gathers]
  constructor
  · rintro ⟨names, types, gathers, counts⟩
    rw [← gathers.named.length_eq, ← gathers.typed.length_eq] at counts
    exact ⟨⟨names, types, gathers⟩, counts⟩
  · rintro ⟨⟨names, types, gathers⟩, counts⟩
    rw [gathers.named.length_eq, gathers.typed.length_eq] at counts
    exact ⟨names, types, gathers, counts⟩

/-- Without parameters, the annotation is the type of the result, and the expression is the body. -/
theorem signature_without_params {params : List Param} {result : Ty} {body : Node.Part Json node}
    (defines : node.DefinesFunction name typing lambda) (absent : lambda.lookup "params" = none) :
    signature name node context = .ok (params, result, body) ↔
      params = [] ∧ Ty.ofDescriptor (.obj typing) = .ok result ∧ body.1 = .obj lambda := by
  obtain ⟨_, lambdaRead⟩ := Node.exists_object_eq_ok context defines.expression
  obtain ⟨_, typingRead⟩ := Node.exists_child_eq_ok context defines.typed
  obtain ⟨small, bodyRead⟩ := Node.exists_child_eq_ok context defines.expression
  have computed : signature name node context = (do
      let result ← Ty.ofDescriptor (.obj typing)
      return ([], result, ⟨.obj lambda, small⟩)) := by
    rw [signature]
    refine (bind_of_ok lambdaRead).trans ((bind_of_ok typingRead).trans ?_)
    simp only [absent, bodyRead]
    rfl
  rw [computed, bind_eq_ok]
  constructor
  · rintro ⟨ty, typed, signed⟩
    cases pure_eq_ok.mp signed
    exact ⟨rfl, typed, rfl⟩
  · rintro ⟨rfl, typed, same⟩
    obtain ⟨value, small⟩ := body
    obtain rfl : value = .obj lambda := same
    exact ⟨result, typed, rfl⟩

/-- A function takes its parameters from two lists in lockstep. It becomes an item exactly when both
lists can be read, are equally long, and the type of its result and its body can be read too. Lists
of other lengths are reported with both lengths, and nothing else is recorded. A function that holds
no list of parameters has none, and its whole annotation is the type of its result. -/
theorem lower_pairs_params_in_lockstep (defines : node.DefinesFunction name typing lambda)
    (earlier : Array Warning) :
    (lambda.lookup "params" ≠ none →
      ((∃ item log, (lower (.obj node)).runWith earlier = (.ok item, log)) ↔
        (∃ values descriptors, ReadsParams lambda typing values descriptors ∧
          values.length = descriptors.length) ∧
        ∃ result term log, ReadsBody lambda typing result term earlier log) ∧
      (∀ item log, (lower (.obj node)).runWith earlier = (.ok item, log) ↔
        ∃ values descriptors params result term,
          lambda.lookup "params" = some (.arr values) ∧
          typing.lookup "args" = some (.arr descriptors) ∧ Lockstep values descriptors params ∧
          ReadsBody lambda typing result term earlier log ∧
          item = some (.function name params result [.ret term] [])) ∧
      (∀ owner found wanted log, (lower (.obj node)).runWith earlier =
          (.error (.paramCountMismatch owner found wanted), log) ↔
        (∃ values descriptors, ReadsParams lambda typing values descriptors ∧
          values.length ≠ descriptors.length ∧
          owner = name ∧ found = values.length ∧ wanted = descriptors.length) ∧
        log = earlier)) ∧
    (lambda.lookup "params" = none →
      ∀ item log, (lower (.obj node)).runWith earlier = (.ok item, log) ↔
        ∃ result term, Ty.ofDescriptor (.obj typing) = .ok result ∧
          (Term.lower (.obj lambda) (some result)).runWith earlier = (.ok term, log) ∧
          item = some (.function name [] result [.ret term] [])) := by
  refine ⟨fun given => ⟨?_, ?_, ?_⟩, fun absent item log => ?_⟩
  · constructor
    · rintro ⟨item, log, run⟩
      obtain ⟨values, descriptors, params, result, term, valuesField, descriptorsField, lockstep,
        reads, -⟩ := (lower_params_eq_ok defines given).mp run
      exact ⟨⟨values, descriptors, lockstep.readsParams valuesField descriptorsField⟩,
        result, term, log, reads⟩
    · rintro ⟨⟨values, descriptors, readsParams, equal⟩, result, term, log, reads⟩
      obtain ⟨params, lockstep⟩ := readsParams.exists_lockstep equal
      exact ⟨_, log, (lower_params_eq_ok defines given).mpr
        ⟨values, descriptors, params, result, term, readsParams.valuesField,
          readsParams.descriptorsField, lockstep, reads, rfl⟩⟩
  · intro item log
    exact lower_params_eq_ok defines given
  · intro owner found wanted log
    exact lower_params_eq_mismatch defines given
  · rw [lower_function_eq_ok defines]
    constructor
    · rintro ⟨params, result, body, term, signed, lowered, rfl⟩
      obtain ⟨rfl, typed, same⟩ := (signature_without_params defines absent).mp signed
      rw [same] at lowered
      exact ⟨result, term, typed, lowered, rfl⟩
    · rintro ⟨result, term, typed, lowered, rfl⟩
      obtain ⟨small, -⟩ := Node.exists_child_eq_ok "" defines.expression
      exact ⟨[], result, ⟨.obj lambda, small⟩, term,
        (signature_without_params defines absent).mpr ⟨rfl, typed, rfl⟩, lowered, rfl⟩

/-- The types of a function that returns a number. -/
def sampleTyping (args : List Json) : Node :=
  [("args", .arr args), ("kind", .str "oper"), ("res", .obj [("kind", .str "int")])]

/-- A function of an account and an amount, which returns the amount. -/
def sampleLambda : Node :=
  [("expr", .obj [("kind", .str "name"), ("name", .str "amount")]), ("kind", .str "lambda"),
    ("params", .arr [.obj [("name", .str "account")], .obj [("name", .str "amount")]])]

/-- The definition of the function under types for its parameters. -/
def sampleCredit (args : List Json) : Node :=
  [("expr", .obj sampleLambda), ("kind", .str "def"), ("name", .str "credit"),
    ("qualifier", .str "puredef"), ("typeAnnotation", .obj (sampleTyping args))]

/-- With a text and a number the parameters have these types, and with the text alone they
differ in number from their types. -/
theorem sampleCredit_pairs_params_in_lockstep :
    (lower (.obj (sampleCredit [.obj [("kind", .str "str")], .obj [("kind", .str "int")]]))).runWith
        #[.unsupportedOpcode "fold"] =
      (.ok (some (.function "credit" [⟨"account", .str, true⟩, ⟨"amount", .uint64, true⟩] .uint64
        [.ret (.name "amount")] [])), #[.unsupportedOpcode "fold"]) ∧
    (lower (.obj (sampleCredit [.obj [("kind", .str "str")]]))).runWith
        #[.unsupportedOpcode "fold"] =
      (.error (.paramCountMismatch "credit" 2 1), #[.unsupportedOpcode "fold"]) := by
  have defines (args : List Json) :
      (sampleCredit args).DefinesFunction "credit" (sampleTyping args) sampleLambda :=
    ⟨rfl, rfl, rfl, rfl, rfl⟩
  have text : Ty.ofDescriptor (.obj [("kind", .str "str")]) = .ok .str :=
    Ty.ofDescriptor_eq_ok.mpr (.str rfl)
  have number : Ty.ofDescriptor (.obj [("kind", .str "int")]) = .ok .uint64 :=
    Ty.ofDescriptor_eq_ok.mpr (.int rfl)
  have given : sampleLambda.lookup "params" ≠ none := nofun
  constructor
  · obtain ⟨⟨-, succeeds, -⟩, -⟩ :=
      (lower_pairs_params_in_lockstep (defines _) _).imp_left (· given)
    refine (succeeds _ _).mpr ⟨_, _, _, _, _, rfl, rfl, lockstep_iff_forall₂.mpr ⟨?_, ?_, ?_⟩,
      ⟨⟨_, rfl, number⟩, _, rfl, by with_unfolding_all rfl⟩, rfl⟩
    · exact .cons rfl (.cons rfl .nil)
    · exact .cons text (.cons number .nil)
    · exact List.forall_mem_cons.mpr ⟨rfl, List.forall_mem_singleton.mpr rfl⟩
  · obtain ⟨⟨-, -, mismatches⟩, -⟩ :=
      (lower_pairs_params_in_lockstep (defines _) _).imp_left (· given)
    refine (mismatches _ _ _ _).mpr ⟨⟨_, _, ⟨rfl, ?_, rfl, ?_⟩, ?_, rfl, rfl, rfl⟩, rfl⟩
    · exact List.forall_mem_cons.mpr ⟨⟨_, rfl⟩, List.forall_mem_singleton.mpr ⟨_, rfl⟩⟩
    · exact List.forall_mem_singleton.mpr ⟨_, text⟩
    · exact Nat.succ_ne_self 1

end Item

end SpecTranspiler

import Mathlib.Data.List.Forall2
import SpecTranspiler.Proofs.Descriptors
import SpecTranspiler.Proofs.Flattening
import SpecTranspiler.Proofs.Image

/-!
# The normal form of lowered programs

Lowered programs use only a part of the target language. `Item.IsNormalFor` describes an item
in this part, next to the declaration it comes from, and speaks of every type and of every
position inside its terms. One declaration at a time is shown to become such an item; the
declarations of a document follow by induction.
-/

namespace SpecTranspiler

namespace Term

/-- A term has an occurrence directly below a parent, if any, where the whole term stands
below `above`. -/
inductive Occurs (parent : Option Term) (inner : Term) : Option Term → Term → Prop where
  | here : Occurs parent inner parent inner
  | deeper {above : Option Term} {whole part : Term} (direct : part ∈ whole.parts)
      (inside : Occurs parent inner (some whole) part) : Occurs parent inner above whole

/-- The types that a term names itself. -/
def types : Term → List Ty
  | .call _ types _ => types
  | .typeCall ty _ types _ => ty :: types
  | .methodCall _ _ types _ => types
  | _ => []

/-- The term may stand below a parent. Enumerations, free and associated functions and blocks
stand nowhere. A borrow is the receiver or the argument of a membership test, and the keys of
a map are collected into a set at once. -/
def Allowed (parent : Option Term) : Term → Prop
  | .variant .. | .call .. | .typeCall .. | .block .. => False
  | .borrow operand => ∃ set element,
      parent = some (.methodCall (.borrow set) "contains_key" [] [.borrow element]) ∧
        (operand = set ∨ operand = element)
  | .methodCall receiver method types args =>
      (∃ set element, receiver = .borrow set ∧ method = "contains_key" ∧ types = [] ∧
        args = [.borrow element]) ∨
      (∃ map, receiver = .methodCall map "keys" [] [] ∧ method = "collect" ∧
        types = [.set (.named "_")] ∧ args = []) ∨
      (method = "keys" ∧ types = [] ∧ args = [] ∧
        parent = some (.methodCall (.methodCall receiver "keys" [] []) "collect"
          [.set (.named "_")] []))
  | _ => True

/-- Every occurrence in a term below a parent is allowed, and names no type with a reference. -/
def IsNormalBelow (above : Option Term) (whole : Term) : Prop :=
  ∀ parent inner, Occurs parent inner above whole →
    inner.Allowed parent ∧ ∀ ty ∈ inner.types, ty.IsRefFree

theorem IsNormalBelow.of_parts {above : Option Term} {whole : Term}
    (allowed : whole.Allowed above) (types : ∀ ty ∈ whole.types, ty.IsRefFree)
    (each : ∀ part ∈ whole.parts, part.IsNormalBelow (some whole)) :
    whole.IsNormalBelow above := by
  intro parent inner occurs
  cases occurs with
  | here => exact ⟨allowed, types⟩
  | deeper direct inside => exact each _ direct parent inner inside

/-- Terms that lowering yields are in normal form, wherever they stand. -/
theorem Image.isNormalBelow {expected : Option Ty} {term : Term} (image : Image expected term)
    (above : Option Term) : term.IsNormalBelow above := by
  have noTypes : ∀ ty ∈ ([] : List Ty), ty.IsRefFree := List.forall_mem_nil _
  induction image generalizing above with
  | todo | literal | name => exact .of_parts trivial noTypes (List.forall_mem_nil _)
  | field _ _ ih | negate _ ih =>
      exact .of_parts trivial noTypes (List.forall_mem_singleton.mpr (ih _))
  | add _ _ firstIH secondIH | bind _ _ _ firstIH secondIH =>
      refine .of_parts trivial noTypes (List.forall_mem_cons.mpr ⟨firstIH _, ?_⟩)
      exact List.forall_mem_singleton.mpr (secondIH _)
  | ifElse _ _ _ testIH trueIH falseIH =>
      refine .of_parts trivial noTypes (List.forall_mem_cons.mpr ⟨testIH _, ?_⟩)
      refine List.forall_mem_cons.mpr ⟨trueIH _, ?_⟩
      exact List.forall_mem_singleton.mpr (falseIH _)
  | typedTuple _ ih =>
      refine .of_parts trivial noTypes ?_
      simp only [parts, List.forall_mem_map]
      exact fun element member => ih element member _
  | untypedTuple _ _ ih =>
      exact .of_parts trivial noTypes fun element member => ih element member _
  | record _ ih =>
      refine .of_parts trivial noTypes ?_
      simp only [parts, List.forall_mem_map]
      exact fun field member => ih field member _
  | @containsKey _ set element _ _ setIH elementIH =>
      -- Both borrows stand directly below the membership test, which allows them.
      refine .of_parts (.inl ⟨set, element, rfl, rfl, rfl, rfl⟩) noTypes ?_
      refine List.forall_mem_cons.mpr ⟨?_, List.forall_mem_singleton.mpr ?_⟩
      · exact .of_parts ⟨set, element, rfl, .inl rfl⟩ noTypes
          (List.forall_mem_singleton.mpr (setIH _))
      · exact .of_parts ⟨set, element, rfl, .inr rfl⟩ noTypes
          (List.forall_mem_singleton.mpr (elementIH _))
  | @keySet _ map _ ih =>
      have wildcard : (Ty.named "_").IsRefFree := .of_parts rfl (List.forall_mem_nil _)
      have collected : (Ty.set (.named "_")).IsRefFree :=
        .of_parts rfl (List.forall_mem_singleton.mpr wildcard)
      refine .of_parts (.inr (.inl ⟨map, rfl, rfl, rfl, rfl⟩))
        (List.forall_mem_singleton.mpr collected) (List.forall_mem_singleton.mpr ?_)
      exact .of_parts (.inr (.inr ⟨rfl, rfl, rfl, rfl⟩)) noTypes
        (List.forall_mem_singleton.mpr (ih _))

end Term

namespace Item

/-- The types that an item declares. -/
def types : Item → List Ty
  | .struct _ fields _ => fields.map Prod.snd
  | .function _ params result _ _ => params.map Param.ty ++ [result]
  | .const _ ty _ => [ty]
  | .val .. => []
  | .synonym _ ty => [ty]

/-- The expression that the body of a defined function is read from. It stands beside the
parameters, if there are any. -/
def bodyValue? (declaration : Json) : Option Json :=
  match declaration with
  | .obj node =>
      match node.lookup "expr" with
      | some (.obj lambda) =>
          match lambda.lookup "params" with
          | some _ => lambda.lookup "expr"
          | none => some (.obj lambda)
      | _ => none
  | _ => none

/-- The item has the form that every item of its kind has. Functions return the expression of
their declaration, lowered against their own result type. -/
def HasNormalShape (declaration : Json) : Item → Prop
  | .struct _ _ attributes =>
      attributes = ["derive(Debug, Clone, Default, Serialize, Deserialize)"]
  | .function _ params result body attributes =>
      attributes = [] ∧ (∀ param ∈ params, param.mutable = true) ∧
        ∃ value term, bodyValue? declaration = some value ∧
          (Term.lower value (some result)).runFresh.1 = .ok term ∧ body = [.ret term]
  | .const .. => True
  | .val .. => False
  | .synonym _ ty => ∀ fields, ty ≠ .record fields

/-- The item is in normal form, and comes from the declaration. -/
structure IsNormalFor (declaration : Json) (item : Item) : Prop where
  name : declaration.text? "name" = some item.name
  shape : item.HasNormalShape declaration
  types : ∀ ty ∈ item.types, ty.IsRefFree
  terms : ∀ term ∈ item.terms, term.IsNormalBelow none

/-- Declarations become items in normal form. -/
def YieldsNormal (declarations : List Json) (items : List Item) : Prop :=
  List.Forall₂ IsNormalFor (declarations.filter isKept) items

/-- A type definition becomes an item in normal form: a structure for a record, and a synonym for
any other type. -/
theorem ofTypedef_isNormalFor {node : Node} {item : Item} (defined : ofTypedef node = .ok item) :
    item.IsNormalFor (.obj node) := by
  rw [ofTypedef] at defined
  obtain ⟨name, named, defined⟩ := bind_eq_ok.mp defined
  obtain ⟨⟨descriptor, _⟩, found, defined⟩ := bind_eq_ok.mp defined
  obtain ⟨ty, typed, defined⟩ := bind_eq_ok.mp defined
  have nameField := Json.text?_obj (Node.string_eq_ok.mp named)
  have refFree := (Ty.ofDescriptor_eq_ok.mp typed).isRefFree
  split at defined
  · next fields =>
      obtain rfl := pure_eq_ok.mp defined
      refine ⟨nameField, rfl, fun part member => ?_, nofun⟩
      exact fun inner mutable within => refFree inner mutable (.deeper member within)
  · next notRecord =>
      obtain rfl := pure_eq_ok.mp defined
      exact ⟨nameField, notRecord, List.forall_mem_singleton.mpr refFree, nofun⟩

/-- What is read one after the other is read from the values. -/
theorem exists_mem_of_mapM {values : List Json} {α : Type} {read : Json → Except Fault α}
    {results : List α} (run : values.mapM read = .ok results) {result : α}
    (member : result ∈ results) : ∃ value ∈ values, read value = .ok result := by
  induction values generalizing results with
  | nil =>
      obtain rfl := pure_eq_ok.mp run
      cases member
  | cons value rest ih =>
      rw [List.mapM_cons] at run
      obtain ⟨first, readFirst, run⟩ := bind_eq_ok.mp run
      obtain ⟨others, readOthers, run⟩ := bind_eq_ok.mp run
      obtain rfl := pure_eq_ok.mp run
      rcases List.mem_cons.mp member with rfl | inside
      · exact ⟨value, List.mem_cons_self, readFirst⟩
      · obtain ⟨source, found, readSource⟩ := ih readOthers inside
        exact ⟨source, List.mem_cons_of_mem _ found, readSource⟩

/-- All that the signature of a function tells: its parameters are mutable, its types are free
of references, and its body is the expression of the definition. -/
theorem signature_eq_ok {name context : String} {node : Node} {params : List Param} {result : Ty}
    {body : Node.Part Json node}
    (signed : signature name node context = .ok (params, result, body)) :
    (∀ param ∈ params, param.mutable = true ∧ param.ty.IsRefFree) ∧ result.IsRefFree ∧
      bodyValue? (.obj node) = some body.1 := by
  rw [signature] at signed
  obtain ⟨⟨lambda, _⟩, lambdaFound, signed⟩ := bind_eq_ok.mp signed
  obtain ⟨⟨typing, _⟩, _, signed⟩ := bind_eq_ok.mp signed
  have lambdaField := Node.object_eq_ok.mp lambdaFound
  dsimp only at lambdaField signed
  cases parameters : lambda.lookup "params" with
  | none =>
      simp only [parameters] at signed
      obtain ⟨ty, typed, signed⟩ := bind_eq_ok.mp signed
      obtain ⟨whole, wholeFound, signed⟩ := bind_eq_ok.mp signed
      cases pure_eq_ok.mp signed
      have same := (Node.child_eq_ok.mp wholeFound).symm.trans lambdaField
      refine ⟨nofun, (Ty.ofDescriptor_eq_ok.mp typed).isRefFree, ?_⟩
      simp only [bodyValue?, lambdaField, parameters, Option.some.inj same]
  | some _ =>
      simp only [parameters] at signed
      obtain ⟨typingNode, _, signed⟩ := bind_eq_ok.mp signed
      obtain ⟨values, _, signed⟩ := bind_eq_ok.mp signed
      obtain ⟨names, _, signed⟩ := bind_eq_ok.mp signed
      obtain ⟨args, _, signed⟩ := bind_eq_ok.mp signed
      obtain ⟨types, typed, signed⟩ := bind_eq_ok.mp signed
      split at signed
      · cases signed
      · obtain ⟨descriptor, _, signed⟩ := bind_eq_ok.mp signed
        obtain ⟨ty, resultTyped, signed⟩ := bind_eq_ok.mp signed
        obtain ⟨⟨inner, _⟩, innerFound, signed⟩ := bind_eq_ok.mp signed
        cases pure_eq_ok.mp signed
        refine ⟨fun param member => ?_, (Ty.ofDescriptor_eq_ok.mp resultTyped).isRefFree, ?_⟩
        · rw [← List.map_uncurry_zip_eq_zipWith] at member
          obtain ⟨⟨label, ty⟩, inside, rfl⟩ := List.mem_map.mp member
          obtain ⟨value, _, described⟩ := exists_mem_of_mapM typed (List.of_mem_zip inside).2
          exact ⟨rfl, (Ty.ofDescriptor_eq_ok.mp described).isRefFree⟩
        · simp only [bodyValue?, lambdaField, parameters, Node.child_eq_ok.mp innerFound]

/-- A definition becomes an item in normal form, if it is not a local value. -/
theorem Defines.isNormalFor {node : Node} {item : Item} {warnings : List Warning}
    (defined : Defines node (some item) warnings)
    (notVal : ∀ name value, item ≠ .val name value) : item.IsNormalFor (.obj node) := by
  cases defined with
  | constant nameField _ _ typed _ value =>
      refine ⟨Json.text?_obj nameField, trivial, ?_, ?_⟩
      · exact List.forall_mem_singleton.mpr (Ty.ofDescriptor_eq_ok.mp typed).isRefFree
      · exact List.forall_mem_singleton.mpr (value.image.isNormalBelow none)
  | @function name params result body term _ nameField _ signed lowered =>
      obtain ⟨each, resultFree, bodyFound⟩ := signature_eq_ok signed
      have run : (Term.lower body.1 (some result)).runFresh.1 = .ok term := by
        rw [Lowering.runFresh, lowered.yields #[]]
      refine ⟨Json.text?_obj nameField, ?_, ?_, ?_⟩
      · exact ⟨rfl, fun param member => (each param member).1, body.1, term, bodyFound, run, rfl⟩
      · refine List.forall_mem_append.mpr ⟨?_, List.forall_mem_singleton.mpr resultFree⟩
        exact List.forall_mem_map.mpr fun param member => (each param member).2
      · exact List.forall_mem_singleton.mpr (lowered.image.isNormalBelow none)
  | val => exact (notVal _ _ rfl).elim

end Item

/-- A declaration at the top level becomes an item in normal form, if it becomes an item. -/
theorem Module.lowerTopLevel_isNormalFor {declaration : Json} {item : Item}
    {earlier log : Array Warning}
    (run : (lowerTopLevel declaration).runWith earlier = (.ok (some item), log)) :
    item.IsNormalFor declaration := by
  rw [lowerTopLevel] at run
  obtain ⟨lowered, between, lowering, run⟩ := Lowering.runWith_bind_eq_ok.mp run
  obtain ⟨warnings, derived, -⟩ := Item.lower_traced lowering
  split at run
  · obtain ⟨impossible, -⟩ := Lowering.runWith_pure_eq_ok.mp run
    cases impossible
  · next notVal =>
      obtain ⟨rfl, -⟩ := Lowering.runWith_pure_eq_ok.mp run
      cases derived with
      | typedef _ defined => exact Item.ofTypedef_isNormalFor defined
      | definition _ defined =>
          refine defined.isNormalFor ?_
          rintro name value rfl
          exact notVal name value rfl

/-- One declaration: there is an item exactly for one that is kept. -/
theorem Module.lowerTopLevel_yieldsNormal {declaration : Json} {item : Option Item}
    {earlier log : Array Warning}
    (run : (lowerTopLevel declaration).runWith earlier = (.ok item, log)) :
    Item.YieldsNormal [declaration] item.toList := by
  -- The balance of declarations and items tells whether this one is kept.
  obtain ⟨_, accounts, -⟩ := lowerTopLevel_accounts run
  have lengths := congrArg List.length accounts.named
  rw [List.length_map, List.length_map] at lengths
  rw [Item.YieldsNormal]
  cases item with
  | none =>
      rw [List.eq_nil_of_length_eq_zero lengths.symm]
      exact .nil
  | some item =>
      have kept : [declaration].filter Item.isKept = [declaration] :=
        List.filter_sublist.eq_of_length lengths.symm
      rw [kept]
      exact .cons (lowerTopLevel_isNormalFor run) .nil

namespace Progress

/-- One more declaration keeps the items in normal form. -/
theorem add_yieldsNormal {before : List Json} {progress final : Progress} {declaration : Json}
    (normal : Item.YieldsNormal before progress.items)
    (added : progress.add declaration = .ok final) :
    Item.YieldsNormal (before ++ [declaration]) final.items := by
  rw [add] at added
  split at added
  · next item log run =>
      cases added
      rw [Item.YieldsNormal, List.filter_append]
      exact List.rel_append normal (Module.lowerTopLevel_yieldsNormal run)
  · cases added

/-- All declarations of a run become items in normal form. -/
theorem foldlM_yieldsNormal {before : List Json} {progress final : Progress}
    (declarations : List Json) (normal : Item.YieldsNormal before progress.items)
    (run : declarations.foldlM add progress = .ok final) :
    Item.YieldsNormal (before ++ declarations) final.items := by
  induction declarations generalizing before progress with
  | nil =>
      obtain rfl := pure_eq_ok.mp run
      rw [List.append_nil]
      exact normal
  | cons declaration rest ih =>
      rw [List.foldlM_cons] at run
      obtain ⟨next, added, run⟩ := bind_eq_ok.mp run
      have whole := ih (add_yieldsNormal normal added) run
      rwa [List.append_assoc] at whole

end Progress

namespace Document

/-- **Lowered programs are in normal form.** Their imports are always the same. Their items are
those of the declarations that are kept, in order, and each is in normal form for its
declaration. -/
theorem lower_isNormal {document : Document} {resolution : Resolution}
    (lowered : document.lower = .ok resolution) :
    resolution.program.imports = ["std::collections::HashMap", "std::collections::HashSet",
      "serde::\x7bDeserialize, Serialize\x7d"] ∧
    List.Forall₂ Item.IsNormalFor (document.declarations.filter Item.isKept)
      resolution.program.items := by
  rw [lower_eq_fold] at lowered
  obtain ⟨typeNames, -, lowered⟩ := bind_eq_ok.mp lowered
  obtain ⟨progress, run, lowered⟩ := bind_eq_ok.mp lowered
  obtain rfl := pure_eq_ok.mp lowered
  have start : Item.YieldsNormal [] Progress.start.items := .nil
  exact ⟨rfl, Progress.foldlM_yieldsNormal document.declarations start run⟩

/-- A document with a record type, and a function that tests the keys of a map. -/
def vault : Document where
  types := []
  modules :=
    [⟨"vault",
        [.obj [("kind", .str "typedef"), ("name", .str "Vault"),
            ("type", .obj [("fields", .obj [("fields", .arr [.obj [("fieldName", .str "coins"),
                ("fieldType", .obj [("elem", .obj [("kind", .str "int")]),
                  ("kind", .str "list")])]])]),
              ("kind", .str "rec")])],
          .obj [("kind", .str "import")],
          .obj [("expr", .obj [
              ("expr", .obj [("args", .arr [
                  .obj [("args", .arr [.obj [("kind", .str "name"), ("name", .str "owners")]]),
                    ("kind", .str "app"), ("opcode", .str "keys")],
                  .obj [("kind", .str "name"), ("name", .str "who")]]),
                ("kind", .str "app"), ("opcode", .str "contains")]),
              ("params", .arr [.obj [("name", .str "who")]])]),
            ("kind", .str "def"), ("name", .str "isOwner"), ("qualifier", .str "puredef"),
            ("typeAnnotation", .obj [("args", .arr [.obj [("kind", .str "str")]]),
              ("res", .obj [("kind", .str "bool")])])]]⟩]

/-- The struct that the record type of the vault becomes. -/
def vaultStruct : Item :=
  .struct "Vault" [("coins", .list .uint64)] Item.structAttributes

/-- The function of the vault. -/
def vaultFunction : Item :=
  .function "isOwner" [⟨"who", .str, true⟩] .bool
    [.ret (Term.containsKey (Term.keySet (.name "owners")) (.name "who"))] []

/-- The struct and the function of the vault are in normal form, with the borrows and the
collected keys that it allows. -/
theorem vault_isNormal :
    vault.lower = .ok ⟨⟨Program.fixedImports, [vaultStruct, vaultFunction]⟩, [], []⟩ ∧
      ∃ first second, vault.declarations.filter Item.isKept = [first, second] ∧
        vaultStruct.IsNormalFor first ∧ vaultFunction.IsNormalFor second := by
  have lowered :
      vault.lower = .ok ⟨⟨Program.fixedImports, [vaultStruct, vaultFunction]⟩, [], []⟩ := by
    with_unfolding_all rfl
  obtain ⟨-, normal⟩ := lower_isNormal lowered
  obtain ⟨first, _, structNormal, rest, kept⟩ := List.forall₂_cons_right_iff.mp normal
  obtain ⟨second, _, functionNormal, done, rfl⟩ := List.forall₂_cons_right_iff.mp rest
  obtain rfl := List.forall₂_nil_right_iff.mp done
  exact ⟨lowered, first, second, kept, structNormal, functionNormal⟩

end Document

end SpecTranspiler

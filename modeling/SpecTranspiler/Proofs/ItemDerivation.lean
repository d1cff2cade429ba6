import SpecTranspiler.Proofs.TermDerivation

/-!
# Derivations of lowered declarations

`Item.Defines` and `Item.Lowers` say which item a definition and a declaration become, and with
which warnings. They have one rule for every way in which lowering succeeds, over the
derivations of the expressions inside.
-/

namespace SpecTranspiler

/-- The name of a qualifier of definitions. -/
def Qualifier.name : Qualifier → String
  | .constant => "pureval"
  | .function => "puredef"
  | .val => "val"

theorem Qualifier.ofName?_eq_some {name : String} {qualifier : Qualifier} :
    Qualifier.ofName? name = some qualifier ↔ name = qualifier.name := by
  constructor
  · intro named
    unfold Qualifier.ofName? at named
    split at named <;> cases named <;> rfl
  · rintro rfl
    cases qualifier <;> rfl

/-- The name of a kind of declarations. -/
def ItemKind.name : ItemKind → String
  | .typedef => "typedef"
  | .importing => "import"
  | .definition => "def"

theorem ItemKind.ofName?_eq_some {name : String} {kind : ItemKind} :
    ItemKind.ofName? name = some kind ↔ name = kind.name := by
  constructor
  · intro named
    unfold ItemKind.ofName? at named
    split at named <;> cases named <;> rfl
  · rintro rfl
    cases kind <;> rfl

namespace Item

/-- A definition becomes an item or is dropped, with warnings. -/
inductive Defines : Node → Option Item → List Warning → Prop where
  | constant {node : Node} {name : String} {descriptor value : Json} {ty : Ty} {term : Term}
      {warnings : List Warning} (nameField : node.lookup "name" = some (.str name))
      (qualifierField : node.lookup "qualifier" = some (.str "pureval"))
      (typeField : node.lookup "typeAnnotation" = some descriptor)
      (typed : Ty.ofDescriptor descriptor = .ok ty)
      (valueField : node.lookup "expr" = some value)
      (value : Term.Lowers value (some ty) term warnings) :
      Defines node (some (.const name ty term)) warnings
  | function {node : Node} {name : String} {params : List Param} {result : Ty}
      {body : Node.Part Json node} {term : Term} {warnings : List Warning}
      (nameField : node.lookup "name" = some (.str name))
      (qualifierField : node.lookup "qualifier" = some (.str "puredef"))
      (signed : signature name node (definitionContext "puredef" name) =
        .ok (params, result, body))
      (lowered : Term.Lowers body.1 (some result) term warnings) :
      Defines node (some (.function name params result [.ret term] [])) warnings
  | val {node : Node} {name : String} {value : Json} {term : Term} {warnings : List Warning}
      (nameField : node.lookup "name" = some (.str name))
      (qualifierField : node.lookup "qualifier" = some (.str "val"))
      (valueField : node.lookup "expr" = some value)
      (value : Term.Lowers value none term warnings) :
      Defines node (some (.val name term)) warnings
  | otherQualifier {node : Node} {name qualifier : String}
      (nameField : node.lookup "name" = some (.str name))
      (qualifierField : node.lookup "qualifier" = some (.str qualifier))
      (other : Qualifier.ofName? qualifier = none) :
      Defines node none [.unsupportedQualifier name qualifier]

/-- A declaration becomes an item or is dropped, with warnings. -/
inductive Lowers : Json → Option Item → List Warning → Prop where
  | typedef {node : Node} {item : Item} (kindField : node.lookup "kind" = some (.str "typedef"))
      (defined : ofTypedef node = .ok item) : Lowers (.obj node) (some item) []
  | importing {node : Node} (kindField : node.lookup "kind" = some (.str "import")) :
      Lowers (.obj node) none []
  | definition {node : Node} {item : Option Item} {warnings : List Warning}
      (kindField : node.lookup "kind" = some (.str "def"))
      (defined : Defines node item warnings) : Lowers (.obj node) item warnings
  | otherKind {node : Node} {kind : String} (kindField : node.lookup "kind" = some (.str kind))
      (other : ItemKind.ofName? kind = none) :
      Lowers (.obj node) none [.unsupportedDeclKind kind]

/-- A definition with a derivation is lowered as the derivation says. -/
theorem Defines.yields {node : Node} {item : Option Item} {warnings : List Warning}
    (defined : Defines node item warnings) : (lowerDefinition node).Yields item warnings := by
  cases defined with
  | constant nameField qualifierField typeField typed valueField value =>
      rw [lowerDefinition]
      refine .string nameField (.string qualifierField (.child typeField fun small => ?_))
      exact .read typed (.child valueField fun small => .map _ value.yields)
  | function nameField qualifierField signed lowered =>
      rw [lowerDefinition]
      exact .string nameField (.string qualifierField (.read signed (.map _ lowered.yields)))
  | val nameField qualifierField valueField value =>
      exact lowerDefinition_yields_val nameField qualifierField valueField value.yields
  | otherQualifier nameField qualifierField other =>
      rw [lowerDefinition]
      refine .string nameField (.string qualifierField ?_)
      simp only [other]
      exact .bind (.warn _) (.pure _)

/-- Every run that lowers a definition has a derivation, whose warnings it records. -/
theorem lowerDefinition_traced {node : Node} {item : Option Item} {earlier log : Array Warning}
    (run : (lowerDefinition node).runWith earlier = (.ok item, log)) :
    ∃ warnings, Defines node item warnings ∧ log = earlier ++ warnings.toArray := by
  have whole := run
  rw [lowerDefinition] at run
  obtain ⟨name, named, run⟩ := Lowering.runWith_liftM_bind_eq_ok.mp run
  obtain ⟨qualifier, qualified, run⟩ := Lowering.runWith_liftM_bind_eq_ok.mp run
  have nameField := Node.string_eq_ok.mp named
  have qualifierField := Node.string_eq_ok.mp qualified
  cases known : Qualifier.ofName? qualifier with
  | none =>
      simp only [known] at run
      obtain ⟨rfl, rfl⟩ := Lowering.runWith_pure_eq_ok.mp run
      exact ⟨_, .otherQualifier nameField qualifierField known, rfl⟩
  | some kind =>
      obtain rfl := Qualifier.ofName?_eq_some.mp known
      simp only [known] at run
      cases kind with
      | constant =>
          obtain ⟨⟨descriptor, _⟩, typeFound, run⟩ := Lowering.runWith_liftM_bind_eq_ok.mp run
          obtain ⟨ty, typed, run⟩ := Lowering.runWith_liftM_bind_eq_ok.mp run
          obtain ⟨⟨value, _⟩, valueFound, run⟩ := Lowering.runWith_liftM_bind_eq_ok.mp run
          obtain ⟨term, final, valueRun, run⟩ := Lowering.runWith_bind_eq_ok.mp run
          obtain ⟨rfl, rfl⟩ := Lowering.runWith_pure_eq_ok.mp run
          obtain ⟨warnings, lowered, rfl⟩ := Term.traced value valueRun
          exact ⟨warnings, .constant nameField qualifierField (Node.child_eq_ok.mp typeFound)
            typed (Node.child_eq_ok.mp valueFound) lowered, rfl⟩
      | function =>
          obtain ⟨⟨params, result, body⟩, signed, run⟩ :=
            Lowering.runWith_liftM_bind_eq_ok.mp run
          obtain ⟨term, final, bodyRun, run⟩ := Lowering.runWith_bind_eq_ok.mp run
          obtain ⟨rfl, rfl⟩ := Lowering.runWith_pure_eq_ok.mp run
          obtain ⟨warnings, lowered, rfl⟩ := Term.traced body.1 bodyRun
          exact ⟨warnings, .function nameField qualifierField signed lowered, rfl⟩
      | val =>
          obtain ⟨label, value, term, labelField, valueField, rfl, valueRun⟩ :=
            lowerDefinition_val qualifierField whole
          obtain ⟨warnings, lowered, rfl⟩ := Term.traced value valueRun
          exact ⟨warnings, .val labelField qualifierField valueField lowered, rfl⟩

theorem Lowers.yields {declaration : Json} {item : Option Item} {warnings : List Warning}
    (derived : Lowers declaration item warnings) : (lower declaration).Yields item warnings := by
  cases derived with
  | typedef kindField defined =>
      exact .read (Node.ofValue_eq_ok.mpr rfl) (.string kindField (.read defined (.pure _)))
  | importing kindField =>
      exact .read (Node.ofValue_eq_ok.mpr rfl) (.string kindField (.pure _))
  | definition kindField defined =>
      exact .read (Node.ofValue_eq_ok.mpr rfl) (.string kindField defined.yields)
  | otherKind kindField other =>
      refine .read (Node.ofValue_eq_ok.mpr rfl) (.string kindField ?_)
      simp only [other]
      exact .bind (.warn _) (.pure _)

/-- Every run that lowers a declaration has a derivation, whose warnings it records. -/
theorem lower_traced {declaration : Json} {item : Option Item} {earlier log : Array Warning}
    (run : (lower declaration).runWith earlier = (.ok item, log)) :
    ∃ warnings, Lowers declaration item warnings ∧ log = earlier ++ warnings.toArray := by
  rw [lower] at run
  obtain ⟨node, found, rest⟩ := Lowering.runWith_liftM_bind_eq_ok.mp run
  obtain ⟨kind, kindFound, rest⟩ := Lowering.runWith_liftM_bind_eq_ok.mp rest
  obtain rfl := Node.ofValue_eq_ok.mp found
  have kindField := Node.string_eq_ok.mp kindFound
  cases known : ItemKind.ofName? kind with
  | none =>
      simp only [known] at rest
      obtain ⟨rfl, rfl⟩ := Lowering.runWith_pure_eq_ok.mp rest
      exact ⟨_, .otherKind kindField known, rfl⟩
  | some itemKind =>
      obtain rfl := ItemKind.ofName?_eq_some.mp known
      simp only [known] at rest
      cases itemKind with
      | typedef =>
          obtain ⟨item, defined, rest⟩ := Lowering.runWith_liftM_bind_eq_ok.mp rest
          obtain ⟨rfl, rfl⟩ := Lowering.runWith_pure_eq_ok.mp rest
          exact ⟨_, .typedef kindField defined, Array.append_empty.symm⟩
      | importing =>
          obtain ⟨rfl, rfl⟩ := Lowering.runWith_pure_eq_ok.mp rest
          exact ⟨_, .importing kindField, Array.append_empty.symm⟩
      | definition =>
          obtain ⟨warnings, defined, rfl⟩ := lowerDefinition_traced rest
          exact ⟨warnings, .definition kindField defined, rfl⟩

end Item

end SpecTranspiler

import SpecTranspiler.Proofs.ItemDerivation

/-!
# Nothing is lost without a warning

Every declaration of a document becomes an item, is an import, or is told of in a warning, and
every placeholder in the lowered terms is told of in a warning of its own. `Accounts` states
this balance for a list of declarations. Lowering one declaration keeps it, so it holds of
whole documents.
-/

namespace SpecTranspiler

mutual

/-- The number of placeholders in a term. -/
def Term.todos : Term → Nat
  | .literal _ => 0
  | .name _ => 0
  | .field base _ => base.todos
  | .record _ fields => Term.todosInFields fields
  | .variant _ _ args => Term.todosInAll args
  | .tuple elements => Term.todosInAll elements
  | .borrow operand => operand.todos
  | .call _ _ args => Term.todosInAll args
  | .typeCall _ _ _ args => Term.todosInAll args
  | .methodCall receiver _ _ args => receiver.todos + Term.todosInAll args
  | .ifElse condition yes no => condition.todos + (yes.todos + no.todos)
  | .negate operand => operand.todos
  | .add left right => left.todos + right.todos
  | .bind _ value body => value.todos + body.todos
  | .block body => Stmt.todosInAll body
  | .todo => 1

/-- The number of placeholders in terms. -/
def Term.todosInAll : List Term → Nat
  | [] => 0
  | term :: rest => term.todos + Term.todosInAll rest

/-- The number of placeholders in the fields of a record construction. -/
def Term.todosInFields : List (String × Term) → Nat
  | [] => 0
  | (_, term) :: rest => term.todos + Term.todosInFields rest

/-- The number of placeholders in a statement. -/
def Stmt.todos : Stmt → Nat
  | .assign target value => target.todos + value.todos
  | .ret value => value.todos

/-- The number of placeholders in statements. -/
def Stmt.todosInAll : List Stmt → Nat
  | [] => 0
  | stmt :: rest => stmt.todos + Stmt.todosInAll rest

end

/-- The number of placeholders in an item. -/
def Item.todos : Item → Nat
  | .struct .. => 0
  | .function _ _ _ body _ => Stmt.todosInAll body
  | .const _ _ value => value.todos
  | .val _ value => value.todos
  | .synonym .. => 0

/-- The number of placeholders in items. -/
def Item.todosInAll : List Item → Nat
  | [] => 0
  | item :: rest => item.todos + Item.todosInAll rest

/-- The warning tells of a declaration that was left out. -/
def Warning.isOmission : Warning → Bool
  | .unsupportedQualifier .. | .unsupportedDeclKind .. | .topLevelVal .. => true
  | _ => false

/-- The warning tells of an expression that became a placeholder. -/
def Warning.isPlaceholder : Warning → Bool
  | .unsupportedExprKind .. | .unsupportedOpcode .. | .recordWithoutExpectedType
  | .unsupportedLetBinding .. => true
  | _ => false

/-- The text that a value holds under a key. -/
def Json.text? (key : String) : Json → Option String
  | .obj members =>
      match members.lookup key with
      | some (.str text) => some text
      | _ => none
  | _ => none

theorem Json.text?_obj {node : Node} {key text : String}
    (found : node.lookup key = some (.str text)) : Json.text? key (.obj node) = some text := by
  simp only [Json.text?, found]

namespace Item

/-- The declaration is an import. -/
def isImport (declaration : Json) : Bool :=
  declaration.text? "kind" = some "import"

/-- The declaration is one that becomes an item: the definition of a type, a constant or a
function. -/
def isKept (declaration : Json) : Bool :=
  declaration.text? "kind" = some "typedef" ∨
    declaration.text? "kind" = some "def" ∧
      (declaration.text? "qualifier" = some "pureval" ∨
        declaration.text? "qualifier" = some "puredef")

/-- The term that a local binding binds. -/
def boundValue? : Item → Option Term
  | .val _ value => some value
  | _ => none

/-- The term of a value that is declared at the top level, where it is left out. -/
def droppedValue? (declaration : Json) : Option Term :=
  match (lower declaration).runFresh.1 with
  | .ok item => item.bind boundValue?
  | .error _ => none

end Item

/-- The modules of libraries and tests are exactly those whose name ends in `_stdlib` or in
`_test`. -/
theorem Module.isAuxiliaryName_iff (name : String) :
    Module.isAuxiliaryName name ↔ ∃ stem, name = stem ++ "_stdlib" ∨ name = stem ++ "_test" := by
  have ends (suffix : String) :
      suffix.toList.isSuffixOf name.toList ↔ ∃ stem, name = stem ++ suffix := by
    rw [List.isSuffixOf_iff_suffix]
    constructor
    · rintro ⟨front, joined⟩
      refine ⟨String.ofList front, String.toList_injective ?_⟩
      rw [String.toList_append, String.toList_ofList, joined]
    · rintro ⟨stem, rfl⟩
      exact ⟨stem.toList, String.toList_append.symm⟩
  rw [exists_or, ← ends, ← ends]
  simp [isAuxiliaryName, auxiliarySuffixes]

/-- The declarations of the modules that hold neither libraries nor tests. -/
def Document.declarations (document : Document) : List Json :=
  (document.modules.filter fun part => !Module.isAuxiliaryName part.name).flatMap
    Module.declarations

namespace Term

theorem todosInAll_map {parts : List Lowered}
    (balanced : ∀ part ∈ parts, part.term.todos = part.warnings.length) :
    todosInAll (parts.map Lowered.term) = (parts.flatMap Lowered.warnings).length := by
  induction parts with
  | nil => rfl
  | cons part parts ih =>
      rw [List.map_cons, todosInAll, List.flatMap_cons, List.length_append,
        balanced part List.mem_cons_self,
        ih fun other member => balanced other (List.mem_cons_of_mem _ member)]

theorem todosInFields_map {fields : List LoweredField}
    (balanced : ∀ field ∈ fields, field.term.todos = field.warnings.length) :
    todosInFields (fields.map fun field => (field.name, field.term)) =
      (fields.flatMap LoweredField.warnings).length := by
  induction fields with
  | nil => rfl
  | cons field fields ih =>
      rw [List.map_cons, todosInFields, List.flatMap_cons, List.length_append,
        balanced field List.mem_cons_self,
        ih fun other member => balanced other (List.mem_cons_of_mem _ member)]

/-- A lowered term holds one placeholder for every warning. -/
theorem Lowers.todos_eq_length {value : Json} {expected : Option Ty} {term : Term}
    {warnings : List Warning} (derived : Lowers value expected term warnings) :
    term.todos = warnings.length := by
  induction derived with
  | str | int | bool | reference => rfl
  | otherBinding | namelessRecord | otherOperator | otherKind => rfl
  | binding _ _ _ _ _ valueIH bodyIH =>
      rw [todos, valueIH, bodyIH, List.length_append]
  | sum _ _ _ leftIH rightIH => rw [todos, leftIH, rightIH, List.length_append]
  | record _ _ _ ih => rw [todos, todosInFields_map ih]
  | tuple _ _ _ ih => rw [todos, todosInAll_map ih]
  | choice _ _ _ _ conditionIH yesIH noIH =>
      rw [todos, conditionIH, yesIH, noIH, List.length_append, List.length_append]
  | negation _ _ ih => exact ih
  | membership _ _ _ setIH elementIH =>
      rw [List.length_append, ← setIH, ← elementIH]
      rfl
  | keys _ _ ih => exact ih
  | field _ _ _ ih => exact ih

/-- Lowering an expression leaves out no declaration. -/
theorem Lowers.isPlaceholder {value : Json} {expected : Option Ty} {term : Term}
    {warnings : List Warning} (derived : Lowers value expected term warnings) :
    ∀ warning ∈ warnings, warning.isPlaceholder := by
  induction derived with
  | str | int | bool | reference =>
      intro warning member
      cases member
  | otherBinding | namelessRecord | otherOperator | otherKind =>
      intro warning member
      rw [List.mem_singleton.mp member]
      rfl
  | binding _ _ _ _ _ firstIH secondIH | sum _ _ _ firstIH secondIH
  | membership _ _ _ firstIH secondIH =>
      intro warning member
      rcases List.mem_append.mp member with inside | inside
      · exact firstIH warning inside
      · exact secondIH warning inside
  | record _ _ _ ih | tuple _ _ _ ih =>
      intro warning member
      obtain ⟨part, inside, raised⟩ := List.mem_flatMap.mp member
      exact ih part inside warning raised
  | choice _ _ _ _ conditionIH yesIH noIH =>
      intro warning member
      rcases List.mem_append.mp member with inside | inside
      · exact conditionIH warning inside
      · rcases List.mem_append.mp inside with inside | inside
        · exact yesIH warning inside
        · exact noIH warning inside
  | negation _ _ ih | keys _ _ ih | field _ _ _ ih => exact ih

theorem Lowers.countP_isPlaceholder {value : Json} {expected : Option Ty} {term : Term}
    {warnings : List Warning} (derived : Lowers value expected term warnings) :
    warnings.countP Warning.isPlaceholder = term.todos := by
  rw [derived.todos_eq_length]
  exact List.countP_eq_length.mpr derived.isPlaceholder

theorem Lowers.countP_isOmission {value : Json} {expected : Option Ty} {term : Term}
    {warnings : List Warning} (derived : Lowers value expected term warnings) :
    warnings.countP Warning.isOmission = 0 := by
  apply List.countP_eq_zero.mpr
  intro warning member omission
  have placeholder := derived.isPlaceholder warning member
  cases warning with
  | unsupportedQualifier | unsupportedDeclKind | topLevelVal => cases placeholder
  | unsupportedExprKind | unsupportedOpcode | recordWithoutExpectedType
  | unsupportedLetBinding => cases omission

end Term

namespace Item

/-- A definition of a type becomes an item of its name. -/
theorem ofTypedef_eq_ok {node : Node} {item : Item} (defined : ofTypedef node = .ok item) :
    node.lookup "name" = some (.str item.name) ∧ item.todos = 0 ∧ item.boundValue? = none := by
  unfold ofTypedef at defined
  cases named : Node.string node "name" "typedef" with
  | error fault => rw [named] at defined; cases defined
  | ok name =>
      rw [named] at defined
      have nameField := Node.string_eq_ok.mp named
      cases found : Node.child node "type" ("typedef " ++ ticked name) with
      | error fault => simp only [found, bind, Except.bind] at defined; cases defined
      | ok descriptor =>
          cases typed : Ty.ofDescriptor descriptor.1 with
          | error fault =>
              simp only [found, typed, bind, Except.bind] at defined
              cases defined
          | ok ty =>
              simp only [found, typed, bind, Except.bind] at defined
              split at defined
              · cases defined
                exact ⟨nameField, rfl, rfl⟩
              · cases defined
                exact ⟨nameField, rfl, rfl⟩

theorem droppedValue?_of_lowers {declaration : Json} {item : Option Item}
    {warnings : List Warning} (derived : Lowers declaration item warnings) :
    droppedValue? declaration = item.bind boundValue? := by
  rw [droppedValue?, Lowering.runFresh, derived.yields #[]]

end Item

/-- The balance of declarations against the items they became and the warnings raised. -/
structure Accounts (declarations : List Json) (items : List Item) (warnings : List Warning) :
    Prop where
  counted : declarations.length =
    items.length + declarations.countP Item.isImport + warnings.countP Warning.isOmission
  named : items.map (fun item => some item.name) =
    (declarations.filter Item.isKept).map (Json.text? "name")
  marked : warnings.countP Warning.isPlaceholder =
    Item.todosInAll items + Term.todosInAll (declarations.filterMap Item.droppedValue?)

theorem Item.todosInAll_append (first second : List Item) :
    Item.todosInAll (first ++ second) = Item.todosInAll first + Item.todosInAll second := by
  induction first with
  | nil => exact (Nat.zero_add _).symm
  | cons item rest ih =>
      rw [List.cons_append, Item.todosInAll, Item.todosInAll, ih, Nat.add_assoc]

theorem Term.todosInAll_append (first second : List Term) :
    Term.todosInAll (first ++ second) = Term.todosInAll first + Term.todosInAll second := by
  induction first with
  | nil => exact (Nat.zero_add _).symm
  | cons term rest ih =>
      rw [List.cons_append, Term.todosInAll, Term.todosInAll, ih, Nat.add_assoc]

namespace Accounts

theorem nil : Accounts [] [] [] := ⟨rfl, rfl, rfl⟩

theorem append {first second : List Json} {firstItems secondItems : List Item}
    {before after : List Warning} (left : Accounts first firstItems before)
    (right : Accounts second secondItems after) :
    Accounts (first ++ second) (firstItems ++ secondItems) (before ++ after) where
  counted := by
    simp only [List.length_append, List.countP_append, left.counted, right.counted]
    omega
  named := by
    rw [List.map_append, List.filter_append, List.map_append, left.named, right.named]
  marked := by
    rw [List.countP_append, left.marked, right.marked, Item.todosInAll_append,
      List.filterMap_append, Term.todosInAll_append]
    omega

/-- A declaration that becomes an item is balanced, if it is neither an import nor a dropped value
and its warnings tell of the placeholders in the item alone. -/
theorem kept {declaration : Json} {item : Item} {warnings : List Warning}
    (isKept : Item.isKept declaration) (notImport : Item.isImport declaration = false)
    (notDropped : Item.droppedValue? declaration = none)
    (named : declaration.text? "name" = some item.name)
    (omissions : warnings.countP Warning.isOmission = 0)
    (placeholders : warnings.countP Warning.isPlaceholder = item.todos) :
    Accounts [declaration] [item] warnings where
  counted := by
    simp only [List.countP_cons, List.countP_nil, notImport, omissions, List.length_cons,
      List.length_nil, Bool.false_eq_true, ↓reduceIte]
  named := by
    rw [List.filter_cons_of_pos isKept, List.filter_nil, List.map_singleton, List.map_singleton,
      named]
  marked := by
    rw [placeholders, List.filterMap_cons_none notDropped]
    rfl

/-- A declaration that becomes no item is balanced, if it is an import or one warning tells of its
omission, and the other warnings tell of the placeholders in the value that is dropped. -/
theorem leftOut {declaration : Json} {warnings : List Warning}
    (notKept : Item.isKept declaration = false)
    (told : [declaration].countP Item.isImport + warnings.countP Warning.isOmission = 1)
    (placeholders : warnings.countP Warning.isPlaceholder =
      Term.todosInAll (Item.droppedValue? declaration).toList) :
    Accounts [declaration] [] warnings where
  counted := by
    rw [List.length_nil, Nat.zero_add, told]
    rfl
  named := by
    rw [List.filter_cons_of_neg (by rw [notKept]; exact Bool.false_ne_true)]
    rfl
  marked := by
    rw [placeholders, Item.todosInAll, Nat.zero_add]
    cases dropped : Item.droppedValue? declaration with
    | none => rw [List.filterMap_cons_none dropped]; rfl
    | some term => rw [List.filterMap_cons_some dropped]; rfl

end Accounts

namespace Item

theorem isImport_obj {node : Node} {kind : String}
    (kindField : node.lookup "kind" = some (.str kind)) :
    isImport (.obj node) = decide (kind = "import") := by
  rw [isImport, Json.text?_obj kindField]
  exact decide_eq_decide.mpr (Option.some_inj)

theorem isKept_obj {node : Node} {kind : String}
    (kindField : node.lookup "kind" = some (.str kind)) (other : kind ≠ "def") :
    isKept (.obj node) = decide (kind = "typedef") := by
  simp only [isKept, Json.text?_obj kindField, Option.some.injEq, other, false_and, or_false]

theorem isKept_definition {node : Node} {qualifier : String}
    (kindField : node.lookup "kind" = some (.str "def"))
    (qualifierField : node.lookup "qualifier" = some (.str qualifier)) :
    isKept (.obj node) = decide (qualifier = "pureval" ∨ qualifier = "puredef") := by
  simp [isKept, Json.text?_obj kindField, Json.text?_obj qualifierField]

/-- A definition keeps the balance, unless it is a value. -/
theorem Defines.accounts {node : Node} {item : Option Item} {warnings : List Warning}
    (kindField : node.lookup "kind" = some (.str "def")) (defined : Defines node item warnings)
    (noValue : item.bind boundValue? = none) :
    Accounts [.obj node] item.toList warnings := by
  have dropped := droppedValue?_of_lowers (.definition kindField defined)
  rw [noValue] at dropped
  have notImport : isImport (.obj node) = false := isImport_obj kindField
  cases defined with
  | constant nameField qualifierField _ _ _ lowered =>
      exact .kept (isKept_definition kindField qualifierField) notImport dropped
        (Json.text?_obj nameField) lowered.countP_isOmission lowered.countP_isPlaceholder
  | function nameField qualifierField _ lowered =>
      exact .kept (isKept_definition kindField qualifierField) notImport dropped
        (Json.text?_obj nameField) lowered.countP_isOmission lowered.countP_isPlaceholder
  | val => cases noValue
  | otherQualifier nameField qualifierField other =>
      refine .leftOut ?_ ?_ ?_
      · rw [isKept_definition kindField qualifierField, decide_eq_false_iff_not]
        rintro (rfl | rfl)
        · cases other
        · cases other
      · rw [List.countP_singleton, notImport]
        rfl
      · rw [dropped]
        rfl

/-- A value at the top level keeps the balance through the warning that tells of it. -/
theorem Defines.accounts_val {node : Node} {name : String} {value : Term}
    {warnings : List Warning} (kindField : node.lookup "kind" = some (.str "def"))
    (defined : Defines node (some (.val name value)) warnings) :
    Accounts [.obj node] [] (warnings ++ [.topLevelVal name]) := by
  have dropped := droppedValue?_of_lowers (.definition kindField defined)
  have notImport : isImport (.obj node) = false := isImport_obj kindField
  cases defined with
  | val nameField qualifierField _ lowered =>
      refine .leftOut (isKept_definition kindField qualifierField) ?_ ?_
      · rw [List.countP_singleton, notImport, List.countP_append, lowered.countP_isOmission]
        rfl
      · rw [dropped, List.countP_append, lowered.countP_isPlaceholder]
        rfl

end Item

namespace Module

/-- Lowering a declaration at the top level keeps the balance. -/
theorem lowerTopLevel_accounts {declaration : Json} {item : Option Item}
    {earlier log : Array Warning}
    (run : (lowerTopLevel declaration).runWith earlier = (.ok item, log)) :
    ∃ warnings, Accounts [declaration] item.toList warnings ∧
      log = earlier ++ warnings.toArray := by
  rw [lowerTopLevel] at run
  obtain ⟨lowered, between, lowering, run⟩ := Lowering.runWith_bind_eq_ok.mp run
  obtain ⟨warnings, derived, rfl⟩ := Item.lower_traced lowering
  split at run
  · next name value =>
      obtain ⟨rfl, rfl⟩ := Lowering.runWith_pure_eq_ok.mp run
      cases derived with
      | typedef kindField defined => cases (Item.ofTypedef_eq_ok defined).2.2
      | definition kindField defined =>
          exact ⟨_, defined.accounts_val kindField, Lowering.append_warnings earlier warnings [_]⟩
  · next notVal =>
      obtain ⟨rfl, rfl⟩ := Lowering.runWith_pure_eq_ok.mp run
      have noValue : item.bind Item.boundValue? = none := by
        rcases item with _ | item
        · rfl
        · cases item with
          | val name value => exact (notVal name value rfl).elim
          | _ => rfl
      refine ⟨warnings, ?_, rfl⟩
      have dropped := Item.droppedValue?_of_lowers derived
      rw [noValue] at dropped
      cases derived with
      | typedef kindField defined =>
          obtain ⟨nameField, noTodo, -⟩ := Item.ofTypedef_eq_ok defined
          exact .kept (Item.isKept_obj kindField (by decide)) (Item.isImport_obj kindField)
            dropped (Json.text?_obj nameField) rfl noTodo.symm
      | importing kindField =>
          refine .leftOut (Item.isKept_obj kindField (by decide)) ?_ ?_
          · rw [List.countP_singleton, Item.isImport_obj kindField]
            rfl
          · rw [dropped]
            rfl
      | definition kindField defined => exact defined.accounts kindField noValue
      | @otherKind node kind kindField other =>
          have notDefinition : kind ≠ "def" := by
            rintro rfl
            cases other
          have notTypedef : kind ≠ "typedef" := by
            rintro rfl
            cases other
          have notImport : kind ≠ "import" := by
            rintro rfl
            cases other
          refine .leftOut ?_ ?_ ?_
          · rw [Item.isKept_obj kindField notDefinition]
            exact decide_eq_false notTypedef
          · rw [List.countP_singleton, Item.isImport_obj kindField, decide_eq_false notImport]
            rfl
          · rw [dropped]
            rfl

theorem filterMap_id_cons (item : Option Item) (items : List (Option Item)) :
    (item :: items).filterMap id = item.toList ++ items.filterMap id := by
  cases item <;> rfl

/-- Lowering the declarations of a module keeps the balance. -/
theorem lower_accounts {part : Module} {items : List Item} {earlier log : Array Warning}
    (run : part.lower.runWith earlier = (.ok items, log)) :
    ∃ warnings, Accounts part.declarations items warnings ∧
      log = earlier ++ warnings.toArray := by
  rw [lower] at run
  obtain ⟨lowered, final, all, run⟩ := Lowering.runWith_bind_eq_ok.mp run
  obtain ⟨rfl, rfl⟩ := Lowering.runWith_pure_eq_ok.mp run
  refine Lowering.runWith_mapM (fun declarations items warnings =>
    Accounts declarations (items.filterMap id) warnings) .nil ?_ all
  intro declaration item earlier log rest items after step balanced
  obtain ⟨before, account, rfl⟩ := lowerTopLevel_accounts step
  refine ⟨before, rfl, ?_⟩
  rw [filterMap_id_cons]
  exact account.append balanced

end Module

/-- Lowering modules keeps the balance. -/
theorem Program.lowerModules_accounts {modules : List Module} {items : List Item}
    {earlier log : Array Warning}
    (run : (Program.lowerModules modules).runWith earlier = (.ok items, log)) :
    ∃ warnings, Accounts
      ((modules.filter fun part => !Module.isAuxiliaryName part.name).flatMap
        Module.declarations) items warnings ∧ log = earlier ++ warnings.toArray := by
  rw [Program.lowerModules] at run
  obtain ⟨lowered, final, all, run⟩ := Lowering.runWith_bind_eq_ok.mp run
  obtain ⟨rfl, rfl⟩ := Lowering.runWith_pure_eq_ok.mp run
  refine Lowering.runWith_mapM (fun modules items warnings =>
    Accounts (modules.flatMap Module.declarations) items.flatten warnings) .nil ?_ all
  intro part items earlier log rest others after step balanced
  obtain ⟨before, account, rfl⟩ := Module.lower_accounts step
  refine ⟨before, rfl, ?_⟩
  rw [List.flatMap_cons, List.flatten_cons]
  exact account.append balanced

/-- A lowered document accounts for its declarations. -/
theorem Document.lower_accounts {document : Document} {resolution : Resolution}
    (lowered : document.lower = .ok resolution) :
    Accounts document.declarations resolution.program.items resolution.warnings := by
  unfold Document.lower at lowered
  cases indexed : TypeNames.index document.types with
  | error fault => rw [indexed] at lowered; cases lowered
  | ok typeNames =>
      rw [indexed] at lowered
      rcases run : (Program.lowerModules document.modules).runFresh with ⟨fault | items, log⟩
      · simp only [run, bind, Except.bind] at lowered
        cases lowered
      · simp only [run, bind, Except.bind] at lowered
        cases lowered
        obtain ⟨warnings, account, rfl⟩ := Program.lowerModules_accounts run
        rw [Array.empty_append]
        exact account

theorem Item.todos_eq_zero {items : List Item} (none : Item.todosInAll items = 0) :
    ∀ item ∈ items, item.todos = 0 := by
  induction items with
  | nil =>
      intro item member
      cases member
  | cons first rest ih =>
      rw [Item.todosInAll] at none
      intro item member
      rcases List.mem_cons.mp member with rfl | inside
      · omega
      · exact ih (by omega) item inside

/-- When no declaration is told of, the kept ones are those that are no imports. -/
theorem Accounts.filter_isKept {declarations : List Json} {items : List Item}
    (account : Accounts declarations items []) :
    declarations.filter Item.isKept =
      declarations.filter fun declaration => !Item.isImport declaration := by
  have exclusive : ∀ declaration, Item.isKept declaration → !Item.isImport declaration := by
    intro declaration kept
    rw [Item.isKept, decide_eq_true_eq] at kept
    rcases kept with kind | ⟨kind, -⟩
    · simp only [Item.isImport, kind]
      decide
    · simp only [Item.isImport, kind]
      decide
  have both : declarations.filter Item.isKept =
      (declarations.filter fun declaration => !Item.isImport declaration).filter
        Item.isKept := by
    rw [List.filter_filter]
    apply List.filter_congr
    intro declaration _
    cases kept : Item.isKept declaration with
    | false => rfl
    | true => rw [exclusive declaration kept, Bool.and_self]
  have counted := account.counted
  have named := congrArg List.length account.named
  have split : declarations.length = declarations.countP Item.isImport +
      declarations.countP fun declaration => !Item.isImport declaration := by
    simpa only [decide_not, Bool.decide_eq_true] using
      List.length_eq_countP_add_countP Item.isImport
  rw [List.length_map, List.length_map] at named
  rw [List.countP_nil, Nat.add_zero] at counted
  rw [both] at named ⊢
  apply List.filter_sublist.eq_of_length
  rw [← named, ← List.countP_eq_length_filter]
  omega

/-- **No silent loss.** In a document that is lowered, every declaration becomes an item, is
an import or is told of in a warning; the items have the names of the kept declarations, in
order; and every placeholder, also in the values that are left out, is told of in a warning.
So without warnings nothing but imports is missing and there is no placeholder. The definition
of a value never becomes anything but a local binding, with no declaration left out in it. -/
theorem Document.lower_loses_nothing_silently {document : Document} {resolution : Resolution}
    (lowered : document.lower = .ok resolution) :
    (document.declarations.length = resolution.program.items.length +
        document.declarations.countP Item.isImport +
        resolution.warnings.countP Warning.isOmission) ∧
      (resolution.program.items.map (fun item => some item.name) =
        (document.declarations.filter Item.isKept).map (Json.text? "name")) ∧
      (resolution.warnings.countP Warning.isPlaceholder =
        Item.todosInAll resolution.program.items +
          Term.todosInAll (document.declarations.filterMap Item.droppedValue?)) ∧
      (resolution.warnings = [] →
        (∀ item ∈ resolution.program.items, item.todos = 0) ∧
        resolution.program.items.map (fun item => some item.name) =
          (document.declarations.filter fun declaration =>
            !Item.isImport declaration).map (Json.text? "name")) ∧
      (∀ (definition : Node) (item : Option Item) (earlier log : Array Warning),
        definition.lookup "qualifier" = some (.str "val") →
        (Item.lowerDefinition definition).runWith earlier = (.ok item, log) →
          ∃ (label : String) (value : Term) (warnings : List Warning),
            item = some (.val label value) ∧ log = earlier ++ warnings.toArray ∧
              ∀ warning ∈ warnings, warning.isPlaceholder) := by
  have account := Document.lower_accounts lowered
  refine ⟨account.counted, account.named, account.marked, ?_, ?_⟩
  · intro silent
    rw [silent] at account
    have noTodos := account.marked
    rw [List.countP_nil] at noTodos
    refine ⟨Item.todos_eq_zero (by omega), ?_⟩
    rw [account.named, account.filter_isKept]
  · intro definition item earlier log qualifierField run
    obtain ⟨label, value, term, -, -, rfl, valueRun⟩ :=
      Item.lowerDefinition_val qualifierField run
    obtain ⟨warnings, derived, rfl⟩ := Term.traced value valueRun
    exact ⟨label, term, warnings, rfl, rfl, derived.isPlaceholder⟩

/-- A document with a declaration of every kind, and a module of tests. -/
def Document.ledger : Document where
  types := []
  modules :=
    [⟨"bank",
        [.obj [("kind", .str "import")],
          .obj [("kind", .str "typedef"), ("name", .str "Amount"),
            ("type", .obj [("kind", .str "int")])],
          .obj [("expr", .obj [("args", .arr [.obj [("kind", .str "int"),
              ("value", .num (.int 1))], .obj [("kind", .str "lambda")]]),
              ("kind", .str "app"), ("opcode", .str "iadd")]),
            ("kind", .str "def"), ("name", .str "fee"), ("qualifier", .str "pureval"),
            ("typeAnnotation", .obj [("kind", .str "int")])],
          .obj [("expr", .obj [("args", .arr []), ("kind", .str "app"),
              ("opcode", .str "Rec")]),
            ("kind", .str "def"), ("name", .str "empty"), ("qualifier", .str "val")],
          .obj [("kind", .str "def"), ("name", .str "step"), ("qualifier", .str "action")],
          .obj [("kind", .str "assume")]]⟩,
      ⟨"bank_test", [.null]⟩]

/-- The ledger keeps two of its six declarations. It tells of three, and of the placeholders in
what it keeps and in the value it leaves out. -/
theorem Document.ledger_loses_nothing_silently :
    ∃ resolution, Document.ledger.lower = .ok resolution ∧
      resolution.program.items.map Item.name = ["Amount", "fee"] ∧
      (Document.ledger.declarations.length = resolution.program.items.length +
        Document.ledger.declarations.countP Item.isImport +
        resolution.warnings.countP Warning.isOmission) ∧
      resolution.warnings.countP Warning.isPlaceholder =
        Item.todosInAll resolution.program.items +
          Term.todosInAll (Document.ledger.declarations.filterMap Item.droppedValue?) := by
  have lowered : Document.ledger.lower = .ok
      { program := ⟨Program.fixedImports, [.synonym "Amount" .uint64,
          .const "fee" .uint64 (.add (.literal (.uint64 1)) .todo)]⟩
        typeNames := []
        warnings := [.unsupportedExprKind "lambda", .recordWithoutExpectedType,
          .topLevelVal "empty", .unsupportedQualifier "step" "action",
          .unsupportedDeclKind "assume"] } := by
    with_unfolding_all rfl
  obtain ⟨counted, -, marked, -, -⟩ := Document.lower_loses_nothing_silently lowered
  exact ⟨_, lowered, rfl, counted, marked⟩

end SpecTranspiler

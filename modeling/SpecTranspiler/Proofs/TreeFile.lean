import SpecTranspiler.Proofs.FileEffects
import SpecTranspiler.Proofs.PrintedJson
import SpecTranspiler.Proofs.Subterms

/-!
# The file of a tree loses nothing

A program is written as JSON with the members of objects in a fixed order, and read back from
values that list them by ascending key. `Program.restores` says that sorting the members gives
the program back; it follows the terms and types of the program, one case for every construct.
All numbers in the tree are naturals of 64 bits, so that its text is read back, too.
-/

namespace SpecTranspiler

namespace Ty

/-- The type is restored from its JSON, once that is sorted. -/
abbrev Restores (ty : Ty) : Prop :=
  ofJson? ty.toJson.sorted = some ty

theorem listOfJson?_sorted {types : List Ty} (each : ∀ ty ∈ types, ty.Restores) :
    listOfJson? (Json.sortedAll (listToJson types)) = some types := by
  induction types with
  | nil => rfl
  | cons ty rest ih =>
      obtain ⟨here, others⟩ := List.forall_mem_cons.mp each
      rw [listToJson, Json.sortedAll, listOfJson?, here, ih others]
      rfl

theorem fieldsOfJson?_sorted {fields : List (String × Ty)}
    (each : ∀ field ∈ fields, field.2.Restores) :
    fieldsOfJson? (Json.sortedAll (fieldsToJson fields)) = some fields := by
  induction fields with
  | nil => rfl
  | cons field rest ih =>
      obtain ⟨here, others⟩ := List.forall_mem_cons.mp each
      change (do
        let ty ← ofJson? field.2.toJson.sorted
        let rest ← fieldsOfJson? (Json.sortedAll (fieldsToJson rest))
        some ((field.1, ty) :: rest)) = _
      rw [here, ih others]
      rfl

/-- Every type is restored. -/
theorem restores (ty : Ty) : ty.Restores := by
  induction ty using partsInduction with
  | step ty ih =>
      cases ty with
      | str | uint64 | bool | named => rfl
      | record fields =>
          have each : ∀ field ∈ fields, field.2.Restores := List.forall_mem_map.mp ih
          change (fieldsOfJson? (Json.sortedAll (fieldsToJson fields))).map record = _
          rw [fieldsOfJson?_sorted each]
          rfl
      | tuple elements =>
          have each : ∀ element ∈ elements, element.Restores := ih
          change (listOfJson? (Json.sortedAll (listToJson elements))).map tuple = _
          rw [listOfJson?_sorted each]
          rfl
      | list element =>
          have inner : element.Restores := List.forall_mem_singleton.mp ih
          change (ofJson? element.toJson.sorted).map list = _
          rw [inner]
          rfl
      | set element =>
          have inner : element.Restores := List.forall_mem_singleton.mp ih
          change (ofJson? element.toJson.sorted).map set = _
          rw [inner]
          rfl
      | map key value =>
          obtain ⟨keyBack, rest⟩ := List.forall_mem_cons.mp ih
          have valueBack : value.Restores := List.forall_mem_singleton.mp rest
          change (do
            let key ← ofJson? key.toJson.sorted
            let value ← ofJson? value.toJson.sorted
            some (map key value)) = _
          rw [keyBack, valueBack]
          rfl
      | ref inner mutable =>
          have innerBack : inner.Restores := List.forall_mem_singleton.mp ih
          change (ofJson? inner.toJson.sorted).map (ref · mutable) = _
          rw [innerBack]
          rfl

end Ty

theorem Literal.restores (value : Literal) :
    Literal.ofJson? value.toJson.sorted = some value := by
  cases value with
  | uint64 value =>
      have small : (0 : Int) ≤ value.toNat ∧ (value.toNat : Int) < UInt64.size := by
        have bound := value.toNat_lt_size
        omega
      change ((Json.Number.int value.toNat).toUInt64?).map uint64 = _
      rw [Json.Number.toUInt64?, if_pos small, Int.toNat_natCast, UInt64.ofNat_toNat]
      rfl
  | str | bool => rfl

/-- The term is restored from its JSON, once that is sorted. -/
abbrev Term.Restores (term : Term) : Prop :=
  Term.ofJson? term.toJson.sorted = some term

theorem Term.listOfJson?_sorted {terms : List Term} (each : ∀ term ∈ terms, term.Restores) :
    Term.listOfJson? (Json.sortedAll (Term.listToJson terms)) = some terms := by
  induction terms with
  | nil => rfl
  | cons term rest ih =>
      obtain ⟨here, others⟩ := List.forall_mem_cons.mp each
      rw [Term.listToJson, Json.sortedAll, Term.listOfJson?, here, ih others]
      rfl

theorem Term.fieldsOfJson?_sorted {fields : List (String × Term)}
    (each : ∀ field ∈ fields, field.2.Restores) :
    Term.fieldsOfJson? (Json.sortedAll (Term.fieldsToJson fields)) = some fields := by
  induction fields with
  | nil => rfl
  | cons field rest ih =>
      obtain ⟨here, others⟩ := List.forall_mem_cons.mp each
      change (do
        let value ← Term.ofJson? field.2.toJson.sorted
        let rest ← Term.fieldsOfJson? (Json.sortedAll (Term.fieldsToJson rest))
        some ((field.1, value) :: rest)) = _
      rw [here, ih others]
      rfl

/-- A statement is restored from its tree if its terms are. -/
theorem Stmt.restores {stmt : Stmt} (each : ∀ part ∈ stmt.parts, part.Restores) :
    Stmt.ofJson? stmt.toJson.sorted = some stmt := by
  cases stmt with
  | assign target value =>
      obtain ⟨targetBack, rest⟩ := List.forall_mem_cons.mp each
      have valueBack : value.Restores := List.forall_mem_singleton.mp rest
      change (do
        let target ← Term.ofJson? target.toJson.sorted
        let value ← Term.ofJson? value.toJson.sorted
        some (assign target value)) = _
      rw [targetBack, valueBack]
      rfl
  | ret value =>
      have valueBack : value.Restores := List.forall_mem_singleton.mp each
      change (Term.ofJson? value.toJson.sorted).map ret = _
      rw [valueBack]
      rfl

theorem Stmt.listOfJson?_sorted {body : List Stmt}
    (each : ∀ stmt ∈ body, ∀ part ∈ stmt.parts, part.Restores) :
    Stmt.listOfJson? (Json.sortedAll (Stmt.listToJson body)) = some body := by
  induction body with
  | nil => rfl
  | cons stmt rest ih =>
      obtain ⟨here, others⟩ := List.forall_mem_cons.mp each
      rw [Stmt.listToJson, Json.sortedAll, Stmt.listOfJson?, Stmt.restores here, ih others]
      rfl

namespace Term

/-- Every term is restored. -/
theorem restores (term : Term) : term.Restores := by
  induction term using partsInduction with
  | step term ih =>
      cases term with
      | name | todo => rfl
      | literal value =>
          change (Literal.ofJson? value.toJson.sorted).map literal = _
          rw [value.restores]
          rfl
      | field base label =>
          have inner : base.Restores := List.forall_mem_singleton.mp ih
          change (ofJson? base.toJson.sorted).map (field · label) = _
          rw [inner]
          rfl
      | record name fields =>
          have each : ∀ field ∈ fields, field.2.Restores := List.forall_mem_map.mp ih
          change (fieldsOfJson? (Json.sortedAll (fieldsToJson fields))).map (record name) = _
          rw [fieldsOfJson?_sorted each]
          rfl
      | variant enum label args =>
          have each : ∀ arg ∈ args, arg.Restores := ih
          change (listOfJson? (Json.sortedAll (listToJson args))).map (variant enum label) = _
          rw [listOfJson?_sorted each]
          rfl
      | tuple elements =>
          have each : ∀ element ∈ elements, element.Restores := ih
          change (listOfJson? (Json.sortedAll (listToJson elements))).map tuple = _
          rw [listOfJson?_sorted each]
          rfl
      | borrow operand =>
          have inner : operand.Restores := List.forall_mem_singleton.mp ih
          change (ofJson? operand.toJson.sorted).map borrow = _
          rw [inner]
          rfl
      | negate operand =>
          have inner : operand.Restores := List.forall_mem_singleton.mp ih
          change (ofJson? operand.toJson.sorted).map negate = _
          rw [inner]
          rfl
      | call function types args =>
          have each : ∀ arg ∈ args, arg.Restores := ih
          change (do
            let types ← Ty.listOfJson? (Json.sortedAll (Ty.listToJson types))
            let args ← listOfJson? (Json.sortedAll (listToJson args))
            some (call function types args)) = _
          rw [Ty.listOfJson?_sorted fun ty _ => ty.restores, listOfJson?_sorted each]
          rfl
      | typeCall ty method types args =>
          have each : ∀ arg ∈ args, arg.Restores := ih
          change (do
            let ty ← Ty.ofJson? ty.toJson.sorted
            let types ← Ty.listOfJson? (Json.sortedAll (Ty.listToJson types))
            let args ← listOfJson? (Json.sortedAll (listToJson args))
            some (typeCall ty method types args)) = _
          rw [ty.restores, Ty.listOfJson?_sorted fun ty _ => ty.restores,
            listOfJson?_sorted each]
          rfl
      | methodCall receiver method types args =>
          obtain ⟨receiverBack, each⟩ := List.forall_mem_cons.mp ih
          change (do
            let receiver ← ofJson? receiver.toJson.sorted
            let types ← Ty.listOfJson? (Json.sortedAll (Ty.listToJson types))
            let args ← listOfJson? (Json.sortedAll (listToJson args))
            some (methodCall receiver method types args)) = _
          rw [receiverBack, Ty.listOfJson?_sorted fun ty _ => ty.restores,
            listOfJson?_sorted each]
          rfl
      | ifElse condition yes no =>
          obtain ⟨conditionBack, rest⟩ := List.forall_mem_cons.mp ih
          obtain ⟨yesBack, rest⟩ := List.forall_mem_cons.mp rest
          have noBack : no.Restores := List.forall_mem_singleton.mp rest
          change (do
            let condition ← ofJson? condition.toJson.sorted
            let yes ← ofJson? yes.toJson.sorted
            let no ← ofJson? no.toJson.sorted
            some (ifElse condition yes no)) = _
          rw [conditionBack, yesBack, noBack]
          rfl
      | add left right =>
          obtain ⟨leftBack, rest⟩ := List.forall_mem_cons.mp ih
          have rightBack : right.Restores := List.forall_mem_singleton.mp rest
          change (do
            let left ← ofJson? left.toJson.sorted
            let right ← ofJson? right.toJson.sorted
            some (add left right)) = _
          rw [leftBack, rightBack]
          rfl
      | bind name value body =>
          obtain ⟨valueBack, rest⟩ := List.forall_mem_cons.mp ih
          have bodyBack : body.Restores := List.forall_mem_singleton.mp rest
          change (do
            let value ← ofJson? value.toJson.sorted
            let body ← ofJson? body.toJson.sorted
            some (bind name value body)) = _
          rw [valueBack, bodyBack]
          rfl
      | block body =>
          have each : ∀ stmt ∈ body, ∀ part ∈ stmt.parts, part.Restores :=
            fun stmt member part held => ih part (List.mem_flatMap.mpr ⟨stmt, member, held⟩)
          change (Stmt.listOfJson? (Json.sortedAll (Stmt.listToJson body))).map block = _
          rw [Stmt.listOfJson?_sorted each]
          rfl

end Term

theorem Json.stringsOf?_sorted (texts : List String) :
    (Json.ofStrings texts).sorted.stringsOf? = some texts := by
  rw [ofStrings, sorted, stringsOf?]
  induction texts with
  | nil => rfl
  | cons text rest ih =>
      rw [List.map_cons, sortedAll, List.mapM_cons, ih]
      rfl

/-- A list is restored element by element. -/
theorem Json.mapM_sorted {α : Type} {write : α → Json} {read : Json → Option α}
    (back : ∀ a, read (write a).sorted = some a) (list : List α) :
    (sortedAll (list.map write)).mapM read = some list := by
  induction list with
  | nil => rfl
  | cons a rest ih =>
      rw [List.map_cons, sortedAll, List.mapM_cons, back, ih]
      rfl

theorem Param.restores (param : Param) : Param.ofJson? param.toJson.sorted = some param := by
  change (Ty.ofJson? param.ty.toJson.sorted).map (fun ty => mk param.name ty param.mutable) = _
  rw [param.ty.restores]
  rfl

/-- Every item is restored. -/
theorem Item.restores (item : Item) : Item.ofJson? item.toJson.sorted = some item := by
  cases item with
  | struct name fields attributes =>
      change (do
        let fields ← Ty.fieldsOfJson? (Json.sortedAll (Ty.fieldsToJson fields))
        let attributes ← (Json.ofStrings attributes).sorted.stringsOf?
        some (struct name fields attributes)) = _
      rw [Ty.fieldsOfJson?_sorted fun field _ => field.2.restores, Json.stringsOf?_sorted]
      rfl
  | function name params result body attributes =>
      change (do
        let params ← (Json.sortedAll (params.map Param.toJson)).mapM Param.ofJson?
        let result ← Ty.ofJson? result.toJson.sorted
        let body ← Stmt.listOfJson? (Json.sortedAll (Stmt.listToJson body))
        let attributes ← (Json.ofStrings attributes).sorted.stringsOf?
        some (function name params result body attributes)) = _
      rw [Json.mapM_sorted Param.restores, result.restores,
        Stmt.listOfJson?_sorted fun _ _ part _ => part.restores, Json.stringsOf?_sorted]
      rfl
  | const name ty value =>
      change (do
        let ty ← Ty.ofJson? ty.toJson.sorted
        let value ← Term.ofJson? value.toJson.sorted
        some (const name ty value)) = _
      rw [ty.restores, value.restores]
      rfl
  | val name value =>
      change (Term.ofJson? value.toJson.sorted).map (val name) = _
      rw [value.restores]
      rfl
  | synonym name ty =>
      change (Ty.ofJson? ty.toJson.sorted).map (synonym name) = _
      rw [ty.restores]
      rfl

/-- Every program is restored. -/
theorem Program.restores (program : Program) :
    Program.ofJson? program.toJson.sorted = some program := by
  have paths : ∀ path, importOfJson? (importToJson path).sorted = some path := fun _ => rfl
  change (do
    let imports ← (Json.sortedAll (program.imports.map importToJson)).mapM importOfJson?
    let items ← (Json.sortedAll (program.items.map Item.toJson)).mapM Item.ofJson?
    some (mk imports items)) = _
  rw [Json.mapM_sorted paths, Json.mapM_sorted Item.restores]
  rfl

namespace Json.HasNaturals

theorem element {value : Json} {elements : List Json} (here : value.HasNaturals)
    (others : HasNaturals (.arr elements)) : HasNaturals (.arr (value :: elements)) := by
  cases others with
  | arr each => exact .arr (List.forall_mem_cons.mpr ⟨here, each⟩)

theorem member {key : String} {value : Json} {members : List (String × Json)}
    (here : value.HasNaturals) (others : HasNaturals (.obj members)) :
    HasNaturals (.obj ((key, value) :: members)) := by
  cases others with
  | obj each => exact .obj (List.forall_mem_cons.mpr ⟨here, each⟩)

theorem noElements : HasNaturals (.arr []) := .arr nofun

theorem noMembers : HasNaturals (.obj []) := .obj nofun

theorem tagged {tag : String} {parts : Json} (inner : parts.HasNaturals) :
    (Json.tagged tag parts).HasNaturals :=
  .member inner .noMembers

theorem ofList {α : Type} {write : α → Json} (each : ∀ a, (write a).HasNaturals)
    (list : List α) : HasNaturals (.arr (list.map write)) :=
  .arr (List.forall_mem_map.mpr fun a _ => each a)

end Json.HasNaturals

open Json (HasNaturals)

namespace Ty

theorem hasNaturals_listToJson {types : List Ty}
    (each : ∀ ty ∈ types, ty.toJson.HasNaturals) : HasNaturals (.arr (listToJson types)) := by
  induction types with
  | nil => exact .noElements
  | cons ty rest ih =>
      obtain ⟨here, others⟩ := List.forall_mem_cons.mp each
      exact .element here (ih others)

theorem hasNaturals_fieldsToJson {fields : List (String × Ty)}
    (each : ∀ field ∈ fields, field.2.toJson.HasNaturals) :
    HasNaturals (.arr (fieldsToJson fields)) := by
  induction fields with
  | nil => exact .noElements
  | cons field rest ih =>
      obtain ⟨here, others⟩ := List.forall_mem_cons.mp each
      exact .element (.member (.str _) (.member here .noMembers)) (ih others)

/-- The tree of a type holds no numbers other than naturals. -/
theorem hasNaturals_toJson (ty : Ty) : ty.toJson.HasNaturals := by
  induction ty using partsInduction with
  | step ty ih =>
      cases ty with
      | str | uint64 | bool => exact .str _
      | named name => exact .tagged (.str name)
      | record fields =>
          have each : ∀ field ∈ fields, field.2.toJson.HasNaturals :=
            fun field member => ih field.2 (List.mem_map_of_mem member)
          exact .tagged (hasNaturals_fieldsToJson each)
      | tuple elements => exact .tagged (hasNaturals_listToJson ih)
      | list element | set element => exact .tagged (ih element (.head _))
      | map key value =>
          have second := ih value (.tail _ (.head _))
          exact .tagged (.element (ih key (.head _)) (.element second .noElements))
      | ref inner mutable =>
          exact .tagged (.member (ih inner (.head _)) (.member (.bool mutable) .noMembers))

end Ty

theorem Literal.hasNaturals_toJson (value : Literal) : value.toJson.HasNaturals := by
  cases value with
  | uint64 value => exact .tagged (.natural value.toNat_lt_size)
  | str value => exact .tagged (.str value)
  | bool value => exact .tagged (.bool value)

theorem Term.hasNaturals_listToJson {terms : List Term}
    (each : ∀ term ∈ terms, term.toJson.HasNaturals) :
    HasNaturals (.arr (Term.listToJson terms)) := by
  induction terms with
  | nil => exact .noElements
  | cons term rest ih =>
      obtain ⟨here, others⟩ := List.forall_mem_cons.mp each
      exact .element here (ih others)

theorem Term.hasNaturals_fieldsToJson {fields : List (String × Term)}
    (each : ∀ field ∈ fields, field.2.toJson.HasNaturals) :
    HasNaturals (.arr (Term.fieldsToJson fields)) := by
  induction fields with
  | nil => exact .noElements
  | cons field rest ih =>
      obtain ⟨here, others⟩ := List.forall_mem_cons.mp each
      exact .element (.member (.str _) (.member here .noMembers)) (ih others)

theorem Stmt.hasNaturals_toJson {stmt : Stmt}
    (each : ∀ part ∈ stmt.parts, part.toJson.HasNaturals) : stmt.toJson.HasNaturals := by
  cases stmt with
  | assign target value =>
      have second := each value (.tail _ (.head _))
      exact .tagged (.member (each target (.head _)) (.member second .noMembers))
  | ret value => exact .tagged (each value (.head _))

theorem Stmt.hasNaturals_listToJson {body : List Stmt}
    (each : ∀ stmt ∈ body, ∀ part ∈ stmt.parts, part.toJson.HasNaturals) :
    HasNaturals (.arr (Stmt.listToJson body)) := by
  induction body with
  | nil => exact .noElements
  | cons stmt rest ih =>
      obtain ⟨here, others⟩ := List.forall_mem_cons.mp each
      exact .element (Stmt.hasNaturals_toJson here) (ih others)

namespace Term

/-- The tree of a term holds no numbers other than naturals, which are its integer literals. -/
theorem hasNaturals_toJson (term : Term) : term.toJson.HasNaturals := by
  induction term using partsInduction with
  | step term ih =>
      have types (list : List Ty) : HasNaturals (.arr (Ty.listToJson list)) :=
        Ty.hasNaturals_listToJson fun ty _ => ty.hasNaturals_toJson
      cases term with
      | todo => exact .str _
      | literal value => exact .tagged value.hasNaturals_toJson
      | name name => exact .tagged (.str name)
      | field base label =>
          exact .tagged (.member (ih base (.head _)) (.member (.str label) .noMembers))
      | record name fields =>
          have each : ∀ field ∈ fields, field.2.toJson.HasNaturals :=
            fun field member => ih field.2 (List.mem_map_of_mem member)
          exact .tagged (.member (.str name) (.member (hasNaturals_fieldsToJson each) .noMembers))
      | variant enum label args =>
          exact .tagged (.member (.str enum) (.member (.str label)
            (.member (hasNaturals_listToJson ih) .noMembers)))
      | tuple elements => exact .tagged (hasNaturals_listToJson ih)
      | borrow operand | negate operand => exact .tagged (ih operand (.head _))
      | call function list args =>
          exact .tagged (.member (.str function) (.member (types list)
            (.member (hasNaturals_listToJson ih) .noMembers)))
      | typeCall ty method list args =>
          exact .tagged (.member ty.hasNaturals_toJson (.member (.str method)
            (.member (types list) (.member (hasNaturals_listToJson ih) .noMembers))))
      | methodCall receiver method list args =>
          obtain ⟨receiverHas, each⟩ := List.forall_mem_cons.mp ih
          exact .tagged (.member receiverHas (.member (.str method)
            (.member (types list) (.member (hasNaturals_listToJson each) .noMembers))))
      | ifElse condition yes no =>
          have second := ih yes (.tail _ (.head _))
          have third := ih no (.tail _ (.tail _ (.head _)))
          exact .tagged (.member (ih condition (.head _)) (.member second
            (.member third .noMembers)))
      | add left right =>
          have second := ih right (.tail _ (.head _))
          exact .tagged (.element (ih left (.head _)) (.element second .noElements))
      | bind name value body =>
          have second := ih body (.tail _ (.head _))
          exact .tagged (.member (.str name) (.member (ih value (.head _))
            (.member second .noMembers)))
      | block body =>
          refine .tagged (Stmt.hasNaturals_listToJson fun stmt member part held => ?_)
          exact ih part (List.mem_flatMap.mpr ⟨stmt, member, held⟩)

end Term

/-- The tree of an item holds no numbers other than naturals. -/
theorem Item.hasNaturals_toJson (item : Item) : item.toJson.HasNaturals := by
  have strings (texts : List String) : (Json.ofStrings texts).HasNaturals := .ofList .str texts
  cases item with
  | struct name fields attributes =>
      have each := Ty.hasNaturals_fieldsToJson fun (field : String × Ty) (_ : field ∈ fields) =>
        field.2.hasNaturals_toJson
      exact .tagged (.member (.str name) (.member each (.member (strings attributes) .noMembers)))
  | function name params result body attributes =>
      have each := HasNaturals.ofList (fun param : Param => (.member (.str param.name)
        (.member param.ty.hasNaturals_toJson (.member (.bool param.mutable) .noMembers)) :
          param.toJson.HasNaturals)) params
      have bodyHas : HasNaturals (.arr (Stmt.listToJson body)) :=
        Stmt.hasNaturals_listToJson fun _ _ part _ => part.hasNaturals_toJson
      exact .tagged (.member (.str name) (.member each (.member result.hasNaturals_toJson
        (.member bodyHas (.member (strings attributes) .noMembers)))))
  | const name ty value =>
      exact .tagged (.member (.str name) (.member ty.hasNaturals_toJson
        (.member value.hasNaturals_toJson .noMembers)))
  | val name value =>
      exact .tagged (.member (.str name) (.member value.hasNaturals_toJson .noMembers))
  | synonym name ty =>
      exact .tagged (.member (.str name) (.member ty.hasNaturals_toJson .noMembers))

theorem Program.hasNaturals_toJson (program : Program) : program.toJson.HasNaturals := by
  have path (text : String) : (importToJson text).HasNaturals := .member (.str text) .noMembers
  exact .member (.ofList path program.imports)
    (.member (.ofList Item.hasNaturals_toJson program.items) .noMembers)

theorem fromUTF8?_toUTF8 (text : String) : String.fromUTF8? text.toUTF8 = some text := by
  rw [String.fromUTF8?, String.toUTF8_eq_toByteArray, dif_pos text.isValidUTF8]
  rfl

namespace Options

/-- Writing a result leaves the text of the tree in its place, whether or not the output can be
written after it. -/
theorem writeResult_tree {options : Options} (asked : options.emitTree = true)
    {files : FileSystem} {place : List String}
    (writable : files.WritableAt (options.output ++ ".ast.json") place) (program : Program)
    (lines : List String) :
    ((options.writeResult program lines : StateM FileSystem Report).run files).2.get? place =
      some (.file (treeText program).toUTF8) := by
  have inside := FileSystem.ne_nil_of_noDirectory writable.noDirectory
  have written : files.write options.treePath (treeText program).toUTF8 =
      .ok (files.put place (.file (treeText program).toUTF8)) :=
    FileSystem.write_eq_ok.mpr ⟨place, writable, rfl⟩
  rw [writeResult, if_pos asked, StateT.run_bind, writeFile_run, written]
  change ((options.writeProgram program _ : StateM FileSystem Report).run _).2.get? place = _
  rw [writeProgram, StateT.run_bind, writeFile_run]
  rcases output : (files.put place (.file (treeText program).toUTF8)).write options.output
    (programText program).toUTF8 with error | after
  · change (files.put place _).get? place = _
    rw [FileSystem.get?_put _ inside, if_pos rfl]
  · obtain ⟨outputPlace, writableToo, rfl⟩ := FileSystem.write_eq_ok.mp output
    obtain ⟨other, leads, distinct⟩ :=
      FileSystem.place?_append (by decide) (by decide) writable.leads
    have found := (FileSystem.writableAt_put writable.noDirectory).mp writableToo
    obtain rfl := Option.some.inj (leads.symm.trans found.leads)
    change ((files.put place _).put other _).get? place = _
    rw [FileSystem.get?_put _ (FileSystem.ne_nil_of_noDirectory writableToo.noDirectory),
      if_neg distinct.symm, FileSystem.get?_put _ inside, if_pos rfl]

/-- The text of a tree is read back, with room for its brackets and blanks behind it. -/
theorem parseWithin_treeText (program : Program) {depth : Nat}
    (deep : program.toJson.nesting ≤ depth) {blanks : String}
    (blank : Json.AreBlank blanks.toList) :
    Json.parseWithin depth (program.toJson.pretty 0 ++ blanks) = .ok program.toJson.sorted :=
  (program.hasNaturals_toJson.printsValue_pretty deep 0).parseWithin blank

/-- **The file of a tree loses nothing.** Where the tree of a program is asked for and can be
written, its file is one JSON text with a newline after it. Read with room for its brackets, the
text holds a value from which the program is read back, whatever program it is. So different
programs have different files. -/
theorem tree_loses_nothing :
    (∀ program : Program, ∃ (text : String) (value : Json),
      treeText program = text ++ "\n" ∧
      (∀ (options : Options) (files : FileSystem) (place lines : List String),
        options.emitTree = true → files.WritableAt (options.output ++ ".ast.json") place →
        ∃ bytes, String.fromUTF8? bytes = some (text ++ "\n") ∧
          ((options.writeResult program lines : StateM FileSystem Report).run files).2.get? place =
            some (.file bytes)) ∧
      (∀ depth, program.toJson.nesting ≤ depth →
        Json.parseWithin depth text = .ok value ∧
          Json.parseWithin depth (text ++ "\n") = .ok value) ∧
      Program.ofJson? value = some program) ∧
    Function.Injective fun program => (treeText program).toUTF8 := by
  have newline : Json.AreBlank "\n".toList := List.forall_mem_singleton.mpr rfl
  refine ⟨fun program => ?_, fun first second same => ?_⟩
  · refine ⟨program.toJson.pretty 0, program.toJson.sorted, rfl, ?_, ?_, program.restores⟩
    · intro options files place lines asked writable
      exact ⟨_, fromUTF8?_toUTF8 _, writeResult_tree asked writable program lines⟩
    · intro depth deep
      have noBlanks : Json.AreBlank "".toList := nofun
      have alone := parseWithin_treeText program deep noBlanks
      rw [String.append_empty] at alone
      exact ⟨alone, parseWithin_treeText program deep newline⟩
  · -- Both texts are read with room for either, and give the same value.
    have texts : treeText first = treeText second := String.toByteArray_inj.mp same
    have left := parseWithin_treeText first (Nat.le_max_left _ second.toJson.nesting) newline
    have right := parseWithin_treeText second (Nat.le_max_right first.toJson.nesting _) newline
    have sorted : first.toJson.sorted = second.toJson.sorted := by
      rw [← treeText, texts, treeText, right] at left
      exact (Except.ok.inj left).symm
    have back := first.restores
    rw [sorted, second.restores] at back
    exact (Option.some.inj back).symm

/-- A program with the greatest number, and a text that must be escaped. -/
def sampleTree : Program where
  imports := ["std::é"]
  items :=
    [.const "limit" .uint64 (.literal (.uint64 18446744073709551615)),
      .val "note" (.literal (.str "\"\\\n\x01\u2028"))]

/-- The sample is read back from the file that is written for it. -/
theorem sampleTree_loses_nothing :
    ∃ text value bytes, treeText sampleTree = text ++ "\n" ∧
      ((writeResult ⟨"ir", "out", false, false, false, true⟩ sampleTree [] :
        StateM FileSystem Report).run ⟨[]⟩).2.get? ["out.ast.json"] = some (.file bytes) ∧
      String.fromUTF8? bytes = some (text ++ "\n") ∧
      Json.parseWithin sampleTree.toJson.nesting text = .ok value ∧
      Program.ofJson? value = some sampleTree := by
  obtain ⟨text, value, whole, written, read, back⟩ := tree_loses_nothing.1 sampleTree
  have writable : (FileSystem.mk []).WritableAt "out.ast.json" ["out.ast.json"] :=
    ⟨rfl, by rintro ⟨⟩, by decide⟩
  obtain ⟨bytes, isText, held⟩ :=
    written ⟨"ir", "out", false, false, false, true⟩ ⟨[]⟩ _ [] rfl writable
  exact ⟨text, value, bytes, whole, held, isText, (read _ (Nat.le_refl _)).1, back⟩

end Options

end SpecTranspiler

import SpecTranspiler.Proofs.Accounting
import SpecTranspiler.Proofs.History

/-!
# A document is the list of its declarations

Modules only group declarations. Lowering a document adds one declaration after the other to
the items and warnings had so far, and every declaration is lowered on a log of its own. So
neither the grouping nor the modules that are left out show in the result, documents can be
lowered in parts, and the type table is no more than checked on the way.
-/

namespace SpecTranspiler

/-- A result is mapped, and so is a result on an empty log. -/
theorem Lowering.runFresh_map {α β : Type} (f : α → β) (action : Lowering α) :
    (action >>= fun a => pure (f a)).runFresh = (action.runFresh.1.map f, action.runFresh.2) := by
  rw [runFresh_bind fun a => .pure (f a)]
  rcases action.runFresh with ⟨fault | a, log⟩
  · rfl
  · change (Except.ok (f a), log ++ #[]) = _
    rw [Array.append_empty]
    rfl

/-- What the declarations lowered so far gave. -/
structure Progress where
  items : List Item
  warnings : List Warning

namespace Progress

/-- Nothing was lowered yet. -/
def start : Progress := ⟨[], []⟩

/-- What two runs of declarations gave, one after the other. -/
def append (first second : Progress) : Progress :=
  ⟨first.items ++ second.items, first.warnings ++ second.warnings⟩

/-- What a run on an empty log gave. -/
def ofRun : Except Fault (List Item) × Array Warning → Except Fault Progress
  | (.ok items, log) => .ok ⟨items, log.toList⟩
  | (.error fault, _) => .error fault

/-- Lower one more declaration, on a log of its own. -/
def add (progress : Progress) (declaration : Json) : Except Fault Progress :=
  match (Module.lowerTopLevel declaration).runFresh with
  | (.ok item, log) =>
      .ok ⟨progress.items ++ item.toList, progress.warnings ++ log.toList⟩
  | (.error fault, _) => .error fault

/-- Lower declarations one after the other. -/
def ofDeclarations (declarations : List Json) : Except Fault Progress :=
  declarations.foldlM add start

theorem append_start (progress : Progress) : progress.append start = progress := by
  rw [append, start, List.append_nil, List.append_nil]

theorem append_assoc (first second third : Progress) :
    (first.append second).append third = first.append (second.append third) := by
  simp only [append, List.append_assoc]

/-- What was had before has no influence on what a declaration gives. -/
theorem add_eq_map (progress : Progress) (declaration : Json) :
    progress.add declaration = (start.add declaration).map progress.append := by
  unfold add
  rcases (Module.lowerTopLevel declaration).runFresh with ⟨fault | item, log⟩ <;> rfl

/-- What was had before has no influence on what declarations give. -/
theorem foldlM_add (declarations : List Json) (progress : Progress) :
    declarations.foldlM add progress =
      (ofDeclarations declarations).map progress.append := by
  induction declarations generalizing progress with
  | nil => exact congrArg Except.ok progress.append_start.symm
  | cons declaration rest ih =>
      rw [ofDeclarations, List.foldlM_cons, List.foldlM_cons, add_eq_map]
      rcases start.add declaration with fault | added
      · rfl
      · change rest.foldlM add (progress.append added) =
          Except.map progress.append (rest.foldlM add added)
        rw [ih, ih added]
        rcases ofDeclarations rest with fault | final
        · rfl
        · exact congrArg Except.ok (append_assoc progress added final)

/-- The declarations of two lists are those of the first and then those of the second, and
the first fault counts. -/
theorem ofDeclarations_append (before after : List Json) :
    ofDeclarations (before ++ after) = do
      return (← ofDeclarations before).append (← ofDeclarations after) := by
  rw [ofDeclarations, List.foldlM_append]
  refine congrArg (ofDeclarations before >>= ·) ?_
  funext progress
  rw [foldlM_add]
  rcases ofDeclarations after with fault | final <;> rfl

end Progress

namespace Module

/-- Lower declarations at the top level. -/
def lowerDeclarations (declarations : List Json) : Lowering (List Item) := do
  let items ← declarations.mapM lowerTopLevel
  return items.filterMap id

theorem lowerTopLevel_ignoresLog (declaration : Json) :
    (lowerTopLevel declaration).IgnoresLog := by
  rw [lowerTopLevel]
  refine .bind (Item.lower_ignoresLog declaration) fun item => ?_
  split
  · exact .map _ (.warn _)
  · exact .pure _

theorem lowerDeclarations_nil : lowerDeclarations [] = pure [] := by
  rw [lowerDeclarations, List.mapM_nil, pure_bind]
  rfl

theorem lowerDeclarations_cons (declaration : Json) (rest : List Json) :
    lowerDeclarations (declaration :: rest) = do
      let item ← lowerTopLevel declaration
      return item.toList ++ (← lowerDeclarations rest) := by
  simp only [lowerDeclarations, List.mapM_cons, bind_assoc, pure_bind, filterMap_id_cons]

theorem lowerDeclarations_append (before after : List Json) :
    lowerDeclarations (before ++ after) = do
      return (← lowerDeclarations before) ++ (← lowerDeclarations after) := by
  simp only [lowerDeclarations, List.mapM_append, bind_assoc, pure_bind, List.filterMap_append]

theorem lowerDeclarations_ignoresLog (declarations : List Json) :
    (lowerDeclarations declarations).IgnoresLog := by
  induction declarations with
  | nil => exact lowerDeclarations_nil ▸ .pure []
  | cons declaration rest ih =>
      rw [lowerDeclarations_cons]
      exact .bind (lowerTopLevel_ignoresLog declaration) fun item => .map _ ih

/-- One run over declarations gives what lowering each of them on a log of its own does. -/
theorem ofRun_lowerDeclarations (declarations : List Json) :
    Progress.ofRun (lowerDeclarations declarations).runFresh =
      Progress.ofDeclarations declarations := by
  induction declarations with
  | nil => rw [lowerDeclarations_nil]; rfl
  | cons declaration rest ih =>
      have later (item : Option Item) :
          (do return item.toList ++ (← lowerDeclarations rest) : Lowering _).IgnoresLog :=
        .map _ (lowerDeclarations_ignoresLog rest)
      rw [lowerDeclarations_cons, Lowering.runFresh_bind later, Progress.ofDeclarations,
        List.foldlM_cons, Progress.add]
      rcases (lowerTopLevel declaration).runFresh with ⟨fault | item, log⟩
      · rfl
      · change _ = rest.foldlM Progress.add ⟨item.toList, log.toList⟩
        rw [Progress.foldlM_add, ← ih]
        dsimp only
        rw [Lowering.runFresh_map]
        rcases (lowerDeclarations rest).runFresh with ⟨fault | items, after⟩
        · rfl
        · change Except.ok (Progress.mk _ (log ++ after).toList) = _
          rw [Array.toList_append]
          rfl

end Module

/-- Lowering modules is lowering the declarations of those that are not left out. -/
theorem Program.lowerModules_eq (modules : List Module) :
    Program.lowerModules modules = Module.lowerDeclarations
      ((modules.filter fun part => !Module.isAuxiliaryName part.name).flatMap
        Module.declarations) := by
  unfold Program.lowerModules
  induction modules.filter fun part => !Module.isAuxiliaryName part.name with
  | nil => rw [List.mapM_nil, pure_bind, List.flatMap_nil, Module.lowerDeclarations_nil]; rfl
  | cons part rest ih =>
      rw [List.flatMap_cons, Module.lowerDeclarations_append, ← ih]
      simp only [List.mapM_cons, bind_assoc, pure_bind, List.flatten_cons]
      rfl

theorem TypeNames.add_eq_error {names : TypeNames} {entry : String × Option String}
    {fault : Fault} (failed : names.add entry = .error fault) :
    ∃ name, entry.2 = some name ∧ TypeNames.id? entry.1 = none ∧
      fault = .invalidTypeId entry.1 := by
  unfold TypeNames.add at failed
  split at failed
  · cases failed
  · next key name =>
      split at failed
      · cases failed
      · next noId =>
          cases failed
          exact ⟨name, rfl, noId, rfl⟩

/-- The index of a type table fails only with the key of a named entry that is no id. -/
theorem TypeNames.index_eq_error {types : TypeTable} {fault : Fault}
    (failed : TypeNames.index types = .error fault) :
    ∃ key name, (key, some name) ∈ types ∧ TypeNames.id? key = none ∧
      fault = .invalidTypeId key := by
  rw [TypeNames.index] at failed
  generalize ([] : TypeNames) = names at failed
  induction types generalizing names with
  | nil => cases failed
  | cons entry rest ih =>
      rw [List.foldlM_cons] at failed
      rcases added : TypeNames.add names entry with other | next
      · rw [added] at failed
        cases failed
        obtain ⟨name, named, noId, rfl⟩ := TypeNames.add_eq_error added
        exact ⟨entry.1, name, named ▸ List.mem_cons_self, noId, rfl⟩
      · rw [added] at failed
        obtain ⟨key, name, member, noId, rfl⟩ := ih next failed
        exact ⟨key, name, List.mem_cons_of_mem _ member, noId, rfl⟩

namespace Document

/-- A document is lowered declaration by declaration, once its type table is checked. -/
theorem lower_eq_fold (document : Document) :
    document.lower = do
      let typeNames ← TypeNames.index document.types
      let progress ← Progress.ofDeclarations document.declarations
      return ⟨⟨Program.fixedImports, progress.items⟩, typeNames, progress.warnings⟩ := by
  have run : (Program.lowerModules document.modules).runFresh =
      (Module.lowerDeclarations document.declarations).runFresh := by
    rw [Program.lowerModules_eq]
    rfl
  rw [lower, run, ← Module.ofRun_lowerDeclarations]
  rcases (Module.lowerDeclarations document.declarations).runFresh with ⟨fault | items, log⟩ <;>
    rfl

theorem declarations_append (types : TypeTable) (before after : List Module) :
    declarations ⟨types, before ++ after⟩ =
      declarations ⟨types, before⟩ ++ declarations ⟨types, after⟩ := by
  simp only [declarations, List.filter_append, List.flatMap_append]

/-- Where the type table is an index, the lowered document is what the declarations give. -/
theorem lower_of_index {types : TypeTable} {typeNames : TypeNames}
    (indexed : TypeNames.index types = .ok typeNames) (modules : List Module) :
    lower ⟨types, modules⟩ =
      (Progress.ofDeclarations (declarations ⟨types, modules⟩)).map fun progress =>
        ⟨⟨Program.fixedImports, progress.items⟩, typeNames, progress.warnings⟩ := by
  rw [lower_eq_fold, indexed]
  rcases Progress.ofDeclarations (declarations ⟨types, modules⟩) with fault | progress <;> rfl

/-- **A document is a fold over its declarations.** Lowering a document indexes its type table
and then adds the declarations of its modules one by one, libraries and tests left out. So
documents with the same types and declarations have the same result, however the declarations
are grouped. The result of two lists of modules is that of the first followed by that of the
second, where the first fault counts. A table that cannot be indexed is refused whatever the
modules hold, and any other has no influence on the program and the warnings. -/
theorem lower_is_fold_over_declarations :
    (∀ document : Document, document.lower = do
        let typeNames ← TypeNames.index document.types
        let progress ← document.declarations.foldlM Progress.add ⟨[], []⟩
        return ⟨⟨Program.fixedImports, progress.items⟩, typeNames, progress.warnings⟩) ∧
      (∀ first second : Document, first.types = second.types →
        first.declarations = second.declarations → first.lower = second.lower) ∧
      (∀ (types : TypeTable) (typeNames : TypeNames), TypeNames.index types = .ok typeNames →
        ∀ before after : List Module,
          lower ⟨types, before ++ after⟩ =
            match lower ⟨types, before⟩, lower ⟨types, after⟩ with
            | .error fault, _ => .error fault
            | .ok _, .error fault => .error fault
            | .ok left, .ok right =>
                .ok ⟨⟨Program.fixedImports, left.program.items ++ right.program.items⟩,
                  typeNames, left.warnings ++ right.warnings⟩) ∧
      (∀ (types : TypeTable) (fault : Fault), TypeNames.index types = .error fault →
        (∃ key name, (key, some name) ∈ types ∧ TypeNames.id? key = none ∧
          fault = .invalidTypeId key) ∧
        ∀ modules, lower ⟨types, modules⟩ = .error fault) ∧
      ∀ (types others : TypeTable) (typeNames otherNames : TypeNames) (modules : List Module),
        TypeNames.index types = .ok typeNames → TypeNames.index others = .ok otherNames →
          (lower ⟨types, modules⟩).map (fun result => (result.program, result.warnings)) =
            (lower ⟨others, modules⟩).map fun result => (result.program, result.warnings) := by
  refine ⟨lower_eq_fold, ?_, ?_, ?_, ?_⟩
  · intro first second sameTypes sameDeclarations
    rw [lower_eq_fold, lower_eq_fold, sameTypes, sameDeclarations]
  · intro types typeNames indexed before after
    rw [lower_of_index indexed, lower_of_index indexed, lower_of_index indexed,
      declarations_append, Progress.ofDeclarations_append]
    rcases Progress.ofDeclarations (declarations ⟨types, before⟩) with fault | left
    · rfl
    · rcases Progress.ofDeclarations (declarations ⟨types, after⟩) with fault | right <;> rfl
  · intro types fault failed
    refine ⟨TypeNames.index_eq_error failed, fun modules => ?_⟩
    rw [lower_eq_fold, failed]
    rfl
  · intro types others typeNames otherNames modules indexed otherIndexed
    have same : declarations ⟨types, modules⟩ = declarations ⟨others, modules⟩ := rfl
    rw [lower_of_index indexed, lower_of_index otherIndexed, same]
    rcases Progress.ofDeclarations (declarations ⟨others, modules⟩) with fault | progress <;> rfl

/-- The declarations of the ledger in other modules, with a library in between. -/
def regroupedLedger : Document where
  types := []
  modules :=
    [⟨"first", ledger.declarations.take 2⟩, ⟨"broken_stdlib", [.str "anything"]⟩,
      ⟨"second", ledger.declarations.drop 2⟩]

/-- The regrouped ledger has the result of the ledger. Followed by a module with a fault it
fails, and so it does over a type table with a key that is no id. -/
theorem regroupedLedger_is_fold :
    regroupedLedger.lower = ledger.lower ∧
      lower ⟨[], regroupedLedger.modules ++ [⟨"broken", [.null]⟩]⟩ =
        .error (.expectedObject "declaration") ∧
      lower ⟨[("first", some "Coin")], regroupedLedger.modules⟩ =
        .error (.invalidTypeId "first") := by
  obtain ⟨-, regroup, parts, refused, -⟩ := lower_is_fold_over_declarations
  refine ⟨regroup _ _ rfl rfl, ?_, (refused _ _ (by with_unfolding_all rfl)).2 _⟩
  rw [parts [] [] rfl]
  have first : ∃ resolution, lower ⟨[], regroupedLedger.modules⟩ = .ok resolution :=
    ⟨_, by with_unfolding_all rfl⟩
  have second : lower ⟨[], [⟨"broken", [.null]⟩]⟩ = .error (.expectedObject "declaration") := by
    with_unfolding_all rfl
  obtain ⟨resolution, first⟩ := first
  rw [first, second]

end Document

end SpecTranspiler

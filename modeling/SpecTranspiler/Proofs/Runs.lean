import SpecTranspiler.Lower.Program

/-!
# Runs of lowering

`Lowering.Yields` says that a computation succeeds with a result and records given warnings,
whatever was recorded before. It is closed under sequencing, and a successful run of a
sequence splits into successful runs of its parts. The accessors of nodes are read off as
facts about the members of the node.
-/

namespace SpecTranspiler

namespace Lowering

variable {α β : Type}

/-- A sequence runs its second part on what the first one returned and recorded. -/
theorem runWith_bind (action : Lowering α) (next : α → Lowering β) (earlier : Array Warning) :
    (action >>= next).runWith earlier =
      match action.runWith earlier with
      | (.ok a, log) => (next a).runWith log
      | (.error fault, log) => (.error fault, log) := by
  change (ExceptT.bindCont next (action.runWith earlier).1).run (action.runWith earlier).2 = _
  rcases action.runWith earlier with ⟨_ | a, log⟩ <;> rfl

/-- A sequence succeeds exactly when its parts succeed one after the other. -/
theorem runWith_bind_eq_ok {action : Lowering α} {next : α → Lowering β}
    {earlier log : Array Warning} {b : β} :
    (action >>= next).runWith earlier = (.ok b, log) ↔
      ∃ a between, action.runWith earlier = (.ok a, between) ∧
        (next a).runWith between = (.ok b, log) := by
  rw [runWith_bind]
  rcases action.runWith earlier with ⟨fault | a, between⟩
  · constructor
    · intro run
      cases run
    · rintro ⟨_, _, first, _⟩
      cases first
  · constructor
    · intro run
      exact ⟨a, between, rfl, run⟩
    · rintro ⟨_, _, first, run⟩
      cases first
      exact run

/-- A checked reading records nothing. -/
theorem runWith_liftM_bind_eq_ok {reading : Except Fault α} {next : α → Lowering β}
    {earlier log : Array Warning} {b : β} :
    ((liftM reading : Lowering α) >>= next).runWith earlier = (.ok b, log) ↔
      ∃ a, reading = .ok a ∧ (next a).runWith earlier = (.ok b, log) := by
  have lifted : (liftM reading : Lowering α).runWith earlier = (reading, earlier) := rfl
  rw [runWith_bind_eq_ok, lifted]
  constructor
  · rintro ⟨a, between, first, run⟩
    cases first
    exact ⟨a, rfl, run⟩
  · rintro ⟨a, rfl, run⟩
    exact ⟨a, earlier, rfl, run⟩

theorem runWith_pure_eq_ok {a b : α} {earlier log : Array Warning} :
    (pure a : Lowering α).runWith earlier = (.ok b, log) ↔ b = a ∧ log = earlier := by
  change ((Except.ok a, earlier) : Except Fault α × Array Warning) = _ ↔ _
  rw [Prod.mk.injEq, Except.ok.injEq]
  exact and_congr eq_comm eq_comm

theorem runWith_throw_ne_ok {fault : Fault} {a : α} {earlier log : Array Warning} :
    (throw fault : Lowering α).runWith earlier ≠ (.ok a, log) := by
  intro run
  cases run

theorem append_warnings (earlier : Array Warning) (before after : List Warning) :
    earlier ++ before.toArray ++ after.toArray = earlier ++ (before ++ after).toArray := by
  rw [Array.append_assoc, List.append_toArray before after]

/-- What every run of one step records and returns, every run over a list does in turn. -/
theorem runWith_mapM {step : α → Lowering β} (Good : List α → List β → List Warning → Prop)
    (nil : Good [] [] [])
    (cons : ∀ {a : α} {b : β} {earlier log : Array Warning} {rest : List α} {results : List β}
      {after : List Warning}, (step a).runWith earlier = (.ok b, log) → Good rest results after →
      ∃ before, log = earlier ++ before.toArray ∧ Good (a :: rest) (b :: results)
        (before ++ after))
    {inputs : List α} {results : List β} {earlier log : Array Warning}
    (run : (inputs.mapM step).runWith earlier = (.ok results, log)) :
    ∃ warnings, Good inputs results warnings ∧ log = earlier ++ warnings.toArray := by
  induction inputs generalizing results earlier with
  | nil =>
      rw [List.mapM_nil] at run
      obtain ⟨rfl, rfl⟩ := runWith_pure_eq_ok.mp run
      exact ⟨[], nil, Array.append_empty.symm⟩
  | cons input inputs ih =>
      rw [List.mapM_cons] at run
      obtain ⟨b, between, first, run⟩ := runWith_bind_eq_ok.mp run
      obtain ⟨rest, final, second, run⟩ := runWith_bind_eq_ok.mp run
      obtain ⟨rfl, rfl⟩ := runWith_pure_eq_ok.mp run
      obtain ⟨after, good, rfl⟩ := ih second
      obtain ⟨before, rfl, all⟩ := cons first good
      exact ⟨before ++ after, all, append_warnings ..⟩

/-- Whatever was recorded before, the computation succeeds with a result and records the
warnings behind it. -/
def Yields (action : Lowering α) (result : α) (warnings : List Warning) : Prop :=
  ∀ earlier, action.runWith earlier = (.ok result, earlier ++ warnings.toArray)

namespace Yields

theorem pure (a : α) : Yields (Pure.pure a : Lowering α) a [] := by
  intro earlier
  exact congrArg _ Array.append_empty.symm

theorem warn (warning : Warning) : Yields (warn warning) () [warning] := by
  intro earlier
  rfl

theorem bind {action : Lowering α} {next : α → Lowering β} {a : α} {b : β}
    {before after : List Warning} (first : action.Yields a before)
    (second : (next a).Yields b after) : (action >>= next).Yields b (before ++ after) := by
  intro earlier
  rw [runWith_bind, first earlier]
  change (next a).runWith _ = _
  rw [second, append_warnings]

/-- What follows without a warning keeps the warnings as they are. -/
theorem bindSilent {action : Lowering α} {next : α → Lowering β} {a : α} {b : β}
    {warnings : List Warning} (first : action.Yields a warnings)
    (second : (next a).Yields b []) : (action >>= next).Yields b warnings := by
  rw [← List.append_nil warnings]
  exact first.bind second

theorem map {action : Lowering α} {a : α} {warnings : List Warning} (f : α → β)
    (yields : action.Yields a warnings) :
    (action >>= fun a => Pure.pure (f a)).Yields (f a) warnings :=
  yields.bindSilent (.pure (f a))

theorem read {reading : Except Fault α} {next : α → Lowering β} {a : α} {b : β}
    {warnings : List Warning} (found : reading = .ok a) (second : (next a).Yields b warnings) :
    ((liftM reading : Lowering α) >>= next).Yields b warnings := by
  intro earlier
  exact runWith_liftM_bind_eq_ok.mpr ⟨a, found, second earlier⟩

/-- A computation yields one result with one list of warnings. -/
theorem unique {action : Lowering α} {a b : α} {before after : List Warning}
    (first : action.Yields a before) (second : action.Yields b after) :
    a = b ∧ before = after := by
  have same := (first #[]).symm.trans (second #[])
  rw [Prod.mk.injEq, Except.ok.injEq, Array.empty_append, Array.empty_append] at same
  exact ⟨same.1, congrArg Array.toList same.2⟩

end Yields

end Lowering

namespace Node

theorem ofValue_eq_ok {value : Json} {context : String} {node : Node} :
    ofValue value context = .ok node ↔ value = .obj node := by
  cases value with
  | obj members =>
      rw [ofValue, Except.ok.injEq, Json.obj.injEq]
  | _ => simp only [ofValue, reduceCtorEq]

theorem string_eq_ok {node : Node} {key context text : String} :
    node.string key context = .ok text ↔ node.lookup key = some (.str text) := by
  unfold string
  cases node.lookup key with
  | none => simp only [reduceCtorEq]
  | some value => cases value <;> simp

theorem boolean_eq_ok {node : Node} {key context : String} {value : Bool} :
    node.boolean key context = .ok value ↔ node.lookup key = some (.bool value) := by
  unfold boolean
  cases node.lookup key with
  | none => simp only [reduceCtorEq]
  | some value => cases value <;> simp

theorem uint64_eq_ok {node : Node} {key context : String} {n : UInt64} :
    node.uint64 key context = .ok n ↔
      ∃ number, node.lookup key = some (.num number) ∧ number.toUInt64? = some n := by
  unfold uint64
  cases node.lookup key with
  | none => simp only [reduceCtorEq, false_and, exists_false]
  | some value =>
      cases value with
      | num number => cases exact : number.toUInt64? <;> simp [exact]
      | _ => simp

theorem child_eq_ok {node : Node} {key context : String} {part : Part Json node} :
    node.child key context = .ok part ↔ node.lookup key = some part.1 := by
  unfold child
  split
  · next value found => simp only [Except.ok.injEq, Subtype.ext_iff, found, Option.some.injEq]
  · next missing => simp only [missing, reduceCtorEq]

theorem array_eq_ok {node : Node} {key context : String} {part : Part (List Json) node} :
    node.array key context = .ok part ↔ node.lookup key = some (.arr part.1) := by
  unfold array
  split
  · next elements found =>
      simp only [Except.ok.injEq, Subtype.ext_iff, found, Option.some.injEq, Json.arr.injEq]
  · next value other found =>
      rw [found, Option.some.injEq]
      refine iff_of_false ?_ (other part.1)
      intro impossible
      cases impossible
  · next missing => simp only [missing, reduceCtorEq]

theorem object_eq_ok {node : Node} {key context : String} {part : Part Node node} :
    node.object key context = .ok part ↔ node.lookup key = some (.obj part.1) := by
  unfold object
  split
  · next members found =>
      simp only [Except.ok.injEq, Subtype.ext_iff, found, Option.some.injEq, Json.obj.injEq]
  · next value other found =>
      rw [found, Option.some.injEq]
      refine iff_of_false ?_ (other part.1)
      intro impossible
      cases impossible
  · next missing => simp only [missing, reduceCtorEq]

end Node

namespace Lowering.Yields

variable {β : Type} {node : Node} {key context : String} {b : β} {warnings : List Warning}

theorem string {text : String} {next : String → Lowering β}
    (found : node.lookup key = some (.str text)) (second : (next text).Yields b warnings) :
    ((liftM (node.string key context) : Lowering String) >>= next).Yields b warnings :=
  .read (Node.string_eq_ok.mpr found) second

theorem child {value : Json} {next : Node.Part Json node → Lowering β}
    (found : node.lookup key = some value)
    (second : ∀ small, (next ⟨value, small⟩).Yields b warnings) :
    ((liftM (node.child key context) : Lowering _) >>= next).Yields b warnings :=
  .read (Node.child_eq_ok.mpr found) (second (Node.sizeOf_lookup_lt found))

theorem array {elements : List Json} {next : Node.Part (List Json) node → Lowering β}
    (found : node.lookup key = some (.arr elements))
    (second : ∀ small, (next ⟨elements, small⟩).Yields b warnings) :
    ((liftM (node.array key context) : Lowering _) >>= next).Yields b warnings := by
  have small : sizeOf elements < sizeOf node := by
    have smaller := Node.sizeOf_lookup_lt found
    simp only [Json.arr.sizeOf_spec] at smaller
    omega
  exact .read (Node.array_eq_ok.mpr found) (second small)

theorem object {members : Node} {next : Node.Part Node node → Lowering β}
    (found : node.lookup key = some (.obj members))
    (second : ∀ small, (next ⟨members, small⟩).Yields b warnings) :
    ((liftM (node.object key context) : Lowering _) >>= next).Yields b warnings := by
  have small : sizeOf members < sizeOf node := by
    have smaller := Node.sizeOf_lookup_lt found
    simp only [Json.obj.sizeOf_spec] at smaller
    omega
  exact .read (Node.object_eq_ok.mpr found) (second small)

end Lowering.Yields

end SpecTranspiler

import SpecTranspiler.Proofs.Image
import SpecTranspiler.Proofs.Reading

/-!
# Types are told apart by their texts

The text of a well formed type ends where no type can go on, so two texts that begin with types
begin with the same type. From this it follows that types with the same text are the same, that
records are named differently for different expected types, and that an item cannot be written
with other types in the same text.
-/

namespace SpecTranspiler

open Token

namespace Ty

/-- No text of a type goes on here: neither a word nor types in angle brackets follow. -/
structure Stops (rest : List Char) : Prop where
  noWord : boundary rest = true
  noTypes : expect '<' (scan rest) = none

section Cancelling

variable {first second : Ty} {rest rest' : List Char}

/-- A type is read from a text that it stands in front of. -/
theorem read_render_append (wellFormed : first.isWellFormed = true) (stops : Stops rest) :
    Gives (fun fuel => read fuel (scan (first.render.toList ++ rest))) (first, scan rest) := by
  rw [first.spells wellFormed rest stops.noWord]
  exact first.readsBack wellFormed (scan rest) stops.noTypes

/-- Two texts that begin with types are the same only if the types and the rests are. -/
theorem render_append_cancel (firstWellFormed : first.isWellFormed = true)
    (secondWellFormed : second.isWellFormed = true) (stops : Stops rest) (stops' : Stops rest')
    (same : first.render.toList ++ rest = second.render.toList ++ rest') :
    first = second ∧ rest = rest' := by
  have reads := read_render_append firstWellFormed stops
  rw [same] at reads
  obtain rfl : first = second :=
    congrArg Prod.fst (reads.unique (read_render_append secondWellFormed stops'))
  exact ⟨rfl, List.append_cancel_left same⟩

theorem eq_of_render_eq (firstWellFormed : first.isWellFormed = true)
    (secondWellFormed : second.isWellFormed = true) (same : first.render = second.render) :
    first = second := by
  have ends : Stops [] := ⟨rfl, rfl⟩
  refine (render_append_cancel firstWellFormed secondWellFormed ends ends ?_).1
  rw [same]

end Cancelling

end Ty

/-- A record that is lowered against a type has the text of the type as its name. -/
theorem Term.record_name_eq {value : Json} {ty : Ty} {earlier log : Array Warning} {name : String}
    {fields : List (String × Term)}
    (run : (Term.lower value (some ty)).runWith earlier = (.ok (.record name fields), log)) :
    name = ty.render := by
  obtain ⟨warnings, derived, -⟩ := Term.traced value run
  cases derived.image with
  | record each => rfl

/-- The parameter without its type. -/
def Param.outline (param : Param) : Param :=
  { param with ty := .wildcard }

namespace Item

/-- The types that an item declares, in the order in which they are written. -/
def declaredTypes : Item → List Ty
  | .struct _ fields _ => fields.map Prod.snd
  | .function _ params result _ _ => params.map Param.ty ++ [result]
  | .const _ ty _ => [ty]
  | .val _ _ => []
  | .synonym _ ty => [ty]

/-- The item without the types that it declares and the terms that it holds. -/
def outline : Item → Item
  | .struct name fields attributes =>
      .struct name (fields.map fun field => (field.1, .wildcard)) attributes
  | .function name params _ _ attributes =>
      .function name (params.map Param.outline) .wildcard [] attributes
  | .const name _ _ => .const name .wildcard .todo
  | .val name _ => .val name .todo
  | .synonym name _ => .synonym name .wildcard

section Cancelling

variable {rest rest' : List Char}

/-- The fields of a struct are told apart line by line. -/
theorem fields_cancel {first second : List (String × Ty)} (width level : Nat)
    (outlines : first.map (fun field => (field.1, Ty.wildcard)) =
      second.map fun field => (field.1, Ty.wildcard))
    (firstWellFormed : ∀ field ∈ first, field.2.isWellFormed = true)
    (secondWellFormed : ∀ field ∈ second, field.2.isWellFormed = true)
    (same : (String.join ((first.map (renderField width level)).map (· ++ "\n"))).toList ++ rest =
      (String.join ((second.map (renderField width level)).map (· ++ "\n"))).toList ++ rest') :
    first = second := by
  induction first generalizing second with
  | nil => exact (List.map_eq_nil_iff.mp outlines.symm).symm
  | cons field first ih =>
      cases second with
      | nil => cases outlines
      | cons other second =>
          obtain ⟨label, following⟩ := List.cons.inj outlines
          obtain ⟨head, tail⟩ := List.forall_mem_cons.mp firstWellFormed
          obtain ⟨head', tail'⟩ := List.forall_mem_cons.mp secondWellFormed
          have name : field.1 = other.1 := (Prod.mk.inj label).1
          simp only [List.map_cons, String.join_cons, renderField, name, String.toList_append,
            List.append_assoc, List.append_cancel_left_eq] at same
          obtain ⟨ty, remains⟩ := Ty.render_append_cancel head head' ⟨rfl, rfl⟩ ⟨rfl, rfl⟩ same
          have others := List.append_cancel_left (List.append_cancel_left remains)
          rw [Prod.ext name ty, ih following tail tail' others]

/-- Parameters that differ in their types are told apart. -/
theorem param_cancel {first second : Param} (outlined : first.outline = second.outline)
    (firstWellFormed : first.ty.isWellFormed = true)
    (secondWellFormed : second.ty.isWellFormed = true) (stops : Ty.Stops rest)
    (stops' : Ty.Stops rest') (same : first.render.toList ++ rest = second.render.toList ++ rest') :
    first = second ∧ rest = rest' := by
  obtain ⟨name, ty, mutable⟩ := first
  obtain ⟨name', ty', mutable'⟩ := second
  obtain ⟨rfl, -, rfl⟩ := Param.mk.inj outlined
  simp only [Param.render, String.toList_append, List.append_assoc,
    List.append_cancel_left_eq] at same
  obtain ⟨rfl, remains⟩ :=
    Ty.render_append_cancel firstWellFormed secondWellFormed stops stops' same
  exact ⟨rfl, remains⟩

/-- The parameters of a function are told apart up to the parenthesis behind them. -/
theorem params_cancel {first second : List Param}
    (outlines : first.map Param.outline = second.map Param.outline)
    (firstWellFormed : ∀ param ∈ first, param.ty.isWellFormed = true)
    (secondWellFormed : ∀ param ∈ second, param.ty.isWellFormed = true)
    (same : (String.intercalate ", " (first.map Param.render)).toList ++ ')' :: rest =
      (String.intercalate ", " (second.map Param.render)).toList ++ ')' :: rest') :
    first = second ∧ rest = rest' := by
  induction first generalizing second with
  | nil =>
      obtain rfl := List.map_eq_nil_iff.mp outlines.symm
      exact ⟨rfl, (List.cons.inj same).2⟩
  | cons param first ih =>
      cases second with
      | nil => cases outlines
      | cons other second =>
          obtain ⟨outlined, following⟩ := List.cons.inj outlines
          obtain ⟨head, tail⟩ := List.forall_mem_cons.mp firstWellFormed
          obtain ⟨head', tail'⟩ := List.forall_mem_cons.mp secondWellFormed
          cases first with
          | nil =>
              obtain rfl := List.map_eq_nil_iff.mp following.symm
              simp only [List.map_singleton, String.intercalate_singleton] at same
              obtain ⟨rfl, remains⟩ := param_cancel outlined head head' ⟨rfl, rfl⟩ ⟨rfl, rfl⟩ same
              exact ⟨rfl, (List.cons.inj remains).2⟩
          | cons next first =>
              cases second with
              | nil => cases following
              | cons next' second =>
                  simp only [List.map_cons, String.intercalate_cons_cons, String.toList_append,
                    List.append_assoc] at same
                  obtain ⟨rfl, remains⟩ :=
                    param_cancel outlined head head' ⟨rfl, rfl⟩ ⟨rfl, rfl⟩ same
                  obtain ⟨others, remains⟩ :=
                    ih following tail tail' (List.append_cancel_left remains)
                  exact ⟨congrArg _ others, remains⟩

end Cancelling

/-- Items with the same outline are told apart by the types that they declare. -/
theorem declaredTypes_eq_of_render_eq {first second : Item} (width level : Nat)
    (outlines : first.outline = second.outline)
    (firstWellFormed : ∀ ty ∈ first.declaredTypes, ty.isWellFormed = true)
    (secondWellFormed : ∀ ty ∈ second.declaredTypes, ty.isWellFormed = true)
    (same : first.render width level = second.render width level) :
    first.declaredTypes = second.declaredTypes := by
  replace same := congrArg String.toList same
  cases first with
  | struct name fields attributes =>
      cases second with
      | struct name' fields' attributes' =>
          obtain ⟨rfl, labels, rfl⟩ := Item.struct.inj outlines
          cases fields with
          | nil => rw [List.map_eq_nil_iff.mp labels.symm]
          | cons field fields =>
              obtain ⟨other, others, rfl, -⟩ := List.map_eq_cons_iff.mp labels.symm
              simp only [render, List.map_cons, Term.bracedLines, String.toList_append,
                List.append_assoc, List.append_cancel_left_eq] at same
              exact congrArg (List.map Prod.snd) (fields_cancel width (level + 1) labels
                (List.forall_mem_map.mp firstWellFormed) (List.forall_mem_map.mp secondWellFormed)
                same)
      | _ => cases outlines
  | function name params result body attributes =>
      cases second with
      | function name' params' result' body' attributes' =>
          obtain ⟨rfl, signature, -, -, rfl⟩ := Item.function.inj outlines
          obtain ⟨ofParams, ofResult⟩ := List.forall_mem_append.mp firstWellFormed
          obtain ⟨ofParams', ofResult'⟩ := List.forall_mem_append.mp secondWellFormed
          simp only [render, renderBody, String.toList_append, List.append_assoc,
            List.append_cancel_left_eq] at same
          obtain ⟨rfl, remains⟩ := params_cancel signature (List.forall_mem_map.mp ofParams)
            (List.forall_mem_map.mp ofParams') same
          change " -> ".toList ++ _ = " -> ".toList ++ _ at remains
          obtain ⟨rfl, -⟩ := Ty.render_append_cancel (ofResult _ (List.mem_singleton_self _))
            (ofResult' _ (List.mem_singleton_self _)) ⟨rfl, rfl⟩ ⟨rfl, rfl⟩
            (List.append_cancel_left remains)
          rfl
      | _ => cases outlines
  | const name ty value =>
      cases second with
      | const name' ty' value' =>
          obtain ⟨rfl, -, -⟩ := Item.const.inj outlines
          simp only [render, String.toList_append, List.append_assoc,
            List.append_cancel_left_eq] at same
          obtain ⟨rfl, -⟩ := Ty.render_append_cancel (firstWellFormed _ (List.mem_singleton_self _))
            (secondWellFormed _ (List.mem_singleton_self _)) ⟨rfl, rfl⟩ ⟨rfl, rfl⟩ same
          rfl
      | _ => cases outlines
  | val name value =>
      cases second with
      | val name' value' => rfl
      | _ => cases outlines
  | synonym name ty =>
      cases second with
      | synonym name' ty' =>
          obtain ⟨rfl, -⟩ := Item.synonym.inj outlines
          simp only [render, String.toList_append, List.append_assoc,
            List.append_cancel_left_eq] at same
          obtain ⟨rfl, -⟩ := Ty.render_append_cancel (firstWellFormed _ (List.mem_singleton_self _))
            (secondWellFormed _ (List.mem_singleton_self _)) ⟨rfl, rfl⟩ ⟨rfl, rfl⟩ same
          rfl
      | _ => cases outlines

end Item

namespace Ty

/-- **Types are told apart by their texts.** Well formed types with the same text are the same.
So the records that are lowered against two such types have two names, whatever they are lowered
from, and items that agree in all names and attributes are written in two texts as soon as they
declare different types, whatever terms they hold. -/
theorem texts_tell_types_apart :
    (∀ first second : Ty, first.isWellFormed = true → second.isWellFormed = true →
      first.render = second.render → first = second) ∧
    (∀ (first second : Ty) (value value' : Json) (earlier earlier' log log' : Array Warning)
        (name name' : String) (fields fields' : List (String × Term)),
      first.isWellFormed = true → second.isWellFormed = true → first ≠ second →
      (Term.lower value (some first)).runWith earlier = (.ok (.record name fields), log) →
      (Term.lower value' (some second)).runWith earlier' = (.ok (.record name' fields'), log') →
        name ≠ name') ∧
    ∀ (width level : Nat) (first second : Item), first.outline = second.outline →
      (∀ ty ∈ first.declaredTypes, ty.isWellFormed = true) →
      (∀ ty ∈ second.declaredTypes, ty.isWellFormed = true) →
      first.declaredTypes ≠ second.declaredTypes →
        first.render width level ≠ second.render width level := by
  refine ⟨?_, ?_, ?_⟩
  · intro first second firstWellFormed secondWellFormed same
    exact eq_of_render_eq firstWellFormed secondWellFormed same
  · intro first second value value' earlier earlier' log log' name name' fields fields'
      firstWellFormed secondWellFormed distinct run run' same
    apply distinct
    apply eq_of_render_eq firstWellFormed secondWellFormed
    rw [← Term.record_name_eq run, ← Term.record_name_eq run', same]
  · intro width level first second outlines firstWellFormed secondWellFormed distinct same
    apply distinct
    exact Item.declaredTypes_eq_of_render_eq width level outlines firstWellFormed secondWellFormed
      same

/-- A record of an owner and of what was spent. -/
def sampleWallet (spent : Ty) : Ty :=
  .record [("owner", .named "Address"), ("spent", spent)]

/-- A single set and a set of singles are told apart, as are the records constructed of types that
hold them and functions that take them. -/
theorem sampleWallet_told_apart :
    ∃ first second, first = sampleWallet (.tuple [.set (.named "Coin")]) ∧
      second = sampleWallet (.set (.tuple [.named "Coin"])) ∧
      first.isWellFormed = true ∧ second.isWellFormed = true ∧ first.render ≠ second.render ∧
      (∃ name name', (Term.lower (.obj (Json.applicationNode "Rec" [])) (some first)).runFresh =
          (.ok (.record name []), #[]) ∧
        (Term.lower (.obj (Json.applicationNode "Rec" [])) (some second)).runFresh =
          (.ok (.record name' []), #[]) ∧ name ≠ name') ∧
      (Item.function "spend" [⟨"wallet", first, true⟩] .bool [.ret .todo] []).render 4 0 ≠
        (Item.function "spend" [⟨"wallet", second, true⟩] .bool [] []).render 4 0 := by
  obtain ⟨injective, records, items⟩ := texts_tell_types_apart
  have distinct : sampleWallet (.tuple [.set (.named "Coin")]) ≠
      sampleWallet (.set (.tuple [.named "Coin"])) := nofun
  have lowers (ty : Ty) :
      (Term.lower (.obj (Json.applicationNode "Rec" [])) (some ty)).runWith #[] =
        (.ok (.record ty.render []), #[]) := by
    with_unfolding_all rfl
  refine ⟨_, _, rfl, rfl, by decide, by decide, fun same => ?_, ⟨_, _, lowers _, lowers _, ?_⟩, ?_⟩
  · exact distinct (injective _ _ (by decide) (by decide) same)
  · exact records _ _ _ _ _ _ _ _ _ _ _ _ (by decide) (by decide) distinct (lowers _) (lowers _)
  · exact items 4 0 _ _ rfl (by decide) (by decide) fun same => distinct (List.cons.inj same).1

end Ty

end SpecTranspiler

import SpecTranspiler.Proofs.Descriptors

/-!
# Where parameters are counted

A function whose parameters differ in number from their types is reported by a fault of its own.
No other step of lowering reports it: neither reading the fields of nodes nor descriptors, and
lowering an expression does not either, since the definitions inside expressions that are lowered
are those of values. `NeverMiscounts` says this of a computation, and is closed under sequencing.
-/

namespace SpecTranspiler

/-- The fault tells of parameters that differ in number from their types. -/
def Fault.isMiscount : Fault → Bool
  | .paramCountMismatch .. => true
  | _ => false

/-- The outcome is not that parameters differ in number from their types. -/
def NeverMiscounts {α : Type} (outcome : Except Fault α) : Prop :=
  ∀ fault, outcome = .error fault → fault.isMiscount = false

namespace NeverMiscounts

variable {α β : Type}

theorem ok (a : α) : NeverMiscounts (.ok a) := by
  intro fault failed
  cases failed

theorem fault {fault : Fault} (other : fault.isMiscount = false) :
    NeverMiscounts (.error fault : Except Fault α) := by
  intro _ failed
  cases failed
  exact other

theorem bind {reading : Except Fault α} {next : α → Except Fault β}
    (first : NeverMiscounts reading) (second : ∀ a, NeverMiscounts (next a)) :
    NeverMiscounts (reading >>= next) := by
  cases reading with
  | error fault => exact .fault (first fault rfl)
  | ok a => exact second a

theorem map {reading : Except Fault α} (f : α → β) (first : NeverMiscounts reading) :
    NeverMiscounts (reading >>= fun a => pure (f a)) :=
  first.bind fun a => ok (f a)

theorem mapM {read : α → Except Fault β} (each : ∀ a, NeverMiscounts (read a)) (values : List α) :
    NeverMiscounts (values.mapM read) := by
  induction values with
  | nil => exact ok []
  | cons value values ih =>
      rw [List.mapM_cons]
      exact (each value).bind fun result => ih.map _

variable {node : Node} {key context : String}

theorem ofValue (value : Json) (context : String) :
    NeverMiscounts (Node.ofValue value context) := by
  cases value with
  | obj node => exact ok node
  | _ => exact fault rfl

theorem string : NeverMiscounts (node.string key context) := by
  unfold Node.string
  split
  · exact ok _
  · exact fault rfl
  · exact fault rfl

theorem boolean : NeverMiscounts (node.boolean key context) := by
  unfold Node.boolean
  split
  · exact ok _
  · exact fault rfl
  · exact fault rfl

theorem uint64 : NeverMiscounts (node.uint64 key context) := by
  unfold Node.uint64
  split
  · split
    · exact ok _
    · exact fault rfl
  · exact fault rfl
  · exact fault rfl

theorem child : NeverMiscounts (node.child key context) := by
  unfold Node.child
  split
  · exact ok _
  · exact fault rfl

theorem array : NeverMiscounts (node.array key context) := by
  unfold Node.array
  split
  · exact ok _
  · exact fault rfl
  · exact fault rfl

theorem object : NeverMiscounts (node.object key context) := by
  unfold Node.object
  split
  · exact ok _
  · exact fault rfl
  · exact fault rfl

end NeverMiscounts

namespace Ty

/-- Reading a row does not miscount, if reading the descriptors in it does not. -/
theorem ofRow_neverMiscounts {context : String} {entries : List Json}
    (inner : ∀ entry ∈ entries, ∀ part : Json, sizeOf part < sizeOf entry →
      NeverMiscounts (ofDescriptor part)) : NeverMiscounts (ofRow context entries) := by
  induction entries with
  | nil =>
      rw [ofRow]
      exact .ok []
  | cons entry rest ih =>
      obtain ⟨here, there⟩ := List.forall_mem_cons.mp inner
      cases entry with
      | obj node =>
          rw [ofRow]
          refine .bind .string fun name => .bind .child ?_
          rintro ⟨part, small⟩
          have smaller : sizeOf part < sizeOf (Json.obj node) := by
            simp only [Json.obj.sizeOf_spec]
            omega
          exact .bind (here part smaller) fun ty => .map _ (ih there)
      | _ =>
          rw [ofRow]
          · exact .fault rfl
          · rintro _ ⟨⟩

/-- The induction is on the size of the value, since descriptors lie under the fields of
descriptors. -/
theorem ofDescriptor_neverMiscounts (descriptor : Json) :
    NeverMiscounts (ofDescriptor descriptor) := by
  cases descriptor with
  | obj node =>
      have inner (part : Json) (small : sizeOf part < sizeOf node) :
          NeverMiscounts (ofDescriptor part) :=
        ofDescriptor_neverMiscounts part
      have row (context : String) (entries : List Json) (small : sizeOf entries < sizeOf node) :
          NeverMiscounts (ofRow context entries) :=
        ofRow_neverMiscounts fun entry member part smaller =>
          inner part (Nat.lt_trans smaller (Nat.lt_trans (List.sizeOf_lt_of_mem member) small))
      rw [ofDescriptor]
      refine .bind .string fun kind => ?_
      dsimp only
      split
      · refine .bind .object ?_
        rintro ⟨members, inside⟩
        refine .bind .array ?_
        rintro ⟨entries, small⟩
        exact .map _ (row _ entries (Nat.lt_trans small inside))
      · exact .ok _
      · exact .map _ .string
      · refine .bind .child ?_
        rintro ⟨part, small⟩
        exact .map _ (inner part small)
      · exact .ok _
      · refine .bind .child ?_
        rintro ⟨part, small⟩
        exact .map _ (inner part small)
      · refine .bind .child ?_
        rintro ⟨key, smallKey⟩
        refine .bind (inner key smallKey) fun keyType => .bind .child ?_
        rintro ⟨value, smallValue⟩
        exact .map _ (inner value smallValue)
      · exact .ok _
      · refine .bind .object ?_
        rintro ⟨members, inside⟩
        refine .bind .array ?_
        rintro ⟨entries, small⟩
        exact .map _ (row _ entries (Nat.lt_trans small inside))
      · exact .fault rfl
  | _ =>
      rw [ofDescriptor]
      · exact .fault rfl
      · rintro _ ⟨⟩
termination_by sizeOf descriptor
decreasing_by
  simp only [Json.obj.sizeOf_spec]
  omega

end Ty

theorem Item.paramName_neverMiscounts (context : String) (value : Json) :
    NeverMiscounts (paramName context value) :=
  .bind (.ofValue value context) fun _ => .string

namespace Lowering

variable {α β : Type}

/-- Whatever was recorded before, the computation does not end with the fault that parameters
differ in number from their types. -/
def NeverMiscounts (action : Lowering α) : Prop :=
  ∀ earlier, SpecTranspiler.NeverMiscounts (action.runWith earlier).1

namespace NeverMiscounts

theorem pure (a : α) : NeverMiscounts (Pure.pure a : Lowering α) :=
  fun _ => .ok a

theorem fault {fault : Fault} (other : fault.isMiscount = false) :
    NeverMiscounts (throw fault : Lowering α) :=
  fun _ => .fault other

theorem warn (warning : Warning) : NeverMiscounts (warn warning) :=
  fun _ => .ok ()

theorem bind {action : Lowering α} {next : α → Lowering β} (first : action.NeverMiscounts)
    (second : ∀ a, (next a).NeverMiscounts) : (action >>= next).NeverMiscounts := by
  intro earlier
  rw [runWith_bind]
  rcases ran : action.runWith earlier with ⟨fault | a, log⟩
  · exact .fault (first earlier fault (congrArg Prod.fst ran))
  · exact second a log

theorem map {action : Lowering α} (f : α → β) (first : action.NeverMiscounts) :
    (action >>= fun a => Pure.pure (f a)).NeverMiscounts :=
  first.bind fun a => pure (f a)

/-- What follows a reading is only looked at where the reading succeeds. -/
theorem read {reading : Except Fault α} {next : α → Lowering β}
    (first : SpecTranspiler.NeverMiscounts reading)
    (second : ∀ a, reading = .ok a → (next a).NeverMiscounts) :
    ((liftM reading : Lowering α) >>= next).NeverMiscounts := by
  cases reading with
  | error fault => exact fun _ => .fault (first fault rfl)
  | ok a => exact second a rfl

end NeverMiscounts

end Lowering

namespace Term

/-- Lowering operands one after the other does not miscount, if lowering each of them does not. -/
theorem lowerEach_neverMiscounts {args : List Json} (types : List (Option Ty))
    (operands : ∀ arg ∈ args, ∀ expected, (lower arg expected).NeverMiscounts) :
    (lowerEach args types).NeverMiscounts := by
  induction args generalizing types with
  | nil =>
      rw [lowerEach]
      · exact .pure []
      · exact fun _ _ _ _ impossible _ => (List.cons_ne_nil _ _ impossible.symm).elim
  | cons arg args ih =>
      cases types with
      | nil =>
          rw [lowerEach]
          · exact .pure []
          · exact fun _ _ _ _ _ impossible => (List.cons_ne_nil _ _ impossible.symm).elim
      | cons ty types =>
          rw [lowerEach]
          refine .bind (operands arg List.mem_cons_self ty) fun term => ?_
          exact .map _ (ih types fun other member =>
            operands other (List.mem_cons_of_mem _ member))

/-- Lowering the operands of a record construction does not miscount, if lowering each of them does
not. -/
theorem lowerFields_neverMiscounts {context : String} {args : List Json}
    (operands : ∀ arg ∈ args, ∀ expected, (lower arg expected).NeverMiscounts) :
    (lowerFields context args).NeverMiscounts := by
  match args with
  | [] | [_] =>
      rw [lowerFields]
      · exact .pure []
      · intro label value rest shape
        cases shape
  | label :: value :: rest =>
      rw [lowerFields]
      refine .read (.ofValue label context) fun node _ => .read .string fun name _ => ?_
      refine .bind (operands value (List.mem_cons_of_mem _ List.mem_cons_self) none)
        fun term => ?_
      exact .map _ (lowerFields_neverMiscounts fun arg member =>
        operands arg (List.mem_cons_of_mem _ (List.mem_cons_of_mem _ member)))

/-- Applying an operator does not miscount, if lowering the operands does not. Wrong numbers of
operands are a fault of another kind. -/
theorem lowerApplication_neverMiscounts {operator : Operator} {context : String}
    {expected : Option Ty} {args : List Json}
    (operands : ∀ arg ∈ args, ∀ expected, (lower arg expected).NeverMiscounts) :
    (lowerApplication operator context expected args).NeverMiscounts := by
  rw [lowerApplication.eq_def]
  cases operator with
  | sum | membership =>
      dsimp only
      split
      · next left right =>
          refine .bind (operands left (by simp) _) fun first => ?_
          exact .map _ (operands right (by simp) _)
      · exact .fault rfl
  | record =>
      dsimp only
      split
      · exact .fault rfl
      · cases expected with
        | none => exact .map _ (.warn _)
        | some ty => exact .map _ (lowerFields_neverMiscounts operands)
  | tuple => exact .map _ (lowerEach_neverMiscounts _ operands)
  | choice =>
      dsimp only
      split
      · next condition yes no =>
          refine .bind (operands condition (by simp) _) fun test => ?_
          refine .bind (operands yes (by simp) _) fun first => ?_
          exact .map _ (operands no (by simp) _)
      · exact .fault rfl
  | negation | keys =>
      dsimp only
      split
      · next operand => exact .map _ (operands operand (by simp) _)
      · exact .fault rfl
  | field =>
      dsimp only
      split
      · next base label =>
          refine .bind (operands base (by simp) _) fun term => ?_
          exact .read (.ofValue label context) fun node _ => .read .string fun name _ => .pure _
      · exact .fault rfl

end Term

/-- The definition of a value has no parameters to count. -/
theorem Item.lowerDefinition_val_neverMiscounts {node : Node}
    (qualifierField : node.lookup "qualifier" = some (.str "val"))
    (inner : ∀ part : Json, sizeOf part < sizeOf node →
      ∀ expected, (Term.lower part expected).NeverMiscounts) :
    (Item.lowerDefinition node).NeverMiscounts := by
  rw [Item.lowerDefinition]
  refine .read .string fun name _ => .read .string fun qualifier found => ?_
  obtain rfl : qualifier = "val" := by
    simpa [qualifierField] using (Node.string_eq_ok.mp found).symm
  refine .read .child ?_
  rintro ⟨value, small⟩ -
  exact .map _ (inner value small none)

namespace Term

/-- Lowering an expression does not miscount, if lowering the smaller ones in it does not. -/
theorem lower_obj_neverMiscounts {node : Node}
    (inner : ∀ part : Json, sizeOf part < sizeOf node →
      ∀ expected, (lower part expected).NeverMiscounts) (expected : Option Ty) :
    (lower (.obj node) expected).NeverMiscounts := by
  rw [lower]
  refine .read .string fun kind _ => ?_
  dsimp only
  split
  · exact .read .string fun _ _ => .pure _
  · exact .read .uint64 fun _ _ => .pure _
  · exact .read .boolean fun _ _ => .pure _
  · exact .read .string fun _ _ => .pure _
  · refine .read .object ?_
    rintro ⟨definition, inside⟩ -
    refine .read .string fun qualifier found => ?_
    dsimp only
    split
    · next value =>
        subst value
        have within := Item.lowerDefinition_val_neverMiscounts (Node.string_eq_ok.mp found)
          fun part small => inner part (Nat.lt_trans small inside)
        refine .bind within fun item => ?_
        split
        · refine .read .child ?_
          rintro ⟨body, small⟩ -
          exact .map _ (inner body small expected)
        · exact .pure _
    · exact .read .string fun label _ => .map _ (.warn _)
  · refine .read .string fun opcode _ => .read .array ?_
    rintro ⟨args, inside⟩ -
    dsimp only
    split
    · exact lowerApplication_neverMiscounts fun arg member =>
        inner arg (Nat.lt_trans (List.sizeOf_lt_of_mem member) inside)
    · exact .map _ (.warn _)
  · exact .map _ (.warn _)

/-- Lowering an expression never reports parameters that differ in number from their types. The
induction is on the size of the value, since lowering follows the fields of nodes. -/
theorem lower_neverMiscounts (value : Json) (expected : Option Ty) :
    (lower value expected).NeverMiscounts := by
  cases value with
  | obj node =>
      exact lower_obj_neverMiscounts (fun part small => lower_neverMiscounts part) expected
  | _ =>
      rw [lower]
      · exact .fault rfl
      · intro node shape
        cases shape
termination_by sizeOf value
decreasing_by
  simp only [Json.obj.sizeOf_spec]
  omega

end Term

end SpecTranspiler

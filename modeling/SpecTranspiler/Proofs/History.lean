import SpecTranspiler.Proofs.Runs

/-!
# Lowering does not look at its log

A computation that lowers something never reads the warnings recorded before it, and never
takes one back. So it returns, or stops with, what it does on an empty log, and its own
warnings stand behind the earlier ones; those recorded before a fault stay too. `IgnoresLog`
states this of one computation. It is closed under sequencing, therefore it holds of
expressions and declarations, and a `Session` of requests on one log gives every request the
answer it has alone.
-/

namespace SpecTranspiler

namespace Lowering

variable {α β : Type}

/-- Whatever was recorded before, the computation ends as it does on an empty log, and its
warnings are appended to the log. -/
def IgnoresLog (action : Lowering α) : Prop :=
  ∀ earlier, action.runWith earlier = (action.runFresh.1, earlier ++ action.runFresh.2)

/-- What follows a computation runs as on an empty log, behind the warnings of the first. -/
theorem runFresh_bind {action : Lowering α} {next : α → Lowering β}
    (second : ∀ a, (next a).IgnoresLog) :
    (action >>= next).runFresh =
      match action.runFresh with
      | (.ok a, log) => ((next a).runFresh.1, log ++ (next a).runFresh.2)
      | (.error fault, log) => (.error fault, log) := by
  have fresh : action.runWith #[] = action.runFresh := rfl
  rw [runFresh, runWith_bind, fresh]
  rcases action.runFresh with ⟨fault | a, log⟩
  · rfl
  · exact second a log

namespace IgnoresLog

theorem pure (a : α) : IgnoresLog (Pure.pure a : Lowering α) := by
  intro earlier
  exact congrArg _ Array.append_empty.symm

theorem fault (fault : Fault) : IgnoresLog (throw fault : Lowering α) := by
  intro earlier
  exact congrArg _ Array.append_empty.symm

theorem read (reading : Except Fault α) : IgnoresLog (liftM reading : Lowering α) := by
  intro earlier
  exact congrArg _ Array.append_empty.symm

theorem warn (warning : Warning) : IgnoresLog (warn warning) := by
  intro earlier
  rfl

/-- A fault of the first part keeps what that part recorded, and the second part runs on a log
that it ignores. -/
theorem bind {action : Lowering α} {next : α → Lowering β} (first : action.IgnoresLog)
    (second : ∀ a, (next a).IgnoresLog) : (action >>= next).IgnoresLog := by
  intro earlier
  rw [runWith_bind, first earlier, runFresh_bind second]
  rcases action.runFresh with ⟨fault | a, log⟩
  · rfl
  · change (next a).runWith (earlier ++ log) = _
    rw [second a (earlier ++ log), Array.append_assoc]

theorem map {action : Lowering α} (f : α → β) (ignores : action.IgnoresLog) :
    (action >>= fun a => Pure.pure (f a)).IgnoresLog :=
  ignores.bind fun a => .pure (f a)

end IgnoresLog

end Lowering

namespace Term

/-- Operands that ignore the log are lowered one after the other in a run that ignores it. -/
theorem lowerEach_ignoresLog {args : List Json} (types : List (Option Ty))
    (operands : ∀ arg ∈ args, ∀ expected, (lower arg expected).IgnoresLog) :
    (lowerEach args types).IgnoresLog := by
  induction args generalizing types with
  | nil =>
      rw [lowerEach]
      · exact .pure []
      · exact fun _ _ _ _ impossible _ => (List.cons_ne_nil _ _ impossible.symm).elim
  | cons arg args ih =>
      cases types with
      | nil =>
          rw [lowerEach]
          · exact .pure []
          · exact fun _ _ _ _ _ impossible => (List.cons_ne_nil _ _ impossible.symm).elim
      | cons ty types =>
          rw [lowerEach]
          refine .bind (operands arg List.mem_cons_self ty) fun term => ?_
          exact .map _ (ih types fun other member =>
            operands other (List.mem_cons_of_mem _ member))

/-- Fields are lowered without regard to the log, if their values are. -/
theorem lowerFields_ignoresLog {context : String} {args : List Json}
    (operands : ∀ arg ∈ args, ∀ expected, (lower arg expected).IgnoresLog) :
    (lowerFields context args).IgnoresLog := by
  match args with
  | [] | [_] =>
      rw [lowerFields]
      · exact .pure []
      · intro label value rest shape
        cases shape
  | label :: value :: rest =>
      rw [lowerFields]
      refine .bind (.read _) fun node => .bind (.read _) fun name => ?_
      refine .bind (operands value (List.mem_cons_of_mem _ List.mem_cons_self) none)
        fun term => ?_
      exact .map _ (lowerFields_ignoresLog fun arg member =>
        operands arg (List.mem_cons_of_mem _ (List.mem_cons_of_mem _ member)))

/-- The application of an operator ignores the log, if its operands do. -/
theorem lowerApplication_ignoresLog {operator : Operator} {context : String}
    {expected : Option Ty} {args : List Json}
    (operands : ∀ arg ∈ args, ∀ expected, (lower arg expected).IgnoresLog) :
    (lowerApplication operator context expected args).IgnoresLog := by
  rw [lowerApplication.eq_def]
  cases operator with
  | sum | membership =>
      dsimp only
      split
      · next left right =>
          refine .bind (operands left (by simp) _) fun first => ?_
          exact .map _ (operands right (by simp) _)
      · exact .fault _
  | record =>
      dsimp only
      split
      · exact .fault _
      · cases expected with
        | none => exact .map _ (.warn _)
        | some ty => exact .map _ (lowerFields_ignoresLog operands)
  | tuple => exact .map _ (lowerEach_ignoresLog _ operands)
  | choice =>
      dsimp only
      split
      · next condition yes no =>
          refine .bind (operands condition (by simp) _) fun test => ?_
          refine .bind (operands yes (by simp) _) fun first => ?_
          exact .map _ (operands no (by simp) _)
      · exact .fault _
  | negation | keys =>
      dsimp only
      split
      · next operand => exact .map _ (operands operand (by simp) _)
      · exact .fault _
  | field =>
      dsimp only
      split
      · next base label =>
          refine .bind (operands base (by simp) _) fun term => ?_
          exact .bind (.read _) fun node => .map _ (.read _)
      · exact .fault _

end Term

/-- Lowering a definition ignores the log, if lowering the expressions inside does. -/
theorem Item.lowerDefinition_ignoresLog {node : Node}
    (inner : ∀ part : Json, sizeOf part < sizeOf node →
      ∀ expected, (Term.lower part expected).IgnoresLog) :
    (Item.lowerDefinition node).IgnoresLog := by
  rw [Item.lowerDefinition]
  refine .bind (.read _) fun name => .bind (.read _) fun qualifier => ?_
  dsimp only
  split
  · refine .bind (.read _) fun descriptor => .bind (.read _) fun ty => .bind (.read _) ?_
    rintro ⟨value, small⟩
    exact .map _ (inner value small (some ty))
  · refine .bind (.read _) ?_
    rintro ⟨params, result, body, small⟩
    exact .map _ (inner body small (some result))
  · refine .bind (.read _) ?_
    rintro ⟨value, small⟩
    exact .map _ (inner value small none)
  · exact .map _ (.warn _)

namespace Term

/-- Lowering a node ignores the log, if lowering the values inside does. -/
theorem lower_obj_ignoresLog {node : Node}
    (inner : ∀ part : Json, sizeOf part < sizeOf node →
      ∀ expected, (lower part expected).IgnoresLog) (expected : Option Ty) :
    (lower (.obj node) expected).IgnoresLog := by
  rw [lower]
  refine .bind (.read _) fun kind => ?_
  dsimp only
  split
  · exact .map _ (.read _)
  · exact .map _ (.read _)
  · exact .map _ (.read _)
  · exact .map _ (.read _)
  · refine .bind (.read _) ?_
    rintro ⟨definition, inside⟩
    refine .bind (.read _) fun qualifier => ?_
    dsimp only
    split
    · have within : (Item.lowerDefinition definition).IgnoresLog :=
        Item.lowerDefinition_ignoresLog fun part small =>
          inner part (Nat.lt_trans small inside)
      refine .bind within fun item => ?_
      split
      · refine .bind (.read _) ?_
        rintro ⟨body, small⟩
        exact .map _ (inner body small expected)
      · exact .pure _
    · exact .bind (.read _) fun label => .map _ (.warn _)
  · refine .bind (.read _) fun opcode => .bind (.read _) ?_
    rintro ⟨args, inside⟩
    dsimp only
    split
    · exact lowerApplication_ignoresLog fun arg member =>
        inner arg (Nat.lt_trans (List.sizeOf_lt_of_mem member) inside)
    · exact .map _ (.warn _)
  · exact .map _ (.warn _)

/-- Lowering an expression ignores the log. The induction is on the size of the value, since
lowering follows the fields of nodes. -/
theorem lower_ignoresLog (value : Json) (expected : Option Ty) :
    (lower value expected).IgnoresLog := by
  cases value with
  | obj node => exact lower_obj_ignoresLog (fun part small => lower_ignoresLog part) expected
  | _ =>
      rw [lower]
      · exact .fault _
      · intro node shape
        cases shape
termination_by sizeOf value
decreasing_by
  simp only [Json.obj.sizeOf_spec]
  omega

end Term

/-- Lowering a declaration ignores the log. -/
theorem Item.lower_ignoresLog (declaration : Json) : (Item.lower declaration).IgnoresLog := by
  rw [Item.lower]
  refine .bind (.read _) fun node => .bind (.read _) fun kind => ?_
  split
  · exact .map _ (.read _)
  · exact .pure _
  · exact Item.lowerDefinition_ignoresLog fun part _ => Term.lower_ignoresLog part
  · exact .map _ (.warn _)

/-- Something to lower: a type, an expression against an expected type, or a declaration. -/
inductive Request where
  | ty (descriptor : Json)
  | term (value : Json) (expected : Option Ty)
  | item (declaration : Json)

/-- What a request becomes. -/
inductive Answer where
  | ty (ty : Ty)
  | term (term : Term)
  | item (item : Option Item)

/-- Lower what is requested. -/
def Request.lower : Request → Lowering Answer
  | .ty descriptor => do return .ty (← Ty.ofDescriptor descriptor)
  | .term value expected => do return .term (← Term.lower value expected)
  | .item declaration => do return .item (← Item.lower declaration)

theorem Request.lower_ignoresLog (request : Request) : request.lower.IgnoresLog := by
  cases request with
  | ty descriptor => exact .map _ (.read _)
  | term value expected => exact .map _ (Term.lower_ignoresLog value expected)
  | item declaration => exact .map _ (Item.lower_ignoresLog declaration)

/-- Lower requests one after the other on one log. A request that stops with a fault does not
end the session. -/
def Session.run : List Request → Array Warning → List (Except Fault Answer) × Array Warning
  | [], log => ([], log)
  | request :: rest, log =>
      let (answer, log) := request.lower.runWith log
      let (answers, log) := run rest log
      (answer :: answers, log)

/-- A session answers every request as if it were alone, and records the warnings of the
requests in turn. -/
theorem Session.run_eq_isolated (requests : List Request) (earlier : Array Warning) :
    Session.run requests earlier =
      (requests.map fun request => request.lower.runFresh.1,
        earlier ++ (requests.flatMap fun request =>
          request.lower.runFresh.2.toList).toArray) := by
  induction requests generalizing earlier with
  | nil => exact congrArg _ Array.append_empty.symm
  | cons request rest ih =>
      rw [Session.run, request.lower_ignoresLog earlier]
      dsimp only
      rw [ih, List.map_cons, List.flatMap_cons, ← Lowering.append_warnings]

/-- **History does not matter.** On a log with any earlier warnings an expression and a
declaration give the result or the fault that they give on an empty log, and leave the earlier
warnings followed by those that the run on an empty log records, up to a fault if it ends in
one. Hence in a session of requests on one log, failed ones included, every answer is the
answer in isolation, and the warnings are those of the isolated runs in order. -/
theorem lowering_ignores_earlier_warnings :
    (∀ (value : Json) (expected : Option Ty) (earlier : Array Warning),
        (Term.lower value expected).runWith earlier =
          ((Term.lower value expected).runFresh.1,
            earlier ++ (Term.lower value expected).runFresh.2)) ∧
      (∀ (declaration : Json) (earlier : Array Warning),
        (Item.lower declaration).runWith earlier =
          ((Item.lower declaration).runFresh.1,
            earlier ++ (Item.lower declaration).runFresh.2)) ∧
      ∀ (requests : List Request) (earlier : Array Warning),
        Session.run requests earlier =
          (requests.map fun request => request.lower.runFresh.1,
            earlier ++ (requests.flatMap fun request =>
              request.lower.runFresh.2.toList).toArray) :=
  ⟨Term.lower_ignoresLog, Item.lower_ignoresLog, Session.run_eq_isolated⟩

end SpecTranspiler

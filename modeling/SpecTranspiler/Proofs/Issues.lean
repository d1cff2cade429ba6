import SpecTranspiler.Ir.Issue
import SpecTranspiler.Proofs.Layout

/-!
# Codes and messages of faults and warnings

A code names one kind of fault or one kind of warning, so that it can be looked up without the
message. A message shows everything that its fault or warning holds.
-/

namespace SpecTranspiler

namespace StandsIn

theorem last (front text : String) : StandsIn text (front ++ text) :=
  (refl text).appendRight front

theorem lastTicked (front text : String) : StandsIn text (front ++ ticked text) :=
  ((last "`" text).appendLeft "`").appendRight front

end StandsIn

namespace Fault

/-- Faults have the same code exactly if they are of the same kind. -/
theorem code_eq_iff {first second : Fault} :
    first.code = second.code ↔ first.ctorIdx = second.ctorIdx := by
  cases first <;> cases second <;> simp [code, Fault.ctorIdx]

/-- No fault has the code of a warning. -/
theorem code_ne_code (fault : Fault) (warning : Warning) : fault.code ≠ warning.code := by
  cases fault <;> cases warning <;> simp [code, Warning.code]

/-- What a fault holds, as it is shown. -/
def details : Fault → List String
  | unknownTypeKind kind => [kind]
  | missingField field context => [field, context]
  | wrongFieldType field expected context => [field, context, expected.describe]
  | expectedObject context => [context]
  | paramCountMismatch function names types => [function, toString names, toString types]
  | arityMismatch operator expected found => [operator, expected.describe, toString found]
  | invalidInteger value => [value.render]
  | invalidTypeId key => [key]

/-- The message of a fault shows all that the fault holds. -/
theorem message_shows (fault : Fault) : ∀ text ∈ fault.details, StandsIn text fault.message := by
  -- Each detail ends a front of the message, which is followed by the parts named.
  cases fault with
  | unknownTypeKind kind => exact List.forall_mem_singleton.mpr (.lastTicked ..)
  | missingField field context =>
      refine List.forall_mem_cons.mpr ⟨?_, List.forall_mem_singleton.mpr (.last ..)⟩
      exact ((StandsIn.lastTicked ..).appendLeft " in ").appendLeft context
  | wrongFieldType field expected context =>
      have placed : StandsIn field ("field " ++ ticked field ++ " in " ++ context) :=
        ((StandsIn.lastTicked ..).appendLeft " in ").appendLeft context
      have ended {text front : String} (shown : StandsIn text front) :
          StandsIn text (front ++ " must be " ++ expected.describe) :=
        (shown.appendLeft " must be ").appendLeft expected.describe
      refine List.forall_mem_cons.mpr ⟨ended placed, ?_⟩
      exact List.forall_mem_cons.mpr
        ⟨ended (.last ..), List.forall_mem_singleton.mpr (.last ..)⟩
  | expectedObject context =>
      exact List.forall_mem_singleton.mpr ((StandsIn.last ..).appendLeft _)
  | paramCountMismatch function names types =>
      have placed : StandsIn function ("function " ++ ticked function ++ " has " ++
          toString names) :=
        ((StandsIn.lastTicked ..).appendLeft " has ").appendLeft (toString names)
      have ended {text front : String} (shown : StandsIn text front) :
          StandsIn text (front ++ " parameter name(s) but " ++ toString types ++
            " parameter type(s)") :=
        ((shown.appendLeft _).appendLeft (toString types)).appendLeft _
      refine List.forall_mem_cons.mpr ⟨ended placed, ?_⟩
      exact List.forall_mem_cons.mpr
        ⟨ended (.last ..), List.forall_mem_singleton.mpr ((StandsIn.last ..).appendLeft _)⟩
  | arityMismatch operator expected found =>
      have placed : StandsIn operator ("operator " ++ ticked operator ++ " expects " ++
          expected.describe) :=
        ((StandsIn.lastTicked ..).appendLeft " expects ").appendLeft expected.describe
      have ended {text front : String} (shown : StandsIn text front) :
          StandsIn text (front ++ " argument(s), found " ++ toString found) :=
        (shown.appendLeft _).appendLeft (toString found)
      refine List.forall_mem_cons.mpr ⟨ended placed, ?_⟩
      exact List.forall_mem_cons.mpr
        ⟨ended (.last ..), List.forall_mem_singleton.mpr (.last ..)⟩
  | invalidInteger value =>
      exact List.forall_mem_singleton.mpr ((StandsIn.last ..).appendLeft _)
  | invalidTypeId key =>
      exact List.forall_mem_singleton.mpr ((StandsIn.lastTicked ..).appendLeft _)

end Fault

namespace Warning

/-- Warnings have the same code exactly if they are of the same kind. -/
theorem code_eq_iff {first second : Warning} :
    first.code = second.code ↔ first.ctorIdx = second.ctorIdx := by
  cases first <;> cases second <;> simp [code, Warning.ctorIdx]

/-- What a warning holds, as it is shown. -/
def details : Warning → List String
  | unsupportedQualifier name qualifier => [name, qualifier]
  | unsupportedDeclKind kind => [kind]
  | unsupportedExprKind kind => [kind]
  | unsupportedOpcode opcode => [opcode]
  | recordWithoutExpectedType => []
  | unsupportedLetBinding name qualifier => [name, qualifier]
  | topLevelVal name => [name]

/-- The message of a warning shows all that the warning holds. -/
theorem message_shows (warning : Warning) :
    ∀ text ∈ warning.details, StandsIn text warning.message := by
  cases warning with
  | unsupportedQualifier name qualifier =>
      refine List.forall_mem_cons.mpr ⟨.lastTicked .., List.forall_mem_singleton.mpr ?_⟩
      exact ((StandsIn.lastTicked ..).appendLeft _).appendLeft (ticked name)
  | unsupportedDeclKind kind | unsupportedExprKind kind | unsupportedOpcode kind
  | topLevelVal kind =>
      exact List.forall_mem_singleton.mpr ((StandsIn.lastTicked ..).appendLeft _)
  | recordWithoutExpectedType => exact List.forall_mem_nil _
  | unsupportedLetBinding name qualifier =>
      have placed : StandsIn name ("let binding " ++ ticked name ++ " has qualifier " ++
          ticked qualifier) :=
        ((StandsIn.lastTicked ..).appendLeft _).appendLeft (ticked qualifier)
      refine List.forall_mem_cons.mpr ⟨placed.appendLeft _, ?_⟩
      exact List.forall_mem_singleton.mpr ((StandsIn.lastTicked ..).appendLeft _)

end Warning

end SpecTranspiler

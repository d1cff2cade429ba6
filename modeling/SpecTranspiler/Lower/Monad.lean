import SpecTranspiler.Ir.Issue

/-!
# Lowering with warnings

Lowering a node may fail and may warn. The warnings recorded before a fault stay recorded,
so that one log can serve any number of runs, failed ones included.
-/

namespace SpecTranspiler

/-- A computation that may stop with a fault and records warnings. -/
abbrev Lowering := ExceptT Fault (StateM (Array Warning))

namespace Lowering

/-- Record a warning. -/
def warn (warning : Warning) : Lowering Unit :=
  modify (·.push warning)

/-- The result of a computation with its own warnings and those recorded before it. -/
def runWith {α : Type} (action : Lowering α) (earlier : Array Warning) :
    Except Fault α × Array Warning :=
  (ExceptT.run action).run earlier

/-- The result of a computation with its warnings. -/
def runFresh {α : Type} (action : Lowering α) : Except Fault α × Array Warning :=
  action.runWith #[]

end Lowering

end SpecTranspiler

import SpecTranspiler.Decimal.Binary64

/-!
# JSON values

The members of an object are listed in the order in which they are written. Values that
were read from a text list them by ascending key, each key once.
-/

namespace SpecTranspiler

/-- A number: an integer written as such, or a 64-bit float. -/
inductive Json.Number where
  | int (value : Int)
  | float (value : Binary64)
  deriving DecidableEq, Repr

/-- A JSON value. -/
inductive Json where
  | null
  | bool (value : Bool)
  | num (value : Json.Number)
  | str (value : String)
  | arr (elements : List Json)
  | obj (members : List (String × Json))
  deriving Repr, Inhabited

namespace Json

/-- The unsigned 64-bit integer of a number. There is none for a number that is negative, too
large or not whole. -/
def Number.toUInt64? : Number → Option UInt64
  | .int value =>
      if 0 ≤ value ∧ value < UInt64.size then some (UInt64.ofNat value.toNat) else none
  | .float value =>
      if value.isWhole && value.isNonneg && value.isBelow UInt64.size then some value.toUInt64
      else none

/-- A natural as a value. -/
def ofNat (n : Nat) : Json :=
  .num (.int n)

/-- A list of texts as a value. -/
def ofStrings (texts : List String) : Json :=
  .arr (texts.map .str)

end Json

end SpecTranspiler

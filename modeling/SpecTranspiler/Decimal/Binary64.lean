/-!
# Finite 64-bit floats

A float is a sign and a magnitude `mantissa * 2 ^ exponent`, and every operation is
the exact one on naturals followed by one rounding to the nearest magnitude of 53
bits. `Magnitude.scale?` reads a decimal significand with a power of ten the way the
number grammar asks for: the significand is rounded first and multiplied or divided
after, so that the result may differ from the nearest float in its last bit.
-/

namespace SpecTranspiler

/-- The power of two, which is one where the exponent is negative. -/
def powTwo (exponent : Int) : Nat :=
  Nat.pow 2 exponent.toNat

/-- The power of ten, which is one where the exponent is negative. -/
def powTen (exponent : Int) : Nat :=
  Nat.pow 10 exponent.toNat

/-- The natural nearest to a quotient; a half goes to the even neighbour. -/
def roundDiv (num den : Nat) : Nat :=
  let floor := num / den
  let rest := num % den
  if 2 * rest < den then floor
  else if den < 2 * rest then floor + 1
  else if floor % 2 = 0 then floor
  else floor + 1

/-- The non-negative number `mantissa * 2 ^ exponent`. -/
structure Magnitude where
  mantissa : Nat
  exponent : Int
  deriving DecidableEq, Repr

namespace Magnitude

/-- The least mantissa of 53 bits, which all magnitudes but the least ones reach. -/
def minNormal : Nat := 0x10000000000000

/-- The least exponent, which zero and the subnormal magnitudes have. -/
def minExponent : Int := -1074

/-- The exponent of the greatest finite magnitudes. -/
def maxExponent : Int := 971

/-- The magnitude nearest to a quotient of naturals, if it is finite. -/
def ofRatio? (num den : Nat) : Option Magnitude :=
  if num = 0 then
    some ⟨0, minExponent⟩
  else
    let guess : Int := (num.log2 : Int) - den.log2
    let top := if num * powTwo (-guess) < den * powTwo guess then guess - 1 else guess
    let exponent := if top - 52 < minExponent then minExponent else top - 52
    let mantissa := roundDiv (num * powTwo (-exponent)) (den * powTwo exponent)
    let rounded : Magnitude :=
      if mantissa = 2 * minNormal then ⟨minNormal, exponent + 1⟩ else ⟨mantissa, exponent⟩
    if rounded.exponent ≤ maxExponent then some rounded else none

/-- The magnitude nearest to a natural. -/
def ofNat? (n : Nat) : Option Magnitude :=
  ofRatio? n 1

/-- The rounded product. -/
def mul? (x y : Magnitude) : Option Magnitude :=
  let exponent := x.exponent + y.exponent
  ofRatio? (x.mantissa * y.mantissa * powTwo exponent) (powTwo (-exponent))

/-- The rounded quotient. -/
def div? (x y : Magnitude) : Option Magnitude :=
  let exponent := x.exponent - y.exponent
  ofRatio? (x.mantissa * powTwo exponent) (y.mantissa * powTwo (-exponent))

/-- Multiply by the magnitude nearest to a power of ten. -/
def mulPow? (x : Magnitude) (power : Nat) : Option Magnitude :=
  (ofNat? (powTen power)).bind x.mul?

/-- Divide by the magnitude nearest to a power of ten. -/
def divPow? (x : Magnitude) (power : Nat) : Option Magnitude :=
  (ofNat? (powTen power)).bind x.div?

/-- The greatest power of ten that is finite. -/
def maxPower : Nat := 308

/-- Divide by `10 ^ maxPower` a number of times, stopping at zero. -/
def divMaxPow? : Nat → Magnitude → Option Magnitude
  | 0, x => some x
  | times + 1, x =>
      if x.mantissa = 0 then some x
      else
        match x.divPow? maxPower with
        | some smaller => divMaxPow? times smaller
        | none => none

/-- Multiply by a power of ten: in one step up to `10 ^ maxPower`, and below its inverse
in steps of it. There is no result when it is too large. -/
def scale? (x : Magnitude) (power : Int) : Option Magnitude :=
  if power < 0 then
    let steps := (-power - 1).toNat / maxPower
    (divMaxPow? steps x).bind fun smaller =>
      if smaller.mantissa = 0 then some smaller
      else smaller.divPow? ((-power).toNat - steps * maxPower)
  else if power ≤ maxPower then x.mulPow? power.toNat
  else if x.mantissa = 0 then some x
  else none

/-- The whole part of a magnitude. -/
def floor (x : Magnitude) : Nat :=
  x.mantissa * powTwo x.exponent / powTwo (-x.exponent)

/-- The magnitude has nothing behind the point. -/
def isWhole (x : Magnitude) : Bool :=
  x.mantissa * powTwo x.exponent % powTwo (-x.exponent) == 0

/-- The magnitude is less than a natural. -/
def isBelow (x : Magnitude) (n : Nat) : Bool :=
  decide (x.mantissa * powTwo x.exponent < n * powTwo (-x.exponent))

end Magnitude

/-- A finite 64-bit float. Zero has a sign. -/
structure Binary64 where
  negative : Bool
  magnitude : Magnitude
  deriving DecidableEq, Repr

namespace Binary64

/-- The float `significand * 10 ^ power` with a sign, if it is in range. -/
def ofDecimal? (negative : Bool) (significand : Nat) (power : Int) : Option Binary64 :=
  ((Magnitude.ofNat? significand).bind (·.scale? power)).map (⟨negative, ·⟩)

/-- Zero with a sign. -/
def zero (negative : Bool) : Binary64 :=
  ⟨negative, ⟨0, Magnitude.minExponent⟩⟩

/-- The float has nothing behind the point. -/
def isWhole (x : Binary64) : Bool :=
  x.magnitude.isWhole

/-- The float is at least zero. Both zeros are. -/
def isNonneg (x : Binary64) : Bool :=
  !x.negative || x.magnitude.mantissa == 0

/-- The float is less than a natural. -/
def isBelow (x : Binary64) (n : Nat) : Bool :=
  !x.isNonneg || x.magnitude.isBelow n

/-- The whole part of a float, moved into the range of unsigned 64-bit integers. -/
def toUInt64 (x : Binary64) : UInt64 :=
  if x.negative then 0
  else if x.magnitude.floor < UInt64.size then UInt64.ofNat x.magnitude.floor
  else UInt64.ofNat (UInt64.size - 1)

end Binary64

end SpecTranspiler

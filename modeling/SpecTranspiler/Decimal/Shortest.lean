import SpecTranspiler.Decimal.Binary64

/-!
# The shortest decimal of a float

`Magnitude.shortest` gives the fewest decimal digits that round back to a magnitude,
and of those the nearest to it. A grid of one, two, … digits is tried in turn: on each
the two neighbours of the magnitude are tested against the interval of numbers that
round to it, in exact arithmetic on naturals. `FloatStyle` says how the digits are
written out.
-/

namespace SpecTranspiler

/-- The number `digits * 10 ^ power`. -/
structure Decimal where
  digits : Nat
  power : Int
  deriving DecidableEq, Repr

/-- The number of decimal digits of a natural. -/
def digitCount (n : Nat) : Nat :=
  (Nat.toDigits 10 n).length

/-- The largest `k` with `10 ^ k ≤ num / den`. -/
def floorLog (num den : Nat) : Int :=
  if den ≤ num then (digitCount (num / den) : Int) - 1
  else -(digitCount ((den + num - 1) / num - 1) : Int)

namespace Magnitude

/-- A quarter of the unit in the last place, as a quotient of powers of two. -/
def quarterUnit (x : Magnitude) : Nat × Nat :=
  (powTwo (x.exponent - 2), powTwo (2 - x.exponent))

/-- The quarters of the last place that reach down to the next lower magnitude's half
way. Below a power of two the magnitudes lie twice as close. -/
def lowQuarters (x : Magnitude) : Nat :=
  if x.mantissa = minNormal ∧ minExponent < x.exponent then 4 * x.mantissa - 1
  else 4 * x.mantissa - 2

/-- The decimal rounds to the magnitude: it lies between the half ways to the two
neighbours, whose ends count when the mantissa is even. -/
def admits (x : Magnitude) (decimal : Decimal) : Bool :=
  let (up, down) := x.quarterUnit
  let point := decimal.digits * powTen decimal.power * down
  let scale := powTen (-decimal.power) * up
  let low := x.lowQuarters * scale
  let high := (4 * x.mantissa + 2) * scale
  if x.mantissa % 2 = 0 then low ≤ point && point ≤ high else low < point && point < high

/-- The decimal on the grid `10 ^ power` that rounds to the magnitude and is nearest to
it, if one of the two neighbours does. A tie goes to the even digit. -/
def onGrid? (x : Magnitude) (power : Int) : Option Decimal :=
  let (up, down) := x.quarterUnit
  let num := 4 * x.mantissa * up * powTen (-power)
  let den := down * powTen power
  let below : Decimal := ⟨num / den, power⟩
  let above : Decimal := ⟨num / den + 1, power⟩
  match x.admits below, x.admits above with
  | true, true => some ⟨roundDiv num den, power⟩
  | true, false => some below
  | false, true => some above
  | false, false => none

/-- Try grids of more and more digits, from the leading power of ten downwards. -/
def searchGrids (x : Magnitude) : Nat → Int → Decimal
  | 0, power => (x.onGrid? power).getD ⟨0, 0⟩
  | more + 1, power =>
      match x.onGrid? power with
      | some decimal => decimal
      | none => x.searchGrids more (power - 1)

/-- The fewest digits that read back as the magnitude. Seventeen always do. -/
def shortest (x : Magnitude) : Decimal :=
  if x.mantissa = 0 then ⟨0, 0⟩
  else
    let (up, down) := x.quarterUnit
    x.searchGrids 16 (floorLog (4 * x.mantissa * up) down)

end Magnitude

/-- How digits are written out: decimals whose leading digit counts a power of ten from
`least` to `most` are written positionally, the others with an exponent. -/
structure FloatStyle where
  least : Int
  most : Int

namespace FloatStyle

/-- Digits with the point after the digit of the units. -/
def positional (digits : List Char) (lead : Int) : List Char :=
  if lead < 0 then
    '0' :: '.' :: List.replicate (-lead - 1).toNat '0' ++ digits
  else
    let units := lead.toNat + 1
    let whole := digits.take units ++ List.replicate (units - digits.length) '0'
    match digits.drop units with
    | [] => whole ++ ['.', '0']
    | fraction => whole ++ '.' :: fraction

/-- Digits with the point after the first one, and the power of ten with its sign. -/
def scientific (digits : List Char) (lead : Int) : List Char :=
  let mark := if lead < 0 then ['e', '-'] else ['e', '+']
  let power := mark ++ Nat.toDigits 10 lead.natAbs
  match digits with
  | first :: second :: more => first :: '.' :: second :: more ++ power
  | few => few ++ power

/-- The digits of a decimal without the zeros at its end. -/
def significantDigits (decimal : Decimal) : List Char :=
  ((Nat.toDigits 10 decimal.digits).reverse.dropWhile (· == '0')).reverse

/-- The text of a decimal that is not zero. -/
def decimal (style : FloatStyle) (value : Decimal) : List Char :=
  let lead := value.power + digitCount value.digits - 1
  let digits := significantDigits value
  if style.least ≤ lead ∧ lead ≤ style.most then positional digits lead
  else scientific digits lead

/-- The text of a float: its sign, then its shortest decimal. -/
def render (style : FloatStyle) (x : Binary64) : String :=
  let unsigned :=
    if x.magnitude.mantissa = 0 then ['0', '.', '0']
    else style.decimal x.magnitude.shortest
  String.ofList (if x.negative then '-' :: unsigned else unsigned)

end FloatStyle

end SpecTranspiler

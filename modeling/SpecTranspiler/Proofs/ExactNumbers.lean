import Mathlib
import SpecTranspiler.Json.Basic

/-!
# Numbers as rationals

A float is the rational `mantissa * 2 ^ exponent` with its sign, and so every number of a document
is a rational. The tests on floats are tests on the rational, and the conversion to an unsigned
integer is its floor, moved into range. `Json.Number.toUInt64?_eq_some` says that a number is read
as an unsigned integer exactly when it is equal to it: behind the tests, the conversion neither
rounds nor moves anything.
-/

namespace SpecTranspiler

theorem powTwo_pos (exponent : Int) : 0 < powTwo exponent :=
  Nat.pow_pos (by decide)

theorem cast_powTwo {exponent : Int} (nonneg : 0 ≤ exponent) :
    (powTwo exponent : ℚ) = 2 ^ exponent := by
  obtain ⟨power, rfl⟩ := Int.eq_ofNat_of_zero_le nonneg
  change ((2 ^ power : ℕ) : ℚ) = 2 ^ (power : ℤ)
  rw [Nat.cast_pow, Nat.cast_ofNat, zpow_natCast]

theorem powTwo_of_nonpos {exponent : Int} (nonpos : exponent ≤ 0) : powTwo exponent = 1 := by
  rw [powTwo, Int.toNat_eq_zero.mpr nonpos]

namespace Magnitude

/-- The rational that a magnitude is. -/
def toRat (x : Magnitude) : ℚ :=
  x.mantissa * 2 ^ x.exponent

theorem toRat_nonneg (x : Magnitude) : 0 ≤ x.toRat := by
  unfold toRat
  positivity

theorem toRat_eq_zero {x : Magnitude} : x.toRat = 0 ↔ x.mantissa = 0 := by
  have power : (2 : ℚ) ^ x.exponent ≠ 0 := zpow_ne_zero _ two_ne_zero
  rw [toRat, mul_eq_zero, or_iff_left power, Nat.cast_eq_zero]

/-- A magnitude is a quotient of naturals, one of which has no power of two. -/
theorem toRat_eq_div (x : Magnitude) :
    x.toRat = (x.mantissa * powTwo x.exponent : ℕ) / (powTwo (-x.exponent) : ℕ) := by
  by_cases nonneg : 0 ≤ x.exponent
  · rw [powTwo_of_nonpos (show -x.exponent ≤ 0 by omega), Nat.cast_one, div_one, Nat.cast_mul,
      cast_powTwo nonneg, toRat]
  · rw [powTwo_of_nonpos (show x.exponent ≤ 0 by omega), mul_one, cast_powTwo (by omega), zpow_neg,
      div_inv_eq_mul, toRat]

theorem floor_eq (x : Magnitude) : x.floor = ⌊x.toRat⌋₊ := by
  rw [toRat_eq_div, Nat.floor_div_eq_div, floor]

theorem isBelow_iff {x : Magnitude} {n : Nat} : x.isBelow n = true ↔ x.toRat < n := by
  have positive : (0 : ℚ) < powTwo (-x.exponent) := Nat.cast_pos.mpr (powTwo_pos _)
  rw [isBelow, decide_eq_true_iff, toRat_eq_div, div_lt_iff₀ positive, ← Nat.cast_mul,
    Nat.cast_lt]

theorem isWhole_iff {x : Magnitude} : x.isWhole = true ↔ ∃ n : ℕ, x.toRat = n := by
  have nonzero : (powTwo (-x.exponent) : ℚ) ≠ 0 := Nat.cast_ne_zero.mpr (powTwo_pos _).ne'
  rw [isWhole, beq_iff_eq, ← Nat.dvd_iff_mod_eq_zero, dvd_iff_exists_eq_mul_left]
  refine exists_congr fun n => ?_
  rw [toRat_eq_div, div_eq_iff nonzero, ← Nat.cast_mul, Nat.cast_inj]

end Magnitude

namespace Binary64

/-- The rational that a float is. Both zeros are zero. -/
def toRat (x : Binary64) : ℚ :=
  if x.negative then -x.magnitude.toRat else x.magnitude.toRat

theorem isNonneg_iff {x : Binary64} : x.isNonneg = true ↔ 0 ≤ x.toRat := by
  have nonneg := x.magnitude.toRat_nonneg
  unfold isNonneg toRat
  cases x.negative with
  | false => simpa using nonneg
  | true =>
      rw [Bool.not_true, Bool.false_or, beq_iff_eq, ← Magnitude.toRat_eq_zero, if_pos rfl,
        Left.nonneg_neg_iff]
      exact ⟨le_of_eq, fun nonpos => le_antisymm nonpos nonneg⟩

theorem abs_toRat (x : Binary64) : |x.toRat| = x.magnitude.toRat := by
  unfold toRat
  split
  · rw [abs_neg, abs_of_nonneg x.magnitude.toRat_nonneg]
  · rw [abs_of_nonneg x.magnitude.toRat_nonneg]

/-- A float that is at least zero is its magnitude, also where its sign is negative. -/
theorem toRat_of_nonneg {x : Binary64} (nonneg : 0 ≤ x.toRat) : x.toRat = x.magnitude.toRat := by
  rw [← abs_toRat, abs_of_nonneg nonneg]

theorem isBelow_iff {x : Binary64} {n : Nat} : x.isBelow n = true ↔ x.toRat < n := by
  rw [isBelow, Bool.or_eq_true, Bool.not_eq_true', ← Bool.not_eq_true, isNonneg_iff, not_le,
    Magnitude.isBelow_iff]
  by_cases nonneg : 0 ≤ x.toRat
  · rw [toRat_of_nonneg nonneg, or_iff_right (not_lt.mpr x.magnitude.toRat_nonneg)]
  · have negative : x.toRat < 0 := not_le.mp nonneg
    exact iff_of_true (.inl negative) (lt_of_lt_of_le negative (Nat.cast_nonneg n))

theorem isWhole_iff {x : Binary64} : x.isWhole = true ↔ ∃ n : ℤ, x.toRat = n := by
  rw [isWhole, Magnitude.isWhole_iff, ← abs_toRat]
  constructor
  · intro whole
    obtain ⟨n, same⟩ := whole
    rcases (abs_eq (Nat.cast_nonneg n)).mp same with positive | negative
    · exact ⟨n, by rw [positive, Int.cast_natCast]⟩
    · exact ⟨-n, by rw [negative, Int.cast_neg, Int.cast_natCast]⟩
  · intro whole
    obtain ⟨n, same⟩ := whole
    exact ⟨n.natAbs, by rw [same, ← Int.cast_abs, Int.abs_eq_natAbs, Int.cast_natCast]⟩

/-- The conversion is the floor, except that what is out of range becomes the bound it is beyond. -/
theorem toNat_toUInt64 (x : Binary64) :
    x.toUInt64.toNat = min ⌊x.toRat⌋₊ (UInt64.size - 1) := by
  have range : UInt64.size - 1 < UInt64.size := by decide
  unfold toUInt64 toRat
  by_cases negative : x.negative = true
  · have nonpos : -x.magnitude.toRat ≤ 0 := neg_nonpos.mpr x.magnitude.toRat_nonneg
    rw [if_pos negative, if_pos negative, Nat.floor_of_nonpos nonpos, Nat.zero_min,
      UInt64.toNat_zero]
  · rw [if_neg negative, if_neg negative, ← Magnitude.floor_eq]
    by_cases small : x.magnitude.floor < UInt64.size
    · rw [if_pos small, UInt64.toNat_ofNat_of_lt' small]
      omega
    · rw [if_neg small, UInt64.toNat_ofNat_of_lt' range]
      omega

/-- The tests let through the naturals below the bound. -/
theorem passes_iff {x : Binary64} {bound : Nat} :
    (x.isWhole && x.isNonneg && x.isBelow bound) = true ↔ ∃ n : ℕ, n < bound ∧ x.toRat = n := by
  simp only [Bool.and_eq_true, isWhole_iff, isNonneg_iff, isBelow_iff]
  constructor
  · intro passed
    obtain ⟨⟨⟨m, same⟩, nonneg⟩, below⟩ := passed
    rw [same] at nonneg below
    lift m to ℕ using Int.cast_nonneg_iff.mp nonneg
    rw [Int.cast_natCast] at same below
    exact ⟨m, Nat.cast_lt.mp below, same⟩
  · intro natural
    obtain ⟨n, small, same⟩ := natural
    rw [same]
    exact ⟨⟨⟨n, (Int.cast_natCast n).symm⟩, Nat.cast_nonneg n⟩, Nat.cast_lt.mpr small⟩

end Binary64

namespace Json.Number

/-- The rational that a number is. -/
def toRat : Number → ℚ
  | .int value => value
  | .float value => value.toRat

/-- A natural below the bound is the unsigned integer with its value. -/
theorem ofNat_eq_iff {m : Nat} {n : UInt64} (small : m < UInt64.size) :
    UInt64.ofNat m = n ↔ m = n.toNat := by
  constructor
  · rintro rfl
    exact (UInt64.toNat_ofNat_of_lt' small).symm
  · rintro rfl
    exact UInt64.ofNat_toNat

/-- A number is read as the unsigned integer that it is equal to. -/
theorem toUInt64?_eq_some {number : Number} {n : UInt64} :
    number.toUInt64? = some n ↔ number.toRat = n.toNat := by
  have bound : n.toNat < UInt64.size := n.toNat_lt_size
  cases number with
  | int value =>
      have cast : (value : ℚ) = n.toNat ↔ value = n.toNat := by
        exact_mod_cast Iff.rfl
      rw [toUInt64?, toRat, cast]
      by_cases inside : 0 ≤ value ∧ value < UInt64.size
      · rw [if_pos inside, Option.some.injEq, ofNat_eq_iff (by omega)]
        omega
      · rw [if_neg inside]
        exact iff_of_false (by simp) fun same => inside (by omega)
  | float value =>
      rw [toUInt64?, toRat]
      by_cases passed : (value.isWhole && value.isNonneg && value.isBelow UInt64.size) = true
      · rw [if_pos passed, Option.some.injEq, ← UInt64.toNat_inj, Binary64.toNat_toUInt64]
        obtain ⟨m, small, same⟩ := Binary64.passes_iff.mp passed
        rw [same, Nat.floor_natCast, Nat.cast_inj]
        omega
      · rw [if_neg passed]
        refine iff_of_false (by simp) fun same => passed ?_
        exact Binary64.passes_iff.mpr ⟨n.toNat, bound, same⟩

/-- A number is read as an unsigned integer exactly when it is one below `2 ^ 64`. -/
theorem exists_toUInt64?_eq_some {number : Number} :
    (∃ n, number.toUInt64? = some n) ↔ ∃ n : Nat, n < 2 ^ 64 ∧ number.toRat = n := by
  constructor
  · rintro ⟨n, read⟩
    exact ⟨n.toNat, n.toNat_lt, toUInt64?_eq_some.mp read⟩
  · rintro ⟨n, small, same⟩
    refine ⟨UInt64.ofNat n, toUInt64?_eq_some.mpr ?_⟩
    rw [same, UInt64.toNat_ofNat_of_lt' small]

end Json.Number

end SpecTranspiler

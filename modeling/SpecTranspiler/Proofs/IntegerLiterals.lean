import SpecTranspiler.Proofs.ExactNumbers
import SpecTranspiler.Proofs.PrintedJson
import SpecTranspiler.Proofs.Reading
import SpecTranspiler.Proofs.Runs
import SpecTranspiler.Proofs.TypeIndex

/-!
# Integer literals

An integer of a document is a number of any kind: an integer written as such or a float. Lowering
takes exactly the numbers that are unsigned 64-bit integers, as what they are, and writes them as
their decimal numerals. `IsNumeral` says which text is the numeral of a natural; there is only one.
-/

namespace SpecTranspiler

/-- The text is the decimal numeral of a natural: digits of its value, without a zero in front of
others. -/
structure IsNumeral (text : List Char) (n : Nat) : Prop where
  digits : ∀ c ∈ text, c.isDigit = true
  nonempty : text ≠ []
  noLeadingZero : ∀ rest, text = '0' :: rest → rest = []
  value : Nat.ofDigitChars 10 text 0 = n

theorem isNumeral_toDigits (n : Nat) : IsNumeral (Nat.toDigits 10 n) n where
  digits _ member := Nat.isDigit_of_mem_toDigits (by decide) (by decide) member
  nonempty := Nat.toDigits_ne_nil
  noLeadingZero rest zero := by
    by_cases positive : 0 < n
    · obtain ⟨c, more, first, nonzero⟩ := Json.toDigits_head positive
      rw [first] at zero
      exact absurd (List.cons.inj zero).1 nonzero
    · obtain rfl : n = 0 := Nat.eq_zero_of_not_pos positive
      exact (List.cons.inj zero).2.symm
  value := Nat.ofDigitChars_ten_toDigits

/-- Digits behind a numeral are the last digits of a greater one. -/
theorem toDigits_append_digits {n : Nat} (positive : 0 < n) {text : List Char}
    (digits : ∀ c ∈ text, c.isDigit = true) :
    Nat.toDigits 10 n ++ text = Nat.toDigits 10 (Nat.ofDigitChars 10 text n) := by
  induction text generalizing n with
  | nil => rw [List.append_nil, Nat.ofDigitChars_nil]
  | cons c text ih =>
      obtain ⟨first, others⟩ := List.forall_mem_cons.mp digits
      obtain ⟨digit, rfl⟩ := TypeNames.isDigit_iff_digitChar.mp first
      have next := Nat.toDigits_append_toDigits (by decide : 1 < 10) positive digit.isLt
      rw [Nat.toDigits_of_lt_base digit.isLt] at next
      rw [Function.comp_apply, Nat.ofDigitChars_cons_digitChar_of_lt_ten digit.isLt,
        ← ih (by omega) others, ← next, List.append_assoc, List.singleton_append]

theorem IsNumeral.eq_toDigits {text : List Char} {n : Nat} (numeral : IsNumeral text n) :
    text = Nat.toDigits 10 n := by
  obtain ⟨digits, nonempty, noLeadingZero, value⟩ := numeral
  obtain ⟨c, text, rfl⟩ := List.exists_cons_of_ne_nil nonempty
  obtain ⟨first, others⟩ := List.forall_mem_cons.mp digits
  obtain ⟨digit, rfl⟩ := TypeNames.isDigit_iff_digitChar.mp first
  rw [Function.comp_apply, Nat.ofDigitChars_cons_digitChar_of_lt_ten digit.isLt] at value
  rw [← value, Function.comp_apply]
  by_cases zero : digit = 0
  · subst zero
    rw [noLeadingZero text rfl]
    rfl
  · have positive : 0 < digit.val := Fin.pos_iff_ne_zero.mpr zero
    rw [Nat.mul_zero, Nat.zero_add, ← toDigits_append_digits positive others,
      Nat.toDigits_of_lt_base digit.isLt, List.singleton_append]

theorem isNumeral_iff {text : List Char} {n : Nat} :
    IsNumeral text n ↔ text = Nat.toDigits 10 n := by
  refine ⟨IsNumeral.eq_toDigits, fun same => ?_⟩
  rw [same]
  exact isNumeral_toDigits n

/-- An unsigned integer is written as its numeral, and behind it the name of its type. -/
theorem Literal.render_uint64_iff {n : UInt64} {text : String} :
    (Literal.uint64 n).render = text ++ "_u64" ↔ IsNumeral text.toList n.toNat := by
  have digits : (toString n.toNat).toList = Nat.toDigits 10 n.toNat := Nat.toList_repr
  rw [isNumeral_iff, render, ← String.toList_inj, String.toList_append, String.toList_append,
    List.append_cancel_right_eq, digits, eq_comm]

namespace Term

variable {node : Node} {number : Json.Number}

/-- An integer node is lowered by reading its number. -/
theorem lower_int (kindField : node.lookup "kind" = some (.str "int"))
    (valueField : node.lookup "value" = some (.num number)) (expected : Option Ty)
    (earlier : Array Warning) :
    (lower (.obj node) expected).runWith earlier =
      match number.toUInt64? with
      | some n => (.ok (.literal (.uint64 n)), earlier)
      | none => (.error (.invalidInteger number), earlier) := by
  have kind : node.string "kind" "expression" = .ok "int" := Node.string_eq_ok.mpr kindField
  rw [lower, kind]
  change ((liftM (node.uint64 "value" _) : Lowering UInt64) >>= fun n =>
    pure (Term.literal (.uint64 n))).runWith earlier = _
  rw [Node.uint64, valueField]
  dsimp only
  cases number.toUInt64? with
  | none => rfl
  | some n => rfl

/-- **Integer literals are exact.** An integer node becomes a literal exactly if its number is an
unsigned 64-bit integer, which is then the one of the literal. Any other number is refused as no
integer. The text of a literal is the numeral of its integer, with the name of the type behind it,
and the integer is read back from it. -/
theorem integer_literals_are_exact (kindField : node.lookup "kind" = some (.str "int"))
    (valueField : node.lookup "value" = some (.num number)) (expected : Option Ty)
    (earlier : Array Warning) :
    (∀ n : UInt64, (lower (.obj node) expected).runWith earlier =
        (.ok (.literal (.uint64 n)), earlier) ↔ number.toRat = n.toNat) ∧
    ((lower (.obj node) expected).runWith earlier = (.error (.invalidInteger number), earlier) ↔
      ¬ ∃ n : ℕ, n < 2 ^ 64 ∧ number.toRat = n) ∧
    ∀ (n : UInt64) (width level : Nat),
      (∀ text, (literal (.uint64 n)).render width level = text ++ "_u64" ↔
        IsNumeral text.toList n.toNat) ∧
      numeral? ((literal (.uint64 n)).render width level) = some n := by
  refine ⟨fun n => ?_, ?_, fun n width level => ⟨fun text => ?_, ?_⟩⟩
  · rw [lower_int kindField valueField, ← Json.Number.toUInt64?_eq_some]
    cases number.toUInt64? with
    | none => simp
    | some m => simp
  · rw [lower_int kindField valueField, ← Json.Number.exists_toUInt64?_eq_some]
    cases number.toUInt64? with
    | none => simp
    | some m => simp
  · rw [render, Literal.render_uint64_iff]
  · rw [render, Literal.render, numeral?_of_uint64]

/-- A node of an integer that is written as a float. -/
def sampleFloat (mantissa : Nat) (exponent : Int) : Node :=
  [("kind", .str "int"), ("value", .num (.float ⟨false, ⟨mantissa, exponent⟩⟩))]

/-- The greatest float below `2 ^ 64` is taken as it is, and `2 ^ 64` is refused. -/
theorem sampleFloat_is_exact :
    (lower (.obj (sampleFloat 0x1fffffffffffff 11)) none).runFresh =
        (.ok (.literal (.uint64 18446744073709549568)), #[]) ∧
      (lower (.obj (sampleFloat 0x10000000000000 12)) none).runFresh =
        (.error (.invalidInteger (.float ⟨false, ⟨0x10000000000000, 12⟩⟩)), #[]) := by
  have kind (mantissa : Nat) (exponent : Int) :
      (sampleFloat mantissa exponent).lookup "kind" = some (.str "int") := rfl
  have value (mantissa : Nat) (exponent : Int) : (sampleFloat mantissa exponent).lookup "value" =
      some (.num (.float ⟨false, ⟨mantissa, exponent⟩⟩)) := rfl
  obtain ⟨taken, -⟩ := integer_literals_are_exact (kind 0x1fffffffffffff 11) (value _ _) none #[]
  obtain ⟨-, refused, -⟩ :=
    integer_literals_are_exact (kind 0x10000000000000 12) (value _ _) none #[]
  refine ⟨(taken _).mpr ?_, refused.mpr ?_⟩
  · have greatest : (18446744073709549568 : UInt64).toNat = 18446744073709549568 := rfl
    norm_num [Json.Number.toRat, Binary64.toRat, Magnitude.toRat, greatest]
  · intro natural
    obtain ⟨n, small, same⟩ := natural
    norm_num [Json.Number.toRat, Binary64.toRat, Magnitude.toRat] at same
    have bound : 2 ^ 64 = n := by exact_mod_cast same
    omega

end Term

end SpecTranspiler

import Mathlib.Data.String.Basic

/-!
# The order of texts in bytes

Texts are compared character by character. Encoded, they compare byte by byte in the same way: the
first byte of a character tells how many follow, a longer character has a greater first byte, and
the bits of a code are spread over its bytes from the highest on.
-/

namespace SpecTranspiler

/-- The bytes of a text. -/
def utf8Bytes (text : String) : List UInt8 :=
  text.toUTF8.data.toList

theorem utf8Bytes_eq_flatMap (text : String) :
    utf8Bytes text = text.toList.flatMap String.utf8EncodeChar := by
  rw [utf8Bytes, String.toUTF8_eq_toByteArray, ← String.utf8Encode_toList, List.utf8Encode,
    List.data_toByteArray]

/-- The bytes behind the first one of a character, with six bits of its code in each. -/
def lastBytes (code : Nat) : Nat → List UInt8
  | 0 => []
  | count + 1 => UInt8.ofNat (code / 64 ^ count % 64 + 128) :: lastBytes code count

/-- The first byte of a character, and how many bytes follow it. -/
inductive LeadByte (code : Nat) : Nat → Nat → Prop where
  | alone (small : code < 128) : LeadByte code 0 code
  | one (big : 128 ≤ code) (small : code < 2048) : LeadByte code 1 (code / 64 + 192)
  | two (big : 2048 ≤ code) (small : code < 65536) : LeadByte code 2 (code / 64 ^ 2 + 224)
  | three (big : 65536 ≤ code) (small : code < 2097152) : LeadByte code 3 (code / 64 ^ 3 + 240)

/-- The bytes of a character are its first byte and those behind it. -/
theorem utf8EncodeChar_eq_leadByte (c : Char) : ∃ count lead, LeadByte c.val.toNat count lead ∧
    String.utf8EncodeChar c = UInt8.ofNat lead :: lastBytes c.val.toNat count := by
  have valid : c.val.toNat.isValidChar := c.valid
  have bound : c.val.toNat < 2097152 := by
    unfold Nat.isValidChar at valid
    omega
  unfold String.utf8EncodeChar
  generalize c.val.toNat = code at bound ⊢
  dsimp only
  split
  · exact ⟨0, code, .alone (by omega), rfl⟩
  split
  · rw [Nat.mod_eq_of_lt (show code / 64 < 32 by omega)]
    exact ⟨1, _, .one (by omega) (by omega), by simp [lastBytes]⟩
  split
  · rw [Nat.mod_eq_of_lt (show code / 4096 < 16 by omega)]
    exact ⟨2, _, .two (by omega) (by omega), by simp [lastBytes]⟩
  · rw [Nat.mod_eq_of_lt (show code / 262144 < 8 by omega)]
    exact ⟨3, _, .three (by omega) bound, by simp [lastBytes]⟩

theorem ofNat_cons_lt {byte other : Nat} {rest others : List UInt8} (small : other < 256)
    (before : byte < other ∨ byte = other ∧ rest < others) :
    UInt8.ofNat byte :: rest < UInt8.ofNat other :: others := by
  rw [List.cons_lt_cons_iff]
  rcases before with less | ⟨rfl, less⟩
  · exact .inl ((UInt8.ofNat_lt_iff_lt (Nat.lt_trans less small) small).mpr less)
  · exact .inr ⟨rfl, less⟩

/-- Codes that agree in the bits of the bytes before differ in those behind. -/
theorem lastBytes_append_lt {code other count : Nat} (less : code < other)
    (same : code / 64 ^ count = other / 64 ^ count) (rest others : List UInt8) :
    lastBytes code count ++ rest < lastBytes other count ++ others := by
  induction count with
  | zero =>
      rw [Nat.pow_zero, Nat.div_one, Nat.div_one] at same
      omega
  | succ count ih =>
      rw [Nat.pow_succ, ← Nat.div_div_eq_div_mul, ← Nat.div_div_eq_div_mul] at same
      have order : code / 64 ^ count ≤ other / 64 ^ count := Nat.div_le_div_right less.le
      refine ofNat_cons_lt (by omega) ?_
      by_cases equal : code / 64 ^ count = other / 64 ^ count
      · exact .inr ⟨by rw [equal], ih equal⟩
      · exact .inl (by omega)

/-- A greater code has a greater first byte, or the same with as many bytes behind it. -/
theorem LeadByte.lt_or_eq {code other count count' lead lead' : Nat}
    (first : LeadByte code count lead) (second : LeadByte other count' lead')
    (less : code < other) :
    lead < lead' ∨ lead = lead' ∧ count = count' ∧ code / 64 ^ count = other / 64 ^ count := by
  cases first <;> cases second <;> omega

theorem LeadByte.lt_256 {code count lead : Nat} (holds : LeadByte code count lead) :
    lead < 256 := by
  cases holds <;> omega

/-- A character with a smaller code comes first in bytes, whatever follows. -/
theorem utf8EncodeChar_append_lt {c d : Char} (less : c < d) (rest others : List UInt8) :
    String.utf8EncodeChar c ++ rest < String.utf8EncodeChar d ++ others := by
  have codes : c.val.toNat < d.val.toNat := less
  obtain ⟨count, lead, first, encoded⟩ := utf8EncodeChar_eq_leadByte c
  obtain ⟨count', lead', second, encoded'⟩ := utf8EncodeChar_eq_leadByte d
  rw [encoded, encoded']
  refine ofNat_cons_lt second.lt_256 ?_
  rcases first.lt_or_eq second codes with less | ⟨same, rfl, upper⟩
  · exact .inl less
  · exact .inr ⟨same, lastBytes_append_lt codes upper rest others⟩

theorem utf8EncodeChar_flatMap_lt {text other : List Char} (less : text < other) :
    text.flatMap String.utf8EncodeChar < other.flatMap String.utf8EncodeChar := by
  induction less with
  | @nil c chars =>
      obtain ⟨count, lead, -, encoded⟩ := utf8EncodeChar_eq_leadByte c
      rw [List.flatMap_nil, List.flatMap_cons, encoded]
      exact List.nil_lt_cons _ _
  | rel before => exact utf8EncodeChar_append_lt before _ _
  | cons _ ih => exact List.append_left_lt ih

/-- Texts are in the order of their bytes. -/
theorem utf8Bytes_lt_iff {text other : String} :
    utf8Bytes text < utf8Bytes other ↔ text < other := by
  have ascends {text other : String} (less : text < other) : utf8Bytes text < utf8Bytes other := by
    rw [utf8Bytes_eq_flatMap, utf8Bytes_eq_flatMap]
    exact utf8EncodeChar_flatMap_lt (String.lt_iff_toList_lt.mp less)
  refine ⟨fun less => ?_, ascends⟩
  rcases lt_trichotomy text other with before | same | behind
  · exact before
  · rw [same] at less
    exact (List.lt_irrefl _ less).elim
  · exact (List.lt_asymm less (ascends behind)).elim

theorem utf8Bytes_le_iff {text other : String} :
    utf8Bytes text ≤ utf8Bytes other ↔ text ≤ other := by
  rw [← not_lt, ← utf8Bytes_lt_iff, List.not_lt]

end SpecTranspiler

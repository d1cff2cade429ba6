import SpecTranspiler.Json.Scan

/-!
# Reading numbers

The digits of a number are collected into a significand as long as it fits 64 bits. The
digits of the integer part that do not fit count as a power of ten, and those of the
fraction are left out. A number without point and exponent that fits is an integer; any
other is the float of its significand and power.
-/

namespace SpecTranspiler

namespace Json

/-- The greatest significand. -/
def maxSignificand : Nat := UInt64.size - 1

/-- The greatest written exponent. -/
def maxExponent : Nat := 0x7fffffff

/-- Append decimal digits to a number as long as it does not exceed a limit. Gives the
number and the digits from the first that does not fit. -/
def collectDigits (limit : Nat) : Nat → List Char → Nat × List Char
  | value, [] => (value, [])
  | value, c :: rest =>
      let next := value * 10 + (c.toNat - '0'.toNat)
      if next ≤ limit then collectDigits limit next rest else (value, c :: rest)

/-- Refuse characters that should begin with a digit. -/
def digitFailure (chars : List Char) : Failure :=
  match chars with
  | [] => .within .eofInValue []
  | rest => .within .invalidNumber rest

/-- Finish a float in front of the characters after it. -/
def finishFloat (negative : Bool) (significand : Nat) (power : Int) (rest : List Char) :
    Scan Number :=
  match Binary64.ofDecimal? negative significand power with
  | some value => .ok (.float value, rest)
  | none => .error (.before .numberOutOfRange rest)

/-- Finish a number that has neither point nor exponent. A power means that its digits did
not all fit, and zero has a sign only as a float. -/
def finishInteger (negative : Bool) (significand power : Nat) (rest : List Char) : Scan Number :=
  if power = 0 ∧ ¬negative then .ok (.int significand, rest)
  else if power = 0 ∧ 0 < significand ∧ significand ≤ 0x8000000000000000 then
    .ok (.int (-significand), rest)
  else finishFloat negative significand power rest

/-- Split the sign off an exponent: whether it is negative, and the rest. -/
def splitSign (chars : List Char) : Bool × List Char :=
  match chars with
  | '+' :: rest => (false, rest)
  | '-' :: rest => (true, rest)
  | rest => (false, rest)

/-- Read the exponent of a number, after its mark. One that is too large to be held makes
the number zero, or refuses it at the digit that exceeds the limit. -/
def scanExponent (negative : Bool) (significand : Nat) (power : Int) (chars : List Char) :
    Scan Number :=
  let (down, chars) := splitSign chars
  let digits := chars.takeWhile Char.isDigit
  let rest := chars.dropWhile Char.isDigit
  match digits with
  | [] => .error (digitFailure rest)
  | _ =>
      match collectDigits maxExponent 0 digits with
      | (exponent, []) =>
          finishFloat negative significand (if down then power - exponent else power + exponent)
            rest
      | (_, _ :: unread) =>
          if significand ≠ 0 ∧ ¬down then .error (.before .numberOutOfRange (unread ++ rest))
          else .ok (.float (.zero negative), rest)

/-- The character marks an exponent. -/
def isExponentMark (c : Char) : Bool :=
  c == 'e' || c == 'E'

/-- Read the fraction of a number, after its point. -/
def scanFraction (negative : Bool) (significand : Nat) (power : Nat) (chars : List Char) :
    Scan Number :=
  let digits := chars.takeWhile Char.isDigit
  let rest := chars.dropWhile Char.isDigit
  match digits with
  | [] => .error (digitFailure rest)
  | _ =>
      let (significand, unread) := collectDigits maxSignificand significand digits
      let power : Int := power - (digits.length - unread.length : Nat)
      match rest with
      | [] => finishFloat negative significand power []
      | c :: more =>
          if isExponentMark c then scanExponent negative significand power more
          else finishFloat negative significand power (c :: more)

/-- Read what follows the integer part of a number. -/
def scanNumberTail (negative : Bool) (significand power : Nat) (chars : List Char) :
    Scan Number :=
  match chars with
  | [] => finishInteger negative significand power []
  | c :: rest =>
      if c = '.' then scanFraction negative significand power rest
      else if isExponentMark c then scanExponent negative significand power rest
      else finishInteger negative significand power (c :: rest)

/-- Read a number, after its sign. -/
def scanNumber (negative : Bool) (chars : List Char) : Scan Number :=
  let digits := chars.takeWhile Char.isDigit
  let rest := chars.dropWhile Char.isDigit
  match digits with
  | [] => .error (digitFailure rest)
  | '0' :: c :: more => .error (.within .invalidNumber (c :: more ++ rest))
  | _ =>
      let (significand, unread) := collectDigits maxSignificand 0 digits
      scanNumberTail negative significand unread.length rest

end Json

end SpecTranspiler

import SpecTranspiler.Proofs.WrittenJson

/-!
# Skipping accepts what reading accepts

A value that can be read can be skipped, up to the same place. Reading nests with the brackets
and skipping goes from token to token with a stack, so the statement is about what skipping does
next: `Leads` follows its steps without counting them, and every token shortens the text, so
that the steps allowed suffice.
-/

namespace SpecTranspiler

namespace Json

section Lengths

variable {chars rest : List Char}

theorem length_skipBlanks (chars : List Char) : (skipBlanks chars).length ≤ chars.length :=
  List.length_dropWhile_le ..

theorem length_of_scanWord {word : List Char} (read : scanWord word chars = .ok rest) :
    rest.length ≤ chars.length := by
  induction word generalizing chars with
  | nil =>
      cases read
      exact Nat.le_refl _
  | cons expected word ih =>
      cases chars with
      | nil => cases read
      | cons c chars =>
          rw [scanWord] at read
          split at read
          · exact Nat.le_succ_of_le (ih read)
          · cases read

theorem length_of_scanColon (read : scanColon chars = .ok rest) :
    rest.length ≤ chars.length := by
  have blanks := length_skipBlanks chars
  unfold scanColon at read
  split at read
  · next colon =>
      cases read
      rw [colon] at blanks
      exact Nat.le_of_succ_le blanks
  · cases read
  · cases read

theorem length_of_scanHexUnit {unit : Nat} (read : scanHexUnit chars = .ok (unit, rest)) :
    rest.length ≤ chars.length := by
  unfold scanHexUnit at read
  split at read
  · split at read
    · cases read
      simp only [List.length_cons]
      omega
    · cases read
  · cases read

theorem length_of_skipEscape (skipped : skipEscape chars = .ok rest) :
    rest.length < chars.length := by
  unfold skipEscape at skipped
  split at skipped
  · cases skipped
  · obtain ⟨⟨unit, after⟩, hex, rfl⟩ := map_eq_ok skipped
    exact Nat.lt_succ_of_le (length_of_scanHexUnit hex)
  · split at skipped
    · cases skipped
      exact Nat.lt_succ_self _
    · cases skipped

theorem length_of_skipDigits (skipped : skipDigits chars = .ok rest) :
    rest.length < chars.length := by
  unfold skipDigits at skipped
  split at skipped
  · cases skipped
  · split at skipped
    · cases skipped
      exact Nat.lt_succ_of_le (List.length_dropWhile_le ..)
    · cases skipped

theorem length_splitSign (chars : List Char) : (splitSign chars).2.length ≤ chars.length := by
  unfold splitSign
  split
  · exact Nat.le_succ _
  · exact Nat.le_succ _
  · exact Nat.le_refl _

theorem skipExponent_of_mark {c : Char} (mark : isExponentMark c) (chars : List Char) :
    skipExponent (c :: chars) = skipDigits (splitSign chars).2 := by
  have letter : c = 'e' ∨ c = 'E' := by simpa [isExponentMark] using mark
  rcases letter with rfl | rfl
  all_goals
    unfold splitSign
    split
    · rfl
    · rfl
    · next plus minus => rw [skipExponent] <;> assumption

theorem skipExponent_of_not_mark {c : Char} (plain : ¬isExponentMark c) (chars : List Char) :
    skipExponent (c :: chars) = .ok (c :: chars) := by
  have other : c ≠ 'e' ∧ c ≠ 'E' := by simpa [isExponentMark] using plain
  simp [skipExponent, other.1, other.2]

/-- Skipping an exponent does not lengthen the text. -/
theorem length_of_skipExponent (skipped : skipExponent chars = .ok rest) :
    rest.length ≤ chars.length := by
  cases chars with
  | nil =>
      cases skipped
      exact Nat.le_refl _
  | cons c chars =>
      by_cases mark : isExponentMark c
      · rw [skipExponent_of_mark mark] at skipped
        have digits := length_of_skipDigits skipped
        have sign := length_splitSign chars
        rw [List.length_cons]
        omega
      · rw [skipExponent_of_not_mark mark] at skipped
        cases skipped
        exact Nat.le_refl _

theorem length_of_skipNumberTail (skipped : skipNumberTail chars = .ok rest) :
    rest.length ≤ chars.length := by
  unfold skipNumberTail at skipped
  split at skipped
  · split at skipped
    · next digits =>
        have fraction := length_of_skipDigits digits
        have exponent := length_of_skipExponent skipped
        simp only [List.length_cons]
        omega
    · cases skipped
  · exact length_of_skipExponent skipped

theorem length_of_skipNumber (skipped : skipNumber chars = .ok rest) :
    rest.length < chars.length := by
  unfold skipNumber at skipped
  split at skipped
  · split at skipped
    · cases skipped
    · exact Nat.lt_succ_of_le (length_of_skipNumberTail skipped)
  · split at skipped
    · next digits =>
        exact Nat.lt_of_le_of_lt (length_of_skipNumberTail skipped) (length_of_skipDigits digits)
    · cases skipped

/-- Skipping the items of a string does not lengthen the text. -/
theorem length_of_skipStringItems {steps : List Char}
    (skipped : skipStringItems steps chars = .ok rest) : rest.length ≤ chars.length := by
  induction steps generalizing chars with
  | nil => cases skipped
  | cons step steps ih =>
      cases chars with
      | nil => cases skipped
      | cons c chars =>
          rw [skipStringItems] at skipped
          split at skipped
          · cases skipped
            exact Nat.le_succ _
          · split at skipped
            · split at skipped
              · next escape =>
                  have items := ih skipped
                  have escaped := length_of_skipEscape escape
                  rw [List.length_cons]
                  omega
              · cases skipped
            · split at skipped
              · cases skipped
              · exact Nat.le_succ_of_le (ih skipped)

theorem length_of_skipKey (skipped : skipKey chars = .ok rest) :
    rest.length ≤ chars.length := by
  have blanks := length_skipBlanks chars
  unfold skipKey at skipped
  split at skipped
  · next opens =>
      split at skipped
      · next key =>
          have name := length_of_skipStringItems key
          have colon := length_of_scanColon skipped
          rw [opens, List.length_cons] at blanks
          omega
      · cases skipped
  · cases skipped
  · cases skipped

theorem length_of_skipLabel {bracket : Bracket} (skipped : skipLabel bracket chars = .ok rest) :
    rest.length ≤ chars.length := by
  cases bracket with
  | list =>
      cases skipped
      exact Nat.le_refl _
  | object => exact length_of_skipKey skipped

/-- Going on behind a value, through the brackets that close there, does not lengthen the text. -/
theorem length_of_skipAfter {stack remaining : List Bracket}
    (skipped : skipAfter stack chars = .ok (remaining, rest)) : rest.length ≤ chars.length := by
  induction stack generalizing chars with
  | nil =>
      cases skipped
      exact Nat.le_refl _
  | cons bracket stack ih =>
      have blanks := length_skipBlanks chars
      rw [skipAfter] at skipped
      split at skipped
      · cases skipped
      · next opens =>
          rw [opens, List.length_cons] at blanks
          split at skipped
          · obtain ⟨more, label, same⟩ := map_eq_ok skipped
            cases same
            have shorter := length_of_skipLabel label
            omega
          · split at skipped
            · have shorter := ih skipped
              omega
            · cases skipped

/-- Going into a bracket does not lengthen the text. -/
theorem length_of_skipOpening {bracket : Bracket} {stack remaining : List Bracket}
    (skipped : skipOpening bracket stack chars = .ok (remaining, rest)) :
    rest.length ≤ chars.length := by
  have blanks := length_skipBlanks chars
  unfold skipOpening at skipped
  split at skipped
  · cases skipped
  · next opens =>
      rw [opens] at blanks
      split at skipped
      · have shorter := length_of_skipAfter skipped
        rw [List.length_cons] at blanks
        omega
      · obtain ⟨more, label, same⟩ := map_eq_ok skipped
        cases same
        exact Nat.le_trans (length_of_skipLabel label) blanks

theorem length_of_bind_skipAfter {skipping : Except Failure (List Char)} {limit : Nat}
    {stack remaining : List Bracket}
    (shorter : ∀ {more}, skipping = .ok more → more.length ≤ limit)
    (skipped : (skipping >>= skipAfter stack) = .ok (remaining, rest)) : rest.length ≤ limit := by
  cases skipping with
  | error failure => cases skipped
  | ok more => exact Nat.le_trans (length_of_skipAfter skipped) (shorter rfl)

/-- Every token takes at least one character. -/
theorem length_of_skipToken {stack remaining : List Bracket}
    (skipped : skipToken stack chars = .ok (remaining, rest)) : rest.length < chars.length := by
  refine Nat.lt_of_lt_of_le ?_ (length_skipBlanks chars)
  unfold skipToken at skipped
  generalize skipBlanks chars = opened at skipped
  split at skipped
  · cases skipped
  · exact Nat.lt_succ_of_le (length_of_bind_skipAfter length_of_scanWord skipped)
  · exact Nat.lt_succ_of_le (length_of_bind_skipAfter length_of_scanWord skipped)
  · exact Nat.lt_succ_of_le (length_of_bind_skipAfter length_of_scanWord skipped)
  · exact Nat.lt_succ_of_le (length_of_bind_skipAfter length_of_skipStringItems skipped)
  · exact Nat.lt_succ_of_le
      (length_of_bind_skipAfter (fun number => Nat.le_of_lt (length_of_skipNumber number)) skipped)
  · exact Nat.lt_succ_of_le (length_of_skipOpening skipped)
  · exact Nat.lt_succ_of_le (length_of_skipOpening skipped)
  · split at skipped
    · refine Nat.lt_succ_of_le (length_of_bind_skipAfter (fun number => ?_) skipped)
      exact Nat.le_of_lt_succ (length_of_skipNumber number)
    · cases skipped

end Lengths

/-- The items of a string can be skipped up to the given characters. -/
inductive SkipsString : List Char → List Char → Prop where
  | quote {rest} : SkipsString ('"' :: rest) rest
  | escape {chars more rest} (skipped : skipEscape chars = .ok more)
      (others : SkipsString more rest) : SkipsString ('\\' :: chars) rest
  | plain {c chars rest} (quote : c ≠ '"') (backslash : c ≠ '\\') (control : ¬c.toNat < 32)
      (others : SkipsString chars rest) : SkipsString (c :: chars) rest

/-- A string that can be skipped is skipped by the loop, which is allowed as many steps as there are
characters. -/
theorem SkipsString.skipStringItems {chars rest : List Char} (skips : SkipsString chars rest)
    {steps : List Char} (enough : chars.length ≤ steps.length) :
    skipStringItems steps chars = .ok rest := by
  induction skips generalizing steps with
  | quote =>
      cases steps with
      | nil => cases enough
      | cons step steps => rfl
  | escape skipped others ih =>
      cases steps with
      | nil => cases enough
      | cons step steps =>
          have shorter := length_of_skipEscape skipped
          simp only [List.length_cons] at enough
          rw [Json.skipStringItems, if_neg (by decide), if_pos rfl, skipped]
          exact ih (by omega)
  | plain quote backslash control others ih =>
      cases steps with
      | nil => cases enough
      | cons step steps =>
          rw [Json.skipStringItems, if_neg quote, if_neg backslash, if_neg control]
          exact ih (Nat.le_of_succ_le_succ enough)

/-- A pair of code units is one escape to the reader and two to the skipper. -/
theorem skipsString_of_scanEscape {chars more rest : List Char} {c : Char}
    (read : scanEscape chars = .ok (c, more)) (others : SkipsString more rest) :
    SkipsString ('\\' :: chars) rest := by
  unfold scanEscape at read
  split at read
  · cases read
  · next digits =>
      unfold scanUnicode at read
      split at read
      · next unit after hex =>
          have first : skipEscape ('u' :: digits) = .ok after := by rw [skipEscape, hex]; rfl
          split at read
          · cases read
          · split at read
            · unfold scanLowSurrogate at read
              split at read
              · next digits =>
                  split at read
                  · next low last hexLow =>
                      have second : skipEscape ('u' :: digits) = .ok last := by
                        rw [skipEscape, hexLow]; rfl
                      split at read
                      · obtain ⟨-, rfl⟩ := Prod.mk.inj (Except.ok.inj read)
                        exact .escape first (.escape second others)
                      · cases read
                  · cases read
              · cases read
              · cases read
              · cases read
              · cases read
            · cases read
              exact .escape first others
      · cases read
  · next c' after other =>
      split at read
      · next meant simple =>
          cases read
          refine .escape ?_ others
          rw [skipEscape, simple]
          · rfl
          · exact other
      · cases read

/-- A string that can be read can be skipped, up to the same place. -/
theorem skipsString_of_scanStringItems {steps before chars rest : List Char} {text : String}
    (read : scanStringItems steps before chars = .ok (text, rest)) : SkipsString chars rest := by
  induction steps generalizing before chars with
  | nil => cases read
  | cons step steps ih =>
      rw [scanStringItems] at read
      split at read
      · next c after item =>
          have others := ih read
          unfold scanStringItem at item
          split at item
          · cases item
          · cases item
          · split at item
            · next escape =>
                cases item
                exact skipsString_of_scanEscape escape others
            · cases item
          · split at item
            · cases item
            · next quote backslash control =>
                cases item
                exact .plain quote backslash control others
      · next after item =>
          cases read
          unfold scanStringItem at item
          split at item
          · cases item
          · cases item
            exact .quote
          · split at item <;> cases item
          · split at item <;> cases item
      · cases read

theorem skipString_of_scanString {chars rest : List Char} {text : String}
    (read : scanString chars = .ok (text, rest)) : skipString chars = .ok rest :=
  (skipsString_of_scanStringItems read).skipStringItems (Nat.le_refl _)

section Numbers

variable {negative : Bool} {chars rest : List Char} {number : Number}

theorem finishFloat_rest {significand : Nat} {power : Int}
    (read : finishFloat negative significand power chars = .ok (number, rest)) : rest = chars := by
  unfold finishFloat at read
  split at read
  · cases read
    rfl
  · cases read

theorem finishInteger_rest {significand power : Nat}
    (read : finishInteger negative significand power chars = .ok (number, rest)) :
    rest = chars := by
  unfold finishInteger at read
  split at read
  · cases read
    rfl
  · split at read
    · cases read
      rfl
    · exact finishFloat_rest read

theorem skipDigits_of_takeWhile (some : chars.takeWhile Char.isDigit ≠ []) :
    skipDigits chars = .ok (chars.dropWhile Char.isDigit) := by
  cases chars with
  | nil => exact absurd rfl some
  | cons c chars =>
      by_cases digit : c.isDigit
      · rw [skipDigits, if_pos digit, List.dropWhile_cons_of_pos digit]
      · exact absurd (List.takeWhile_cons_of_neg digit) some

theorem skipDigits_of_scanExponent {significand : Nat} {power : Int}
    (read : scanExponent negative significand power chars = .ok (number, rest)) :
    skipDigits (splitSign chars).2 = .ok rest := by
  unfold scanExponent at read
  dsimp only at read
  split at read
  · cases read
  · next some =>
      rw [skipDigits_of_takeWhile some]
      split at read
      · rw [finishFloat_rest read]
      · split at read
        · cases read
        · cases read
          rfl

/-- A fraction that can be read can be skipped, up to the same place. -/
theorem skipNumberTail_of_scanFraction {significand power : Nat}
    (read : scanFraction negative significand power chars = .ok (number, rest)) :
    skipNumberTail ('.' :: chars) = .ok rest := by
  unfold scanFraction at read
  dsimp only at read
  split at read
  · cases read
  · next some =>
      rw [skipNumberTail, skipDigits_of_takeWhile some]
      dsimp only
      generalize chars.dropWhile Char.isDigit = after at read
      split at read
      · rw [finishFloat_rest read]
        rfl
      · split at read
        · next mark => rw [skipExponent_of_mark mark, skipDigits_of_scanExponent read]
        · next plain => rw [skipExponent_of_not_mark plain, finishFloat_rest read]

/-- What can be read behind the whole part of a number can be skipped, up to the same place. -/
theorem skipNumberTail_of_scanNumberTail {significand power : Nat}
    (read : scanNumberTail negative significand power chars = .ok (number, rest)) :
    skipNumberTail chars = .ok rest := by
  unfold scanNumberTail at read
  split at read
  · rw [finishInteger_rest read]
    rfl
  · next c after =>
      split at read
      · next point =>
          subst point
          exact skipNumberTail_of_scanFraction read
      · next point =>
          have tail : skipNumberTail (c :: after) = skipExponent (c :: after) := by
            rw [skipNumberTail]
            simpa using point
          split at read
          · next mark => rw [tail, skipExponent_of_mark mark, skipDigits_of_scanExponent read]
          · next plain => rw [tail, skipExponent_of_not_mark plain, finishInteger_rest read]

/-- A number that can be read can be skipped, up to the same place. -/
theorem skipNumber_of_scanNumber (read : scanNumber negative chars = .ok (number, rest)) :
    skipNumber chars = .ok rest := by
  unfold scanNumber at read
  dsimp only at read
  split at read
  · cases read
  · cases read
  · next some zero =>
      have tail := skipNumberTail_of_scanNumberTail read
      unfold skipNumber
      split
      · next c after =>
          have single : ¬c.isDigit := by
            intro digit
            refine zero c (after.takeWhile Char.isDigit) ?_
            rw [List.takeWhile_cons_of_pos (by decide), List.takeWhile_cons_of_pos digit]
          rw [List.dropWhile_cons_of_pos (by decide), List.dropWhile_cons_of_neg single] at tail
          rw [if_neg single]
          exact tail
      · rw [skipDigits_of_takeWhile some]
        exact tail

end Numbers

/-- A step of skipping, followed by others until no bracket is open, ends at the given
characters. -/
inductive Leads : Except Failure (List Bracket × List Char) → List Char → Prop where
  | done {rest} : Leads (.ok ([], rest)) rest
  | more {bracket stack chars rest} (next : Leads (skipToken (bracket :: stack) chars) rest) :
      Leads (.ok (bracket :: stack, chars)) rest

/-- Steps that lead to the end of a value are taken by the loop, which is allowed as many steps as
there are characters. -/
theorem Leads.skipTokens {stack : List Bracket} {chars rest : List Char}
    (leads : Leads (skipToken stack chars) rest) {steps : List Char}
    (enough : chars.length ≤ steps.length) : skipTokens steps stack chars = .ok rest := by
  generalize step : skipToken stack chars = result at leads
  induction leads generalizing stack chars steps with
  | done =>
      have shorter := length_of_skipToken step
      cases steps with
      | nil => exact absurd (Nat.lt_of_lt_of_le shorter enough) (Nat.not_lt_zero _)
      | cons _ steps => rw [Json.skipTokens, step]
  | more next ih =>
      have shorter := length_of_skipToken step
      cases steps with
      | nil => exact absurd (Nat.lt_of_lt_of_le shorter enough) (Nat.not_lt_zero _)
      | cons _ steps =>
          rw [Json.skipTokens, step]
          rw [List.length_cons] at enough
          exact ih (by omega) rfl

theorem Bracket.closing_ne_comma (bracket : Bracket) : bracket.closing ≠ ',' := by
  cases bracket <;> decide

/-- Skipping leads through the items of a bracket, if it leads through each of them. -/
theorem Items.leads {α : Type} {bracket : Bracket} {Item : List Char → α → List Char → Prop}
    {stack : List Bracket} {out : List Char}
    (each : ∀ {chars item after}, Item (skipBlanks chars) item after →
      Leads (skipAfter (bracket :: stack) after) out →
      Leads ((skipLabel bracket chars).map (bracket :: stack, ·)) out)
    {first : Bool} {chars rest : List Char} {items : List α}
    (read : Items bracket Item first chars items rest) (next : Leads (skipAfter stack rest) out) :
    Leads (if first then skipOpening bracket stack chars else skipAfter (bracket :: stack) chars)
      out := by
  induction read with
  | @closed first chars rest closing =>
      have opening : skipOpening bracket stack chars = skipAfter stack rest := by
        simp [skipOpening, closing]
      have after : skipAfter (bracket :: stack) chars = skipAfter stack rest := by
        rw [skipAfter, closing]
        simp [bracket.closing_ne_comma]
      cases first
      · exact after ▸ next
      · exact opening ▸ next
  | @first chars c more item after items rest opens inside read others ih =>
      have opening : skipOpening bracket stack chars =
          (skipLabel bracket (c :: more)).map (bracket :: stack, ·) := by
        simp [skipOpening, opens, inside]
      have here : skipBlanks (c :: more) = c :: more := by
        rw [← opens, skipBlanks_skipBlanks]
      rw [if_pos rfl, opening]
      exact each (here ▸ read) (ih next)
  | @later chars following c more item after items rest comma opens inside read others ih =>
      have step : skipAfter (bracket :: stack) chars =
          (skipLabel bracket following).map (bracket :: stack, ·) := by
        rw [skipAfter, comma]
        rfl
      rw [if_neg Bool.false_ne_true, step]
      exact each (opens ▸ read) (ih next)

theorem leads_of_skipped {skipping : Except Failure (List Char)} {stack : List Bracket}
    {rest out : List Char} (skipped : skipping = .ok rest)
    (next : Leads (skipAfter stack rest) out) : Leads (skipping >>= skipAfter stack) out := by
  rw [skipped]
  exact next

theorem skipKey_eq_ok {chars more after inside : List Char} {key : String}
    (opens : skipBlanks chars = '"' :: more) (name : scanString more = .ok (key, after))
    (colon : scanColon after = .ok inside) : skipKey chars = .ok inside := by
  rw [skipKey, opens]
  simp only [skipString_of_scanString name]
  exact colon

theorem ne_of_isDigit {c other : Char} (digit : c.isDigit) (apart : other.isDigit = false) :
    c ≠ other := by
  rintro rfl
  exact absurd digit (by simp [apart])

theorem skipToken_of_isDigit {c : Char} (digit : c.isDigit) {chars more : List Char}
    (opens : skipBlanks chars = c :: more) (stack : List Bracket) :
    skipToken stack chars = (skipNumber (c :: more) >>= skipAfter stack) := by
  have apart (other : Char) : other.isDigit = false → c ≠ other := ne_of_isDigit digit
  rw [skipToken, opens]
  -- Only the last case is left, since the others begin with no digit.
  split <;> simp_all

/-- Skipping a value that can be read leads wherever it leads from the end of the value. -/
theorem leads_of_scanWritten {depth : Nat} {chars rest : List Char} {written : Json}
    (read : scanWritten depth chars = .ok (written, rest)) {stack : List Bracket}
    {out : List Char} (next : Leads (skipAfter stack rest) out) :
    Leads (skipToken stack chars) out := by
  -- The recursion follows the depth, which a bracket lowers for its items.
  have opens := opens_of_scanWritten read
  generalize blanks : skipBlanks chars = opened at opens
  cases opens
  case positive digit number =>
    rw [skipToken_of_isDigit digit blanks]
    exact leads_of_skipped (skipNumber_of_scanNumber number) next
  all_goals rw [skipToken, blanks]
  case null word => exact leads_of_skipped word next
  case yes word => exact leads_of_skipped word next
  case no word => exact leads_of_skipped word next
  case str text => exact leads_of_skipped (skipString_of_scanString text) next
  case negative number => exact leads_of_skipped (skipNumber_of_scanNumber number) next
  case arr depth chars elements items =>
    refine items.leads (fun element next => ?_) next
    exact .more (leads_of_scanWritten ((scanWritten_skipBlanks ..).symm.trans element) next)
  case obj depth chars members items =>
    refine items.leads (fun {chars _ _} member next => ?_) next
    generalize opens : skipBlanks chars = opened at member
    obtain ⟨name, colon, value⟩ := member
    rw [skipLabel, skipKey_eq_ok opens name colon]
    exact .more (leads_of_scanWritten value next)
termination_by depth

/-- A value that can be read can be skipped, up to the same place. -/
theorem skipValue_of_scanWritten {depth : Nat} {chars rest : List Char} {written : Json}
    (read : scanWritten depth chars = .ok (written, rest)) : skipValue chars = .ok rest := by
  have ends : Leads (skipAfter [] rest) rest := .done
  exact (leads_of_scanWritten read ends).skipTokens (Nat.le_refl _)

theorem Leads.eq_ok {result : Except Failure (List Bracket × List Char)} {rest : List Char}
    (leads : Leads result rest) :
    ∃ stack chars, result = .ok (stack, chars) ∧ rest.length ≤ chars.length := by
  induction leads with
  | @done rest => exact ⟨[], rest, rfl, Nat.le_refl _⟩
  | @more bracket stack chars rest next ih =>
      obtain ⟨stack', chars', step, shorter⟩ := ih
      have token := length_of_skipToken step
      exact ⟨bracket :: stack, chars, rfl, by omega⟩

/-- Reading a value takes at least one character. -/
theorem length_of_scanWritten {depth : Nat} {chars rest : List Char} {written : Json}
    (read : scanWritten depth chars = .ok (written, rest)) : rest.length < chars.length := by
  have ends : Leads (skipAfter [] rest) rest := .done
  obtain ⟨stack, more, step, shorter⟩ := (leads_of_scanWritten read ends).eq_ok
  exact Nat.lt_of_le_of_lt shorter (length_of_skipToken step)

end Json

end SpecTranspiler

import Mathlib.Data.List.Forall2
import SpecTranspiler.Json.Print
import SpecTranspiler.Proofs.DecoderAgreement

/-!
# Printed values are read back

A layout writes blanks between the tokens of a value, and nothing else of its own. `Json.Prints`
says that a text is read back as an item in front of anything that cannot go on a numeral; it
holds of strings and numerals, and passes from the items to what stands between brackets,
whatever the blanks. Both printers are such layouts. The one-line layout holds no control
character.
-/

namespace SpecTranspiler

namespace Json

/-- A hexadecimal digit has its value. -/
theorem hexValue?_digitChar {digit : Nat} (small : digit < 16) :
    hexValue? digit.digitChar = some digit := by
  interval_cases digit <;> rfl

/-- A control character is read back from the digits of its number. -/
theorem scanEscape_control {c : Char} (control : c.toNat < 32) (rest : List Char) :
    scanEscape ('u' :: '0' :: '0' :: (c.toNat / 16).digitChar :: (c.toNat % 16).digitChar ::
      rest) = .ok (c, rest) := by
  have high : hexValue? (c.toNat / 16).digitChar = some (c.toNat / 16) :=
    hexValue?_digitChar (by omega)
  have low : hexValue? (c.toNat % 16).digitChar = some (c.toNat % 16) :=
    hexValue?_digitChar (by omega)
  have zero : hexValue? '0' = some 0 := rfl
  have unit : hexUnit? '0' '0' (c.toNat / 16).digitChar (c.toNat % 16).digitChar =
      some c.toNat := by
    simp only [hexUnit?, zero, high, low, Option.bind_eq_bind, Option.bind_some, Option.some.injEq]
    omega
  have notLow : isLowSurrogate c.toNat = false := by
    simp only [isLowSurrogate, Bool.and_eq_false_iff, decide_eq_false_iff_not]
    omega
  have notHigh : isHighSurrogate c.toNat = false := by
    simp only [isHighSurrogate, Bool.and_eq_false_iff, decide_eq_false_iff_not]
    omega
  simp only [scanEscape, scanUnicode, scanHexUnit, unit, notLow, notHigh, Bool.false_eq_true,
    if_false, Char.ofNat_toNat]

/-- A character inside a string is read back from its escape. -/
theorem scanStringItem_escapeChar (c : Char) (rest : List Char) :
    scanStringItem (escapeChar c ++ rest) = .ok (some c, rest) := by
  unfold escapeChar
  split
  · rfl
  · rfl
  · rfl
  · rfl
  · rfl
  · rfl
  · rfl
  · next noQuote noBackslash _ _ _ _ _ =>
      split
      · next control =>
          simp only [List.cons_append, List.nil_append, scanStringItem]
          rw [scanEscape_control control]
      · next plain =>
          rw [List.singleton_append, scanStringItem.eq_def]
          split
          · next empty => cases empty
          · next same =>
              cases same
              exact absurd rfl noQuote
          · next same =>
              cases same
              exact absurd rfl noBackslash
          · next same =>
              cases same
              rw [if_neg plain]

/-- The items of a string are read back from their escapes, if there are enough steps. -/
theorem scanStringItems_escaped (text : List Char) {steps read : List Char} (rest : List Char)
    (enough : text.length < steps.length) :
    scanStringItems steps read (text.flatMap escapeChar ++ '"' :: rest) =
      .ok (String.ofList (read.reverse ++ text), rest) := by
  induction text generalizing steps read with
  | nil =>
      cases steps with
      | nil => cases enough
      | cons step steps => rw [List.append_nil]; rfl
  | cons c text ih =>
      cases steps with
      | nil => cases enough
      | cons step steps =>
          rw [List.flatMap_cons, List.append_assoc, scanStringItems, scanStringItem_escapeChar]
          dsimp only
          rw [ih (Nat.lt_of_succ_lt_succ enough), List.reverse_cons, List.append_assoc,
            List.singleton_append]

theorem length_le_flatMap_escapeChar (text : List Char) :
    text.length ≤ (text.flatMap escapeChar).length := by
  induction text with
  | nil => exact Nat.le_refl _
  | cons c text ih =>
      have written : 0 < (escapeChar c).length := by
        unfold escapeChar
        split <;> try exact Nat.zero_lt_succ _
        split <;> exact Nat.zero_lt_succ _
      rw [List.flatMap_cons, List.length_append, List.length_cons]
      omega

/-- A text is read back from its string literal. -/
theorem scanString_escaped (text : String) (rest : List Char) :
    scanString (text.toList.flatMap escapeChar ++ '"' :: rest) = .ok (text, rest) := by
  have enough : text.toList.length < (text.toList.flatMap escapeChar ++ '"' :: rest).length := by
    have longer := length_le_flatMap_escapeChar text.toList
    rw [List.length_append, List.length_cons]
    omega
  rw [scanString, scanStringItems_escaped text.toList rest enough, List.reverse_nil,
    List.nil_append, String.ofList_toList]

/-- The characters cannot go on a numeral. -/
def EndsNumeral (chars : List Char) : Prop :=
  ∀ c more, chars = c :: more → c.isDigit = false ∧ c ≠ '.' ∧ isExponentMark c = false

/-- The digits of a number that is not below ten are those of its tenth and the last one. -/
theorem toDigits_of_ten_le {n : Nat} (large : 10 ≤ n) :
    Nat.toDigits 10 n = Nat.toDigits 10 (n / 10) ++ [(n % 10).digitChar] := by
  have parts := Nat.toDigits_append_toDigits (b := 10) (n := n / 10) (d := n % 10) (by decide)
    (by omega) (by omega)
  rw [Nat.toDigits_of_lt_base (show n % 10 < 10 by omega)] at parts
  rw [parts]
  congr 1
  omega

theorem digitChar_toNat {digit : Nat} (small : digit < 10) :
    digit.digitChar.toNat - '0'.toNat = digit := by
  interval_cases digit <;> rfl

/-- Collecting the digits of a number gives the number. -/
theorem collectDigits_toDigits {limit : Nat} (n : Nat) (fits : n ≤ limit) (more : List Char) :
    collectDigits limit 0 (Nat.toDigits 10 n ++ more) = collectDigits limit n more := by
  by_cases small : n < 10
  · rw [Nat.toDigits_of_lt_base small, List.singleton_append, collectDigits]
    simp only [digitChar_toNat small, Nat.zero_mul, Nat.zero_add, if_pos fits]
  · have last := digitChar_toNat (show n % 10 < 10 by omega)
    have whole : n / 10 * 10 + n % 10 = n := by omega
    rw [toDigits_of_ten_le (by omega), List.append_assoc, List.singleton_append,
      collectDigits_toDigits (n / 10) (by omega), collectDigits]
    simp only [last, whole, if_pos fits]
termination_by n

/-- The first digit of a positive number is not zero. -/
theorem toDigits_head {n : Nat} (positive : 0 < n) :
    ∃ c more, Nat.toDigits 10 n = c :: more ∧ c ≠ '0' := by
  by_cases small : n < 10
  · refine ⟨n.digitChar, [], Nat.toDigits_of_lt_base small, ?_⟩
    interval_cases n <;> decide
  · obtain ⟨c, more, digits, nonzero⟩ := toDigits_head (show 0 < n / 10 by omega)
    refine ⟨c, more ++ [(n % 10).digitChar], ?_, nonzero⟩
    rw [toDigits_of_ten_le (by omega), digits, List.cons_append]
termination_by n

theorem takeWhile_digits {digits rest : List Char} (each : ∀ c ∈ digits, c.isDigit = true)
    (ends : EndsNumeral rest) :
    (digits ++ rest).takeWhile Char.isDigit = digits ∧
      (digits ++ rest).dropWhile Char.isDigit = rest := by
  rw [List.takeWhile_append_of_pos each, List.dropWhile_append_of_pos each]
  cases rest with
  | nil => exact ⟨List.append_nil _, rfl⟩
  | cons c more =>
      have stops := (ends c more rfl).1
      have noDigit : ¬c.isDigit = true := by simp [stops]
      rw [List.takeWhile_cons_of_neg noDigit, List.dropWhile_cons_of_neg noDigit, List.append_nil]
      exact ⟨rfl, rfl⟩

/-- A natural of 64 bits is read back from its digits. -/
theorem scanNumber_toDigits {n : Nat} (fits : n < UInt64.size) {rest : List Char}
    (ends : EndsNumeral rest) :
    scanNumber false (Nat.toDigits 10 n ++ rest) = .ok (.int n, rest) := by
  have each : ∀ c ∈ Nat.toDigits 10 n, c.isDigit = true := fun c member =>
    Nat.isDigit_of_mem_toDigits (by decide) (by decide) member
  obtain ⟨taken, left⟩ := takeWhile_digits each ends
  have collected : collectDigits maxSignificand 0 (Nat.toDigits 10 n) = (n, []) := by
    have fits : n ≤ maxSignificand := Nat.le_sub_one_of_lt fits
    have run := collectDigits_toDigits n fits []
    rwa [List.append_nil] at run
  have finish : scanNumberTail false n 0 rest = .ok (.int n, rest) := by
    cases rest with
    | nil => rfl
    | cons c more =>
        obtain ⟨-, noPoint, noMark⟩ := ends c more rfl
        simp only [scanNumberTail, if_neg noPoint, noMark]
        rfl
  rw [scanNumber, taken, left]
  dsimp only
  split
  · next empty => exact absurd empty Nat.toDigits_ne_nil
  · next c more leading =>
      -- Only zero begins with the digit zero, and it has no other digit.
      rcases Nat.eq_zero_or_pos n with rfl | positive
      · cases leading
      · obtain ⟨first, others, digits, nonzero⟩ := toDigits_head positive
        rw [digits] at leading
        cases leading
        exact absurd rfl nonzero
  · simp only [collected, List.length_nil]
    exact finish

/-- Elements that are written up to the end of an array are read by the loop. The steps allowed are
enough, since every element shortens the text. -/
theorem Items.scanElements {depth : Nat} {steps chars after rest : List Char} {element : Json}
    {elements before : List Json} (read : scanWritten depth chars = .ok (element, after))
    (others : Items .list (Element (scanWritten depth)) false after elements rest)
    (enough : chars.length ≤ steps.length) :
    scanElements (scanWritten depth) steps before chars =
      .ok (before.reverse ++ element :: elements, rest) := by
  have shorter := length_of_scanWritten read
  -- Every element shortens the text, so the steps do not run out.
  induction steps generalizing chars after element elements before with
  | nil => exact absurd (Nat.lt_of_lt_of_le shorter enough) (Nat.not_lt_zero _)
  | cons step steps ih =>
      cases others with
      | closed closing => rw [scanElements_closed read closing, List.reverse_cons]
      | later comma opens inside readSecond others =>
          have nearer := length_after_comma comma
          rw [opens] at nearer
          rw [List.length_cons] at enough
          rw [scanElements_comma read comma opens inside,
            ih readSecond others (by omega) (length_of_scanWritten readSecond),
            List.reverse_cons, List.append_assoc, List.singleton_append]

/-- What stands between the brackets of an array is read as its elements. -/
theorem Items.scanArray {depth : Nat} {chars rest : List Char} {elements : List Json}
    (items : Items .list (Element (scanWritten depth)) true chars elements rest) :
    scanArray (scanWritten depth) chars = .ok (elements, rest) := by
  cases items with
  | closed closing => simp only [Json.scanArray, closing, Bracket.closing]
  | @first _ c more _ _ _ _ opens inside read others =>
      have apart : c ≠ ']' := inside
      have here : Json.scanArray (scanWritten depth) chars =
          Json.scanElements (scanWritten depth) (c :: more) [] (c :: more) := by
        simp [Json.scanArray, opens, apart]
      rw [here, others.scanElements read (Nat.le_refl _), List.reverse_nil, List.nil_append]

theorem scanMember_of_value {scan : List Char → Scan Json} {chars inside rest : List Char}
    {value : Json} (before : List (String × Json)) (key : String)
    (colon : scanColon chars = .ok inside) (read : scan inside = .ok (value, rest)) :
    scanMember scan before key chars = .ok (before ++ [(key, value)], rest) := by
  simp only [scanMember, colon, read, Except.map]

/-- Members that are written up to the end of an object are read by the loop, in the order of the
text. -/
theorem Items.scanMembers {depth : Nat} {steps chars after rest : List Char}
    {member : String × Json} {members before : List (String × Json)}
    (read : Member (scanWritten depth) chars member after)
    (others : Items .object (Member (scanWritten depth)) false after members rest)
    (enough : chars.length ≤ steps.length) :
    scanMembers (scanMember (scanWritten depth)) steps before chars =
      .ok (before ++ member :: members, rest) := by
  have shorter := read.length_lt
  induction steps generalizing chars after member members before with
  | nil => exact absurd (Nat.lt_of_lt_of_le shorter enough) (Nat.not_lt_zero _)
  | cons step steps ih =>
      obtain @⟨_, key, _, _, _, _, name, colon, value⟩ := read
      have stepped := scanMember_of_value before key colon value
      cases others with
      | closed closing => exact scanMembers_closed name stepped closing
      | later comma opens inside readSecond others =>
          have nearer := length_after_comma comma
          rw [opens] at nearer
          have enough := Nat.le_of_succ_le_succ (Nat.lt_of_lt_of_le shorter enough)
          rw [scanMembers_comma name stepped comma opens inside,
            ih readSecond others (by omega) readSecond.length_lt,
            List.append_assoc, List.singleton_append]

/-- What stands between the braces of an object is read as its members. -/
theorem Items.scanObject {depth : Nat} {chars rest : List Char} {members : List (String × Json)}
    (items : Items .object (Member (scanWritten depth)) true chars members rest) :
    scanObject (scanMember (scanWritten depth)) [] chars = .ok (members, rest) := by
  cases items with
  | closed closing => simp only [Json.scanObject, closing, Bracket.closing]
  | @first _ c more _ _ _ _ opens inside read others =>
      have apart : c ≠ '}' := inside
      have here : Json.scanObject (scanMember (scanWritten depth)) [] chars =
          Json.scanMembers (scanMember (scanWritten depth)) (c :: more) [] (c :: more) := by
        simp [Json.scanObject, opens, apart]
      rw [here, others.scanMembers read (Nat.le_refl _), List.nil_append]

/-- A value is read from its first character on, as it is written. -/
theorem Opens.scanWritten {depth : Nat} {chars rest : List Char} {value : Json}
    (opens : Opens depth (skipBlanks chars) value rest) :
    scanWritten depth chars = .ok (value, rest) := by
  rw [scanWritten.eq_def]
  generalize skipBlanks chars = opened at opens
  cases opens with
  | @null _ chars _ word =>
      change (scanWord ['u', 'l', 'l'] chars).map _ = _
      rw [word]
      rfl
  | @yes _ chars _ word =>
      change (scanWord ['r', 'u', 'e'] chars).map _ = _
      rw [word]
      rfl
  | @no _ chars _ word =>
      change (scanWord ['a', 'l', 's', 'e'] chars).map _ = _
      rw [word]
      rfl
  | @str _ chars _ _ read =>
      change (scanString chars).map _ = _
      rw [read]
      rfl
  | @negative _ chars _ _ read =>
      change (scanNumber true chars).map _ = _
      rw [read]
      rfl
  | @positive _ c chars _ _ digit read =>
      -- A digit is none of the characters that begin other values.
      split
      · next empty => cases empty
      · next same => cases same; cases digit
      · next same => cases same; cases digit
      · next same => cases same; cases digit
      · next same => cases same; cases digit
      · next same => cases same; cases digit
      · next same => cases same; cases digit
      · next same => cases same; cases digit
      · next same =>
          cases same
          rw [if_pos digit, read]
          rfl
  | @arr depth chars _ _ items =>
      change (scanArray (Json.scanWritten depth) chars).map _ = _
      rw [items.scanArray]
      rfl
  | @obj depth chars _ _ items =>
      change (scanObject (scanMember (Json.scanWritten depth)) [] chars).map _ = _
      rw [items.scanObject]
      rfl

/-- The character is neither blank nor closes a bracket. -/
def startsItem (c : Char) : Bool :=
  !(isBlank c || c == ']' || c == '}')

theorem isBlank_of_startsItem {c : Char} (starts : startsItem c = true) : isBlank c = false := by
  simp only [startsItem, Bool.not_eq_true', Bool.or_eq_false_iff] at starts
  exact starts.1.1

theorem ne_closing_of_startsItem {c : Char} (starts : startsItem c = true) (bracket : Bracket) :
    c ≠ bracket.closing := by
  rintro rfl
  cases bracket <;> cases starts

theorem startsItem_of_isDigit {c : Char} (digit : c.isDigit = true) : startsItem c = true := by
  have apart (other : Char) (noDigit : other.isDigit = false) : (c == other) = false :=
    beq_false_of_ne (ne_of_isDigit digit noDigit)
  simp only [startsItem, isBlank, apart ' ' rfl, apart '\t' rfl, apart '\n' rfl, apart '\r' rfl,
    apart ']' rfl, apart '}' rfl, Bool.or_false, Bool.not_false]

/-- The text of an item inside brackets. It begins with a character that is neither blank nor
closes a bracket, and the item is read back in front of what cannot go on a numeral. -/
structure Prints {α : Type} (Item : List Char → α → List Char → Prop) (text : List Char)
    (item : α) : Prop where
  opens : ∃ c more, text = c :: more ∧ startsItem c = true
  read : ∀ rest, EndsNumeral rest → Item (text ++ rest) item rest

/-- The characters are blank. -/
def AreBlank (chars : List Char) : Prop :=
  ∀ c ∈ chars, isBlank c = true

/-- The texts of items behind the first one, each after a comma and a gap. -/
def later (gap : List Char) (texts : List (List Char)) : List Char :=
  texts.flatMap fun text => ',' :: gap ++ text

/-- What stands between brackets: the texts of the items, with a comma between them, a gap in
front of each and another one behind the last. -/
def interior (gap last : List Char) : List (List Char) → List Char
  | [] => []
  | text :: rest => gap ++ text ++ later gap rest ++ last

theorem skipBlanks_of_areBlank {gap : List Char} (blank : AreBlank gap) (chars : List Char) :
    skipBlanks (gap ++ chars) = skipBlanks chars :=
  List.dropWhile_append_of_pos blank

theorem skipBlanks_of_not_isBlank {c : Char} (visible : isBlank c = false) (chars : List Char) :
    skipBlanks (c :: chars) = c :: chars :=
  List.dropWhile_cons_of_neg (by simp [visible])

theorem isBlank_closing (bracket : Bracket) : isBlank bracket.closing = false := by
  cases bracket <;> rfl

theorem EndsNumeral.of_head {c : Char} {more : List Char} (noDigit : c.isDigit = false)
    (noPoint : c ≠ '.') (noMark : isExponentMark c = false) : EndsNumeral (c :: more) := by
  rintro _ _ ⟨⟩
  exact ⟨noDigit, noPoint, noMark⟩

theorem endsNumeral_closing (bracket : Bracket) (rest : List Char) :
    EndsNumeral (bracket.closing :: rest) := by
  cases bracket <;> exact .of_head rfl (by decide) rfl

theorem EndsNumeral.after_gap {gap rest : List Char} (blank : AreBlank gap)
    (ends : EndsNumeral rest) : EndsNumeral (gap ++ rest) := by
  cases gap with
  | nil => exact ends
  | cons c gap =>
      have here : isBlank c = true := blank c List.mem_cons_self
      simp only [isBlank, Bool.or_eq_true, beq_iff_eq] at here
      rcases here with ((rfl | rfl) | rfl) | rfl <;> exact .of_head rfl (by decide) rfl

section Interior

variable {α : Type} {bracket : Bracket} {Item : List Char → α → List Char → Prop}
  {gap last : List Char}

/-- Behind a gap an item opens with its own first character. -/
theorem Prints.after_gap {text : List Char} {item : α} (prints : Prints Item text item)
    (blank : AreBlank gap) (bracket : Bracket) (rest : List Char) :
    ∃ c more, skipBlanks (gap ++ (text ++ rest)) = c :: more ∧ c ≠ bracket.closing ∧
      c :: more = text ++ rest := by
  obtain ⟨c, more, rfl, starts⟩ := prints.opens
  refine ⟨c, more ++ rest, ?_, ne_closing_of_startsItem starts bracket, rfl⟩
  rw [skipBlanks_of_areBlank blank, List.cons_append,
    skipBlanks_of_not_isBlank (isBlank_of_startsItem starts)]

theorem endsNumeral_later (bracket : Bracket) (gap : List Char) (texts : List (List Char))
    (blankLast : AreBlank last) (rest : List Char) :
    EndsNumeral (later gap texts ++ (last ++ bracket.closing :: rest)) := by
  cases texts with
  | nil =>
      rw [later, List.flatMap_nil, List.nil_append]
      exact .after_gap blankLast (endsNumeral_closing bracket rest)
  | cons text texts => exact .of_head rfl (by decide) rfl

/-- The items behind the first one. -/
theorem items_later {texts : List (List Char)} {items : List α} (blank : AreBlank gap)
    (blankLast : AreBlank last) (each : List.Forall₂ (Prints Item) texts items)
    (rest : List Char) :
    Items bracket Item false (later gap texts ++ (last ++ bracket.closing :: rest)) items rest := by
  induction each with
  | nil =>
      refine .closed ?_
      rw [later, List.flatMap_nil, List.nil_append, skipBlanks_of_areBlank blankLast,
        skipBlanks_of_not_isBlank (isBlank_closing bracket)]
  | @cons text item texts items prints _ ih =>
      have read := prints.read _ (endsNumeral_later bracket gap texts blankLast rest)
      obtain ⟨c, more, opens, inside, same⟩ := prints.after_gap blank bracket
        (later gap texts ++ (last ++ bracket.closing :: rest))
      rw [← same] at read
      refine .later ?_ opens inside read ih
      rw [later, List.flatMap_cons, List.cons_append, List.cons_append, List.cons_append,
        skipBlanks_of_not_isBlank rfl, List.append_assoc, List.append_assoc]
      rfl

/-- The interior of a bracket is read as its items, up to the closing bracket. -/
theorem items_interior {texts : List (List Char)} {items : List α} (blank : AreBlank gap)
    (blankLast : AreBlank last) (each : List.Forall₂ (Prints Item) texts items)
    (rest : List Char) :
    Items bracket Item true (interior gap last texts ++ bracket.closing :: rest) items rest := by
  cases each with
  | nil =>
      refine .closed ?_
      rw [interior, List.nil_append, skipBlanks_of_not_isBlank (isBlank_closing bracket)]
  | @cons text item texts items prints others =>
      have read := prints.read _ (endsNumeral_later bracket gap texts blankLast rest)
      obtain ⟨c, more, opens, inside, same⟩ := prints.after_gap blank bracket
        (later gap texts ++ (last ++ bracket.closing :: rest))
      rw [← same] at read
      refine .first ?_ inside read (items_later blank blankLast others rest)
      rw [← opens, interior]
      simp only [List.append_assoc]

end Interior

/-- A value that is printed, as an element. -/
abbrev PrintsValue (depth : Nat) : List Char → Json → Prop :=
  Prints (Element (scanWritten depth))

theorem PrintsValue.of_opens {depth : Nat} {c : Char} {more : List Char} {value : Json}
    (starts : startsItem c = true)
    (opens : ∀ rest, EndsNumeral rest → Opens depth (c :: (more ++ rest)) value rest) :
    PrintsValue depth (c :: more) value where
  opens := ⟨c, more, rfl, starts⟩
  read rest ends := by
    refine Opens.scanWritten ?_
    rw [List.cons_append, skipBlanks_of_not_isBlank (isBlank_of_startsItem starts)]
    exact opens rest ends

theorem toList_escape (text : String) :
    (escape text).toList = '"' :: (text.toList.flatMap escapeChar ++ ['"']) :=
  String.toList_ofList

/-- A member is a key and a value with a colon between them. -/
theorem PrintsValue.member {depth : Nat} {text gap : List Char} {value : Json}
    (prints : PrintsValue depth text value) (blank : AreBlank gap) (key : String) :
    Prints (Member (scanWritten depth)) ((escape key).toList ++ ':' :: (gap ++ text))
      (key, value) where
  opens := ⟨'"', _, by rw [toList_escape]; rfl, rfl⟩
  read rest ends := by
    have written : (escape key).toList ++ ':' :: (gap ++ text) ++ rest =
        '"' :: (key.toList.flatMap escapeChar ++ '"' :: ':' :: (gap ++ (text ++ rest))) := by
      simp only [toList_escape, List.append_assoc, List.cons_append, List.nil_append]
    rw [written]
    refine .mk (scanString_escaped key _) rfl ?_
    rw [← scanWritten_skipBlanks, skipBlanks_of_areBlank blank, scanWritten_skipBlanks]
    exact prints.read rest ends

/-- An array is printed by the texts of its elements, whatever blanks stand around them. -/
theorem PrintsValue.array {depth : Nat} {gap last : List Char} {elements : List Json}
    {text : Json → String} (blank : AreBlank gap) (blankLast : AreBlank last)
    (each : ∀ element ∈ elements, PrintsValue depth (text element).toList element) :
    PrintsValue (depth + 1)
      ('[' :: (interior gap last ((elements.map text).map String.toList) ++ [']']))
      (.arr elements) := by
  refine .of_opens rfl fun rest _ => .arr ?_
  rw [List.append_assoc]
  refine items_interior blank blankLast ?_ rest
  rw [List.forall₂_map_left_iff, List.forall₂_map_left_iff, List.forall₂_same]
  exact each

/-- An object is printed by its keys and the texts of its values, whatever blanks stand around
the members and before the values. -/
theorem PrintsValue.object {depth : Nat} {gap last inner : List Char}
    {members : List (String × Json)} {text : Json → String} {colon : String}
    (blank : AreBlank gap) (blankLast : AreBlank last) (marks : colon.toList = ':' :: inner)
    (blankInner : AreBlank inner)
    (each : ∀ member ∈ members, PrintsValue depth (text member.2).toList member.2) :
    PrintsValue (depth + 1)
      ('{' :: (interior gap last ((members.map fun member =>
        escape member.1 ++ colon ++ text member.2).map String.toList) ++ ['}']))
      (.obj members) := by
  refine .of_opens rfl fun rest _ => .obj ?_
  rw [List.append_assoc]
  refine items_interior blank blankLast ?_ rest
  rw [List.forall₂_map_left_iff, List.forall₂_map_left_iff, List.forall₂_same]
  intro member held
  rw [String.toList_append, String.toList_append, List.append_assoc, marks]
  exact (each member held).member blankInner member.1

theorem printsValue_null (depth : Nat) : PrintsValue depth "null".toList .null :=
  .of_opens rfl fun _ _ => .null rfl

theorem printsValue_bool (depth : Nat) (truth : Bool) :
    PrintsValue depth (compress (.bool truth)).toList (.bool truth) := by
  cases truth with
  | true => exact .of_opens rfl fun _ _ => .yes rfl
  | false => exact .of_opens rfl fun _ _ => .no rfl

theorem printsValue_str (depth : Nat) (text : String) :
    PrintsValue depth (escape text).toList (.str text) := by
  rw [toList_escape]
  refine .of_opens rfl fun rest _ => .str ?_
  rw [List.append_assoc]
  exact scanString_escaped text rest

theorem toList_render_natural (n : Nat) :
    (Number.render (.int n)).toList = Nat.toDigits 10 n :=
  Nat.toList_repr

theorem printsValue_natural (depth : Nat) {n : Nat} (small : n < UInt64.size) :
    PrintsValue depth (Number.render (.int n)).toList (.ofNat n) := by
  rw [toList_render_natural]
  cases digits : Nat.toDigits 10 n with
  | nil => exact absurd digits Nat.toDigits_ne_nil
  | cons c more =>
      have digit : c.isDigit = true :=
        Nat.isDigit_of_mem_toDigits (by decide) (by decide) (digits ▸ List.mem_cons_self)
      refine .of_opens (startsItem_of_isDigit digit) fun rest ends => .positive digit ?_
      rw [← List.cons_append, ← digits]
      exact scanNumber_toDigits small ends

/-- All numbers in the value are naturals of 64 bits. -/
inductive HasNaturals : Json → Prop where
  | null : HasNaturals .null
  | bool (truth : Bool) : HasNaturals (.bool truth)
  | natural {n : Nat} (small : n < UInt64.size) : HasNaturals (.ofNat n)
  | str (text : String) : HasNaturals (.str text)
  | arr {elements : List Json} (each : ∀ element ∈ elements, HasNaturals element) :
      HasNaturals (.arr elements)
  | obj {members : List (String × Json)} (each : ∀ member ∈ members, HasNaturals member.2) :
      HasNaturals (.obj members)

mutual

/-- How deep the brackets of a value nest. -/
def nesting : Json → Nat
  | .arr elements => nestingAll elements + 1
  | .obj members => nestingMembers members + 1
  | .null | .bool _ | .num _ | .str _ => 0

/-- How deep the brackets of values nest. -/
def nestingAll : List Json → Nat
  | [] => 0
  | value :: rest => max value.nesting (nestingAll rest)

/-- How deep the brackets of the values of members nest. -/
def nestingMembers : List (String × Json) → Nat
  | [] => 0
  | (_, value) :: rest => max value.nesting (nestingMembers rest)

end

theorem nestingAll_le {values : List Json} {depth : Nat} :
    nestingAll values ≤ depth ↔ ∀ value ∈ values, value.nesting ≤ depth := by
  induction values with
  | nil => simp [nestingAll]
  | cons value rest ih => rw [nestingAll, Nat.max_le, ih, List.forall_mem_cons]

theorem nestingMembers_le {members : List (String × Json)} {depth : Nat} :
    nestingMembers members ≤ depth ↔ ∀ member ∈ members, member.2.nesting ≤ depth := by
  induction members with
  | nil => simp [nestingMembers]
  | cons member rest ih => rw [nestingMembers, Nat.max_le, ih, List.forall_mem_cons]

theorem compressElements_eq_map (elements : List Json) :
    compressElements elements = elements.map compress := by
  induction elements with
  | nil => rw [compressElements, List.map_nil]
  | cons element rest ih => rw [compressElements, ih, List.map_cons]

theorem compressMembers_eq_map (members : List (String × Json)) :
    compressMembers members =
      members.map fun member => escape member.1 ++ ":" ++ compress member.2 := by
  induction members with
  | nil => rw [compressMembers, List.map_nil]
  | cons member rest ih => rw [compressMembers, ih, List.map_cons]

theorem prettyElements_eq_map (level : Nat) (elements : List Json) :
    prettyElements level elements = elements.map (pretty level) := by
  induction elements with
  | nil => rw [prettyElements, List.map_nil]
  | cons element rest ih => rw [prettyElements, ih, List.map_cons]

theorem prettyMembers_eq_map (level : Nat) (members : List (String × Json)) :
    prettyMembers level members =
      members.map fun member => escape member.1 ++ ": " ++ pretty level member.2 := by
  induction members with
  | nil => rw [prettyMembers, List.map_nil]
  | cons member rest ih => rw [prettyMembers, ih, List.map_cons]

/-- Texts joined by a comma and a gap. -/
theorem intercalate_comma (gap text : List Char) (texts : List (List Char)) :
    List.intercalate (',' :: gap) (text :: texts) = text ++ later gap texts := by
  induction texts generalizing text with
  | nil => rw [List.intercalate_singleton, later, List.flatMap_nil, List.append_nil]
  | cons second texts ih =>
      rw [List.intercalate_cons_cons, ih, later, later, List.flatMap_cons]
      simp only [List.append_assoc, List.cons_append]

theorem toList_intercalate_comma (texts : List String) :
    (String.intercalate "," texts).toList = interior [] [] (texts.map String.toList) := by
  rw [String.toList_intercalate]
  cases texts with
  | nil => rfl
  | cons text texts =>
      rw [List.map_cons, interior, List.nil_append, List.append_nil]
      exact intercalate_comma [] _ _

theorem toList_bracketed (opening closing : String) (level : Nat) (items : List String) :
    (bracketed opening closing level items).toList =
      opening.toList ++ (interior (lineBreak (level + 1)).toList (lineBreak level).toList
        (items.map String.toList) ++ closing.toList) := by
  cases items with
  | nil => rw [bracketed, String.toList_append]; rfl
  | cons item items =>
      rw [List.map_cons, interior, bracketed]
      · simp only [String.toList_append, String.toList_intercalate, List.map_cons,
          List.append_assoc]
        have comma : ",".toList ++ (lineBreak (level + 1)).toList =
            ',' :: (lineBreak (level + 1)).toList := rfl
        rw [comma, intercalate_comma, List.append_assoc]
      · exact nofun

theorem areBlank_lineBreak (level : Nat) : AreBlank (lineBreak level).toList := by
  rw [lineBreak, String.toList_ofList]
  refine List.forall_mem_cons.mpr ⟨rfl, fun c member => ?_⟩
  obtain rfl := List.eq_of_mem_replicate member
  rfl

/-- A value on one line is read back. -/
theorem HasNaturals.printsValue_compress {value : Json} (naturals : value.HasNaturals)
    {depth : Nat} (deep : value.nesting ≤ depth) :
    PrintsValue depth value.compress.toList value := by
  have noGap : AreBlank [] := List.forall_mem_nil _
  induction naturals generalizing depth with
  | null => exact printsValue_null depth
  | bool truth => exact printsValue_bool depth truth
  | natural small => exact printsValue_natural depth small
  | str text => exact printsValue_str depth text
  | arr _ ih =>
      cases depth with
      | zero => cases deep
      | succ depth =>
          have inner := nestingAll_le.mp (Nat.le_of_succ_le_succ deep)
          rw [compress, compressElements_eq_map, String.toList_append, String.toList_append,
            toList_intercalate_comma]
          exact .array noGap noGap fun element held => ih element held (inner element held)
  | obj _ ih =>
      cases depth with
      | zero => cases deep
      | succ depth =>
          have inner := nestingMembers_le.mp (Nat.le_of_succ_le_succ deep)
          rw [compress, compressMembers_eq_map, String.toList_append, String.toList_append,
            toList_intercalate_comma]
          exact .object noGap noGap rfl noGap fun member held => ih member held (inner member held)

/-- A value over several lines is read back. -/
theorem HasNaturals.printsValue_pretty {value : Json} (naturals : value.HasNaturals)
    {depth : Nat} (deep : value.nesting ≤ depth) (level : Nat) :
    PrintsValue depth (value.pretty level).toList value := by
  induction naturals generalizing depth level with
  | null => exact printsValue_null depth
  | bool truth =>
      cases truth with
      | true => exact printsValue_bool depth true
      | false => exact printsValue_bool depth false
  | natural small => exact printsValue_natural depth small
  | str text => exact printsValue_str depth text
  | arr _ ih =>
      cases depth with
      | zero => cases deep
      | succ depth =>
          have inner := nestingAll_le.mp (Nat.le_of_succ_le_succ deep)
          rw [pretty, toList_bracketed, prettyElements_eq_map]
          refine .array (areBlank_lineBreak _) (areBlank_lineBreak _) fun element held => ?_
          exact ih element held (inner element held) _
  | obj _ ih =>
      cases depth with
      | zero => cases deep
      | succ depth =>
          have inner := nestingMembers_le.mp (Nat.le_of_succ_le_succ deep)
          have space : AreBlank [' '] := List.forall_mem_singleton.mpr rfl
          rw [pretty, toList_bracketed, prettyMembers_eq_map]
          refine .object (areBlank_lineBreak _) (areBlank_lineBreak _) rfl space
            fun member held => ?_
          exact ih member held (inner member held) _

/-- A text that prints a value, with blanks after it, holds the value. -/
theorem PrintsValue.parseWithin {depth : Nat} {text blanks : String} {value : Json}
    (prints : PrintsValue depth text.toList value) (blank : AreBlank blanks.toList) :
    parseWithin depth (text ++ blanks) = .ok value.sorted := by
  refine scanAll_eq_ok.mpr ⟨blanks.toList, ?_, ?_⟩
  · have ends : EndsNumeral blanks.toList := by
      rw [← List.append_nil blanks.toList]
      exact .after_gap blank nofun
    rw [scanValue_eq_map, String.toList_append, prints.read _ ends]
    rfl
  · exact List.dropWhile_eq_nil_iff.mpr blank

/-- No character is below the space. -/
def IsVisible (chars : List Char) : Prop :=
  ∀ c ∈ chars, 32 ≤ c.toNat

instance (chars : List Char) : Decidable (IsVisible chars) :=
  decidable_of_iff (chars.all fun c => 32 ≤ c.toNat) (by simp [IsVisible])

theorem IsVisible.append {first second : List Char} (left : IsVisible first)
    (right : IsVisible second) : IsVisible (first ++ second) :=
  List.forall_mem_append.mpr ⟨left, right⟩

theorem digitChar_toNat_ge {digit : Nat} (small : digit < 16) : 32 ≤ digit.digitChar.toNat := by
  interval_cases digit <;> decide

/-- No character is printed as a control character: those below the space are written as escapes. -/
theorem isVisible_escapeChar (c : Char) : IsVisible (escapeChar c) := by
  unfold escapeChar
  split
  · decide
  · decide
  · decide
  · decide
  · decide
  · decide
  · decide
  · split
    · next control =>
        have high := digitChar_toNat_ge (show c.toNat / 16 < 16 by omega)
        have low := digitChar_toNat_ge (show c.toNat % 16 < 16 by omega)
        have mark : IsVisible ['\\', 'u', '0', '0'] := by decide
        exact mark.append (List.forall_mem_cons.mpr ⟨high, List.forall_mem_singleton.mpr low⟩)
    · next plain => exact List.forall_mem_singleton.mpr (Nat.le_of_not_lt plain)

theorem isVisible_escape (text : String) : IsVisible (escape text).toList := by
  have quote : IsVisible ['"'] := by decide
  rw [toList_escape]
  refine quote.append (.append (fun c member => ?_) quote)
  obtain ⟨source, -, inside⟩ := List.mem_flatMap.mp member
  exact isVisible_escapeChar source c inside

theorem isVisible_interior {texts : List (List Char)} (each : ∀ text ∈ texts, IsVisible text) :
    IsVisible (interior [] [] texts) := by
  cases texts with
  | nil => exact nofun
  | cons text texts =>
      obtain ⟨first, others⟩ := List.forall_mem_cons.mp each
      rw [interior, List.nil_append, List.append_nil]
      refine first.append fun c member => ?_
      obtain ⟨text, held, inside⟩ := List.mem_flatMap.mp member
      rcases List.mem_cons.mp inside with rfl | inside
      · decide
      · exact others text held c inside

theorem toNat_ge_of_isDigit {c : Char} (digit : c.isDigit = true) : 32 ≤ c.toNat := by
  simp only [Char.isDigit, Bool.and_eq_true, decide_eq_true_eq] at digit
  exact Nat.le_trans (by decide) (UInt32.le_iff_toNat_le.mp digit.1)

/-- A value on one line holds no control character. -/
theorem HasNaturals.isVisible_compress {value : Json} (naturals : value.HasNaturals) :
    IsVisible value.compress.toList := by
  induction naturals with
  | null => exact (by decide : IsVisible "null".toList)
  | bool truth =>
      cases truth with
      | true => exact (by decide : IsVisible "true".toList)
      | false => exact (by decide : IsVisible "false".toList)
  | @natural n _ =>
      have digits : (compress (.ofNat n)).toList = Nat.toDigits 10 n := toList_render_natural n
      intro c member
      rw [digits] at member
      exact toNat_ge_of_isDigit (Nat.isDigit_of_mem_toDigits (by decide) (by decide) member)
  | str text => exact isVisible_escape text
  | arr _ ih =>
      have opening : IsVisible "[".toList := by decide
      have closing : IsVisible "]".toList := by decide
      rw [compress, compressElements_eq_map, String.toList_append, String.toList_append,
        toList_intercalate_comma]
      refine .append (opening.append (isVisible_interior ?_)) closing
      simp only [List.forall_mem_map]
      exact ih
  | obj _ ih =>
      have opening : IsVisible "\x7b".toList := by decide
      have closing : IsVisible "\x7d".toList := by decide
      have colon : IsVisible ":".toList := by decide
      rw [compress, compressMembers_eq_map, String.toList_append, String.toList_append,
        toList_intercalate_comma]
      refine .append (opening.append (isVisible_interior ?_)) closing
      simp only [List.forall_mem_map, String.toList_append]
      exact fun member held => ((isVisible_escape member.1).append colon).append (ih member held)

end Json

end SpecTranspiler

import Mathlib.Data.List.DropRight
import SpecTranspiler.Text.Position

/-!
# Characters at lines and columns

A line and a column in bytes lead to a byte of a text, and from there back to the character that
the byte belongs to. `Text.AfterLines` says where the lines before end and `Text.charsEndingBy`
counts the characters that are over at a byte, both without the way that is taken to get there.
-/

namespace SpecTranspiler

namespace Text

theorem byteSize_append (front back : List Char) :
    byteSize (front ++ back) = byteSize front + byteSize back := by
  induction front with
  | nil => exact (Nat.zero_add _).symm
  | cons c front ih => rw [List.cons_append, byteSize, byteSize, ih, Nat.add_assoc]

theorem byteSize_toList (source : String) : byteSize source.toList = source.utf8ByteSize := by
  have listed (chars : List Char) : byteSize chars = (String.ofList chars).utf8ByteSize := by
    induction chars with
    | nil => rfl
    | cons c rest ih =>
        rw [byteSize, ih, String.ofList_cons, String.utf8ByteSize_append,
          String.utf8ByteSize_singleton]
  rw [listed, String.ofList_toList]

section Cutting

variable {chars front back : List Char} {bytes byte boundary : Nat}

theorem takeBytes?_append (front back : List Char) :
    takeBytes? (front ++ back) (byteSize front) = some front := by
  induction front with
  | nil => exact takeBytes?_zero back
  | cons c front ih =>
      obtain ⟨bytes, size⟩ := Nat.exists_eq_add_one.mpr
        (Nat.add_pos_left c.utf8Size_pos (byteSize front))
      rw [List.cons_append, byteSize, size, takeBytes?, ← size, if_pos (Nat.le_add_right _ _),
        Nat.add_sub_cancel_left, ih]
      rfl

/-- Characters that are cut off at a number of bytes are a front of the text with that many. -/
theorem exists_append_of_takeBytes? (cut : takeBytes? chars bytes = some front) :
    ∃ back, chars = front ++ back ∧ byteSize front = bytes := by
  induction chars generalizing bytes front with
  | nil =>
      cases bytes with
      | zero =>
          cases cut
          exact ⟨[], rfl, rfl⟩
      | succ bytes => cases cut
  | cons c rest ih =>
      cases bytes with
      | zero =>
          cases cut
          exact ⟨c :: rest, rfl, rfl⟩
      | succ bytes =>
          rw [takeBytes?] at cut
          by_cases fits : c.utf8Size ≤ bytes + 1
          · rw [if_pos fits] at cut
            obtain ⟨front, below, rfl⟩ := Option.map_eq_some_iff.mp cut
            obtain ⟨back, rfl, size⟩ := ih below
            exact ⟨back, rfl, by rw [byteSize, size]; omega⟩
          · rw [if_neg fits] at cut
            cases cut

theorem isBoundary_append (front back : List Char) :
    isBoundary (front ++ back) (byteSize front) = true := by
  rw [isBoundary, takeBytes?_append]
  rfl

/-- The way back passes no place where the text can be cut. -/
theorem lastBoundary?_eq_some (found : lastBoundary? chars byte = some boundary) :
    boundary ≤ byte ∧
      ∀ passed, boundary < passed → passed ≤ byte → isBoundary chars passed = false := by
  induction byte with
  | zero =>
      rw [lastBoundary?] at found
      split at found
      · cases found
        exact ⟨Nat.le_refl 0, fun passed above within => absurd within (by omega)⟩
      · cases found
  | succ previous ih =>
      rw [lastBoundary?] at found
      split at found
      · cases found
        exact ⟨Nat.le_refl _, fun passed above within => absurd within (by omega)⟩
      · next inside =>
          obtain ⟨below, free⟩ := ih found
          refine ⟨by omega, fun passed above within => ?_⟩
          by_cases last : passed = previous + 1
          · rw [last]
            exact Bool.eq_false_iff.mpr inside
          · exact free passed above (by omega)

/-- The number of characters that end at or before a byte. -/
def charsEndingBy (chars : List Char) (byte : Nat) : Nat :=
  (List.range chars.length).countP fun index => byteSize (chars.take (index + 1)) ≤ byte

theorem charsEndingBy_le_length (chars : List Char) (byte : Nat) :
    charsEndingBy chars byte ≤ chars.length := by
  have counted := List.countP_le_length
    (p := fun index => byteSize (chars.take (index + 1)) ≤ byte) (l := List.range chars.length)
  rwa [List.length_range] at counted

/-- At a byte of a character, or at the end of the text, the characters before it are over. -/
theorem charsEndingBy_append (before : byteSize front ≤ byte)
    (next : ∀ c ∈ back.head?, byte < byteSize front + c.utf8Size) :
    charsEndingBy (front ++ back) byte = front.length := by
  have ended : ∀ index ∈ List.range front.length,
      byteSize ((front ++ back).take (index + 1)) ≤ byte := by
    intro index member
    have inside : index + 1 ≤ front.length := List.mem_range.mp member
    rw [List.take_append_of_le_length inside]
    have split := byteSize_append (front.take (index + 1)) (front.drop (index + 1))
    rw [List.take_append_drop] at split
    omega
  have ahead : ∀ index ∈ (List.range back.length).map (front.length + ·),
      ¬ byteSize ((front ++ back).take (index + 1)) ≤ byte := by
    intro index member
    obtain ⟨further, small, rfl⟩ := List.mem_map.mp member
    cases back with
    | nil => cases small
    | cons c back =>
        have reaches := next c rfl
        rw [Nat.add_assoc, List.take_length_add_append, List.take_succ_cons, byteSize_append,
          byteSize]
        omega
  rw [charsEndingBy, List.length_append, List.range_add, List.countP_append,
    List.countP_eq_length.mpr (by simpa using ended),
    List.countP_eq_zero.mpr (by simpa using ahead), List.length_range, Nat.add_zero]

/-- Cutting at the end of the way back leaves the characters that end at or before the byte it
began at. -/
theorem length_eq_charsEndingBy (found : lastBoundary? chars byte = some boundary)
    (cut : takeBytes? chars boundary = some front) :
    front.length = charsEndingBy chars byte := by
  obtain ⟨back, rfl, rfl⟩ := exists_append_of_takeBytes? cut
  obtain ⟨below, free⟩ := lastBoundary?_eq_some found
  refine (charsEndingBy_append below fun c first => ?_).symm
  obtain ⟨rest, rfl⟩ := List.head?_eq_some_iff.mp first
  -- Where the next character ends, the text could be cut, so the byte lies before that place.
  have next : isBoundary (front ++ c :: rest) (byteSize front + c.utf8Size) = true := by
    have whole := isBoundary_append (front ++ [c]) rest
    rwa [byteSize_append, List.append_assoc] at whole
  by_contra reached
  have passed := free _ (Nat.lt_add_of_pos_right c.utf8Size_pos) (Nat.le_of_not_lt reached)
  rw [next] at passed
  cases passed

end Cutting

/-- A text of no character, or one that a newline ends. -/
def EndsLine (chars : List Char) : Prop :=
  ∀ c ∈ chars.getLast?, c = '\n'

/-- The bytes of the first lines of a text, each ended by a newline, or of the whole text where
fewer lines are ended. -/
inductive AfterLines (chars : List Char) (count : Nat) : Nat → Prop where
  | ended {front back : List Char} (split : chars = front ++ back) (ends : EndsLine front)
      (newlines : front.count '\n' = count) : AfterLines chars count (byteSize front)
  | fewer (short : chars.count '\n' < count) : AfterLines chars count (byteSize chars)

section Lines

variable {chars front back : List Char} {count : Nat}

theorem endsLine_nil : EndsLine [] :=
  nofun

theorem EndsLine.cons (ends : EndsLine chars) {c : Char} (first : chars = [] → c = '\n') :
    EndsLine (c :: chars) := by
  intro last held
  cases chars with
  | nil =>
      cases held
      exact first rfl
  | cons d chars => exact ends last (List.getLast?_cons_cons ▸ held)

/-- What is added to a text of ended lines has a newline in it, if lines are still ended. -/
theorem EndsLine.mem_of_append (ends : EndsLine (front ++ back)) (more : back ≠ []) :
    '\n' ∈ back := by
  have last : (front ++ back).getLast? = some (back.getLast more) := by
    rw [List.getLast?_append_of_ne_nil _ more, List.getLast?_eq_some_getLast more]
  rw [← ends _ last]
  exact List.getLast_mem more

theorem foldl_byteSize (lines : List (List Char)) (size : Nat) :
    lines.foldl (fun size line => size + byteSize line) size = size + byteSize lines.flatten := by
  induction lines generalizing size with
  | nil => rfl
  | cons line lines ih =>
      rw [List.foldl_cons, ih, List.flatten_cons, byteSize_append, Nat.add_assoc]

theorem linesSize_eq (chars : List Char) (count : Nat) :
    linesSize chars count = byteSize ((lines chars).take count).flatten := by
  rw [linesSize, foldl_byteSize, Nat.zero_add]

theorem linesSize_zero (chars : List Char) : linesSize chars 0 = 0 := by
  rw [linesSize_eq, List.take_zero]
  rfl

/-- A character counts to the first of the lines, which is the whole line if it is a newline. -/
theorem linesSize_cons (c : Char) (rest : List Char) (count : Nat) :
    linesSize (c :: rest) (count + 1) =
      c.utf8Size + linesSize rest (if c = '\n' then count else count + 1) := by
  rw [linesSize_eq, linesSize_eq, lines]
  by_cases newline : c = '\n'
  · rw [if_pos newline, if_pos newline, List.take_succ_cons, List.flatten_cons, byteSize_append]
    rfl
  · rw [if_neg newline, if_neg newline]
    cases lines rest with
    | nil => rw [List.take_succ_cons, List.take_nil, List.take_nil, List.flatten_singleton]; rfl
    | cons line more => rfl

theorem afterLines_zero (chars : List Char) : AfterLines chars 0 0 :=
  .ended (List.nil_append chars).symm endsLine_nil rfl

/-- A newline at the beginning is a line of its own. -/
theorem AfterLines.newline {start : Nat} (after : AfterLines chars count start) :
    AfterLines ('\n' :: chars) (count + 1) ('\n'.utf8Size + start) := by
  cases after with
  | ended split ends newlines =>
      refine .ended (congrArg (List.cons '\n') split) (ends.cons fun _ => rfl) ?_
      rw [List.count_cons_self, newlines]
  | fewer short =>
      refine .fewer ?_
      rw [List.count_cons_self]
      omega

/-- Any other character at the beginning makes the first line longer. -/
theorem AfterLines.cons {start : Nat} (after : AfterLines chars (count + 1) start) {c : Char}
    (other : c ≠ '\n') : AfterLines (c :: chars) (count + 1) (c.utf8Size + start) := by
  cases after with
  | ended split ends newlines =>
      refine .ended (congrArg (List.cons c) split) (ends.cons ?_) ?_
      · intro empty
        rw [empty] at newlines
        cases newlines
      · rwa [List.count_cons_of_ne other]
  | fewer short =>
      refine .fewer ?_
      rwa [List.count_cons_of_ne other]

/-- The sizes of the first lines, added up, are where these lines end. -/
theorem afterLines_linesSize (chars : List Char) (count : Nat) :
    AfterLines chars count (linesSize chars count) := by
  induction chars generalizing count with
  | nil =>
      cases count with
      | zero => exact afterLines_zero []
      | succ count => exact .fewer (Nat.succ_pos count)
  | cons c rest ih =>
      cases count with
      | zero =>
          rw [linesSize_zero]
          exact afterLines_zero _
      | succ count =>
          rw [linesSize_cons]
          by_cases newline : c = '\n'
          · subst newline
            exact (ih count).newline
          · rw [if_neg newline]
            exact (ih (count + 1)).cons newline

/-- Of two fronts of ended lines, the longer one has more lines. -/
theorem EndsLine.eq_of_append {more : List Char} (ends : EndsLine (front ++ more))
    (newlines : (front ++ more).count '\n' = front.count '\n') : more = [] := by
  by_contra longer
  have newline := List.count_pos_iff.mpr (ends.mem_of_append longer)
  rw [List.count_append] at newlines
  omega

/-- The first lines of a text end at one place. Of two fronts with as many newlines, each ended by
one, neither can be longer. -/
theorem AfterLines.unique {start other : Nat} (first : AfterLines chars count start)
    (second : AfterLines chars count other) : start = other := by
  cases first with
  | @ended front back split ends newlines =>
      cases second with
      | @ended front' back' split' ends' newlines' =>
          subst split
          -- One of the two fronts is the beginning of the other.
          obtain ⟨more, rfl, -⟩ | ⟨more, rfl, -⟩ := List.append_eq_append_iff.mp split'
          · rw [ends'.eq_of_append (newlines'.trans newlines.symm), List.append_nil]
          · rw [ends.eq_of_append (newlines.trans newlines'.symm), List.append_nil]
      | fewer short =>
          rw [split, List.count_append] at short
          omega
  | fewer short =>
      cases second with
      | ended split ends newlines =>
          rw [split, List.count_append] at short
          omega
      | fewer => rfl

/-- A text is its ended lines, and then the line that it breaks off in. -/
theorem exists_append_rtakeWhile (chars : List Char) :
    ∃ front, chars = front ++ chars.rtakeWhile (· != '\n') ∧ EndsLine front ∧
      front.count '\n' = chars.count '\n' := by
  have split : chars = chars.rdropWhile (· != '\n') ++ chars.rtakeWhile (· != '\n') :=
    List.rdropWhile_append_rtakeWhile.symm
  refine ⟨chars.rdropWhile (· != '\n'), split, ?_, ?_⟩
  · intro last held
    obtain ⟨nonempty, rfl⟩ := List.mem_getLast?_eq_getLast held
    simpa using List.rdropWhile_last_not (· != '\n') chars nonempty
  · have unbroken : '\n' ∉ chars.rtakeWhile (· != '\n') := by
      intro member
      simpa using List.mem_rtakeWhile_imp member
    have counted := congrArg (List.count '\n') split
    rw [List.count_append, List.count_eq_zero.mpr unbroken] at counted
    exact counted.symm

end Lines

/-- The byte at a line and a column lies behind the lines before, unless the text ends first. -/
theorem exists_byteOffset_eq (chars : List Char) (line column : Nat) :
    ∃ start, AfterLines chars (max line 1 - 1) start ∧
      byteOffset chars line column = min (byteSize chars) (start + (max column 1 - 1)) := by
  have fromOne (n : Nat) : max n 1 - 1 = n - 1 := by omega
  refine ⟨linesSize chars (line - 1), ?_, ?_⟩
  · rw [fromOne]
    exact afterLines_linesSize chars (line - 1)
  · rw [byteOffset, fromOne]
    split <;> omega

theorem charOffset?_eq_some (source : String) (line column : Nat) :
    charOffset? source line column =
      some (charsEndingBy source.toList (byteOffset source.toList line column)) := by
  obtain ⟨boundary, front, found, cut⟩ :=
    exists_lastBoundary? source.toList (byteOffset source.toList line column)
  rw [charOffset?, found, Option.bind_eq_bind, Option.bind_some, cut, Option.bind_eq_bind,
    Option.bind_some, length_eq_charsEndingBy found cut]
  rfl

theorem charOffset_eq (source : String) (line column : Nat) :
    charOffset source line column =
      charsEndingBy source.toList (byteOffset source.toList line column) := by
  rw [charOffset, Option.get_of_eq_some _ (charOffset?_eq_some source line column)]

theorem charOffset_le_length (source : String) (line column : Nat) :
    charOffset source line column ≤ source.length := by
  rw [charOffset_eq, ← String.length_toList]
  exact charsEndingBy_le_length _ _

/-- The line and the column of a byte of a character lead to the character. -/
theorem charOffset_of_split {source : String} {front back : List Char} {c : Char} {byte : Nat}
    (split : source.toList = front ++ c :: back) (inside : byte < c.utf8Size) :
    charOffset source (1 + front.count '\n')
      (1 + (byteSize (front.rtakeWhile (· != '\n')) + byte)) = front.length := by
  obtain ⟨ended, whole, ends, newlines⟩ := exists_append_rtakeWhile front
  obtain ⟨start, after, place⟩ := exists_byteOffset_eq source.toList (1 + front.count '\n')
    (1 + (byteSize (front.rtakeWhile (· != '\n')) + byte))
  have counted : max (1 + front.count '\n') 1 - 1 = front.count '\n' := by omega
  have joined : source.toList = ended ++ (front.rtakeWhile (· != '\n') ++ c :: back) := by
    rw [← List.append_assoc, ← whole, split]
  rw [counted] at after
  obtain rfl := after.unique (.ended joined ends newlines)
  have size := congrArg byteSize whole
  have total := congrArg byteSize split
  rw [byteSize_append] at size
  rw [byteSize_append, byteSize] at total
  have reached : byteOffset source.toList (1 + front.count '\n')
      (1 + (byteSize (front.rtakeWhile (· != '\n')) + byte)) = byteSize front + byte := by
    omega
  rw [charOffset_eq, reached, split]
  refine charsEndingBy_append (Nat.le_add_right _ _) fun next first => ?_
  cases first
  omega

/-- **Every byte of a text leads to its character.** The line and the column of a byte, counted
from one, lead to the index of the character that the byte belongs to. Any line and any column
lead somewhere: the way back to a character neither passes the beginning of the text nor ends
inside a character, and what is found is the number of characters that end at or before the place
behind the lines before, moved into the text. -/
theorem charOffset_finds_characters (source : String) :
    (∀ (front : List Char) (c : Char) (back : List Char) (byte : Nat),
      source.toList = front ++ c :: back → byte < (String.utf8EncodeChar c).length →
        charOffset source (1 + front.count '\n')
          (1 + (byteSize (front.rtakeWhile (· != '\n')) + byte)) = front.length) ∧
    ∀ line column : Nat, ∃ start index, AfterLines source.toList (max line 1 - 1) start ∧
      charOffset? source line column = some index ∧ charOffset source line column = index ∧
      index ≤ source.length ∧
      index = charsEndingBy source.toList
        (min source.utf8ByteSize (start + (max column 1 - 1))) := by
  constructor
  · intro front c back byte split inside
    rw [String.length_utf8EncodeChar] at inside
    exact charOffset_of_split split inside
  · intro line column
    obtain ⟨start, after, place⟩ := exists_byteOffset_eq source.toList line column
    refine ⟨start, _, after, charOffset?_eq_some source line column,
      charOffset_eq source line column, ?_, ?_⟩
    · rw [← charOffset_eq]
      exact charOffset_le_length source line column
    · rw [place, byteSize_toList]

/-- Two lines, the second with characters of two and three bytes. -/
def sampleLines : String :=
  "a\n\"é€\" x"

/-- The last byte of the third character of the second line leads to that character, and a place
beyond the text to its end. -/
theorem sampleLines_finds_characters :
    2 < (String.utf8EncodeChar '€').length ∧ charOffset sampleLines 2 6 = 4 ∧
      charOffset? sampleLines 9 9 = some sampleLines.length := by
  obtain ⟨found, everywhere⟩ := charOffset_finds_characters sampleLines
  have third := found ['a', '\n', '"', 'é'] '€' ['"', ' ', 'x'] 2 (by decide) (by decide)
  obtain ⟨start, index, after, led, -, -, counted⟩ := everywhere 9 9
  have short : sampleLines.toList.count '\n' < 8 := by decide
  obtain rfl := after.unique (.fewer short)
  have last : index = sampleLines.length := by
    rw [counted]
    decide
  exact ⟨by decide, third, led.trans (congrArg some last)⟩

end Text

end SpecTranspiler

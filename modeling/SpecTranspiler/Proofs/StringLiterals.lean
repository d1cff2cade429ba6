import SpecTranspiler.Proofs.Tokens

/-!
# String literals denote their text

A reader of source text first normalizes line ends, then reads a string literal up to the first
quote that is not escaped. Escaping and normalizing do not interfere, so what is read is the text
with its line ends normalized, and nothing is read where a carriage return is left
(`readLiteral_render`). Hence a literal denotes its text exactly if the text holds no carriage
return.
-/

namespace SpecTranspiler

/-- The characters of a source text with every carriage return in front of a newline left out. -/
def normalizeLineEnds : List Char → List Char
  | '\r' :: '\n' :: rest => '\n' :: normalizeLineEnds rest
  | c :: rest => c :: normalizeLineEnds rest
  | [] => []

/-- Read what is left of a string literal: its text, and what stands behind the quote that ends
it. A backslash stands in front of a backslash or a quote, which are meant then. Newlines are
part of the text, and carriage returns are refused. -/
def readContent : List Char → Option (List Char × List Char)
  | '"' :: rest => some ([], rest)
  | '\\' :: '\\' :: rest => (readContent rest).map (Prod.map ('\\' :: ·) id)
  | '\\' :: '"' :: rest => (readContent rest).map (Prod.map ('"' :: ·) id)
  | '\\' :: _ => none
  | '\r' :: _ => none
  | c :: rest => (readContent rest).map (Prod.map (c :: ·) id)
  | [] => none

/-- Read a string literal and what stands behind it from the characters of a source text. -/
def readLiteral (source : List Char) : Option (List Char × List Char) :=
  match normalizeLineEnds source with
  | '"' :: rest => readContent rest
  | _ => none

section LineEnds

variable {c : Char} {text rest : List Char}

/-- A carriage return that is not in front of a newline stays, and so does any other character. -/
theorem normalizeLineEnds_cons (apart : c = '\r' → rest.head? ≠ some '\n') :
    normalizeLineEnds (c :: rest) = c :: normalizeLineEnds rest := by
  rw [normalizeLineEnds]
  rintro tail rfl rfl
  exact apart rfl rfl

theorem head?_ne_of_apart (apart : ∀ tail, c = '\r' → rest = '\n' :: tail → False) :
    c = '\r' → rest.head? ≠ some '\n' := by
  intro carriageReturn starts
  obtain ⟨tail, rfl⟩ := List.head?_eq_some_iff.mp starts
  exact apart tail carriageReturn rfl

/-- What stands in front of a character other than a newline is normalized on its own. -/
theorem normalizeLineEnds_append (other : c ≠ '\n') (text rest : List Char) :
    normalizeLineEnds (text ++ c :: rest) =
      normalizeLineEnds text ++ normalizeLineEnds (c :: rest) := by
  fun_induction normalizeLineEnds text with
  | case1 tail ih => simp only [List.cons_append, normalizeLineEnds, ih]
  | case2 first tail apart ih =>
      have split : first = '\r' → (tail ++ c :: rest).head? ≠ some '\n' := by
        intro carriageReturn
        cases tail with
        | nil => simpa using other
        | cons next tail => exact (head?_ne_of_apart apart carriageReturn :)
      rw [List.cons_append, normalizeLineEnds_cons split, ih, List.cons_append]
  | case3 => rfl

theorem normalizeLineEnds_of_not_mem (noReturn : '\r' ∉ text) : normalizeLineEnds text = text := by
  induction text with
  | nil => rfl
  | cons c text ih =>
      obtain ⟨head, tail⟩ := not_or.mp (mt List.mem_cons.mpr noReturn)
      rw [normalizeLineEnds_cons fun same => (head same.symm).elim, ih tail]

end LineEnds

namespace Literal

/-- The characters that a character of a text is written with. -/
def escapeChar (c : Char) : List Char :=
  if c = '\\' ∨ c = '"' then ['\\', c] else [c]

theorem escapeLiteral_cons_escapeChar (c : Char) (text : List Char) :
    escapeLiteral (c :: text) = escapeChar c ++ escapeLiteral text := by
  rw [escapeLiteral_cons, escapeChar]
  congr 1
  by_cases backslash : c = '\\'
  · simp [backslash]
  · by_cases quote : c = '"'
    · simp [quote]
    · simp [backslash, quote]

/-- Backslashes and quotes are escaped once each, although one replacement follows the other. -/
theorem escapeLiteral_eq_flatMap (text : List Char) :
    escapeLiteral text = text.flatMap escapeChar := by
  induction text with
  | nil => rfl
  | cons c text ih => rw [escapeLiteral_cons_escapeChar, List.flatMap_cons, ih]

theorem head?_escapeLiteral (text : List Char) :
    (escapeLiteral text).head? = some '\n' ↔ text.head? = some '\n' := by
  cases text with
  | nil => rfl
  | cons c text =>
      rw [escapeLiteral_cons_escapeChar, escapeChar]
      split
      · next special => rcases special with rfl | rfl <;> simp
      · simp

/-- It makes no difference whether a text is escaped or its line ends are normalized first. -/
theorem normalizeLineEnds_escapeLiteral (text : List Char) :
    normalizeLineEnds (escapeLiteral text) = escapeLiteral (normalizeLineEnds text) := by
  fun_induction normalizeLineEnds text with
  | case1 tail ih =>
      rw [escapeLiteral_cons_escapeChar, escapeLiteral_cons_escapeChar,
        escapeLiteral_cons_escapeChar, ← ih]
      rfl
  | case2 c tail apart ih =>
      rw [escapeLiteral_cons_escapeChar, escapeLiteral_cons_escapeChar, ← ih, escapeChar]
      split
      · next special =>
          rcases special with rfl | rfl <;> rfl
      · refine normalizeLineEnds_cons fun carriageReturn starts => ?_
        exact head?_ne_of_apart apart carriageReturn ((head?_escapeLiteral tail).mp starts)
  | case3 => rfl

/-- The characters of one character are read as that character. -/
theorem readContent_escapeChar (c : Char) (rest : List Char) :
    readContent (escapeChar c ++ rest) =
      if c = '\r' then none else (readContent rest).map (Prod.map (c :: ·) id) := by
  rw [escapeChar]
  split
  · next special => rcases special with rfl | rfl <;> rfl
  · next plain =>
      obtain ⟨noBackslash, noQuote⟩ := not_or.mp plain
      by_cases carriageReturn : c = '\r'
      · subst carriageReturn
        rfl
      · rw [if_neg carriageReturn, List.singleton_append, readContent]
        all_goals intros; contradiction

/-- An escaped text is read back up to the quote behind it, unless it holds a carriage return. -/
theorem readContent_escapeLiteral (text rest : List Char) :
    readContent (escapeLiteral text ++ '"' :: rest) =
      if '\r' ∈ text then none else some (text, rest) := by
  induction text with
  | nil => rfl
  | cons c text ih =>
      rw [escapeLiteral_cons_escapeChar, List.append_assoc, readContent_escapeChar, ih]
      by_cases here : c = '\r'
      · simp [here]
      · by_cases further : '\r' ∈ text
        · simp [further]
        · simp [here, further, Ne.symm here]

end Literal

/-- A string literal in front of other text is read as its text with normalized line ends, unless
a carriage return is left in it. What stands behind it is left to be read. -/
theorem readLiteral_render (text after : String) :
    readLiteral ((Literal.str text).render ++ after).toList =
      if '\r' ∈ normalizeLineEnds text.toList then none
      else some (normalizeLineEnds text.toList,
        ".to_string()".toList ++ normalizeLineEnds after.toList) := by
  have written : ((Literal.str text).render ++ after).toList =
      ('"' :: escapeLiteral text.toList) ++ '"' :: (".to_string()".toList ++ after.toList) := by
    simp only [Literal.render, String.toList_append, String.toList_ofList, String.reduceToList,
      List.cons_append, List.nil_append, List.append_assoc]
  have behind : normalizeLineEnds ('"' :: (".to_string()".toList ++ after.toList)) =
      '"' :: (".to_string()".toList ++ normalizeLineEnds after.toList) := rfl
  have opening : normalizeLineEnds ('"' :: escapeLiteral text.toList) =
      '"' :: escapeLiteral (normalizeLineEnds text.toList) := by
    rw [← Literal.normalizeLineEnds_escapeLiteral]
    exact normalizeLineEnds_cons fun impossible => absurd impossible (by decide)
  rw [readLiteral, written, normalizeLineEnds_append (by decide), opening, behind]
  exact Literal.readContent_escapeLiteral ..

/-- **A string literal denotes its text exactly if the text holds no carriage return.** Written at
any place and followed by any text, it is then read as its text, and what is left to be read is
the conversion to an owned string and the text behind it. Every backslash and every quote is
escaped exactly once. -/
theorem literal_denotes_iff_no_carriage_return (width level : Nat) (text after : String) :
    (readLiteral ((Term.literal (.str text)).render width level ++ after).toList =
        some (text.toList, ".to_string()".toList ++ normalizeLineEnds after.toList) ↔
      '\r' ∉ text.toList) ∧
    escapeLiteral text.toList =
      text.toList.flatMap fun c => if c = '\\' ∨ c = '"' then ['\\', c] else [c] := by
  refine ⟨?_, Literal.escapeLiteral_eq_flatMap text.toList⟩
  rw [Term.render, readLiteral_render]
  constructor
  · intro denotes
    split at denotes
    · cases denotes
    · next noneLeft =>
        have same : normalizeLineEnds text.toList = text.toList := by
          simpa using denotes
        rwa [same] at noneLeft
  · intro noReturn
    rw [normalizeLineEnds_of_not_mem noReturn, if_neg noReturn]

end SpecTranspiler

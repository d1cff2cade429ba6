import SpecTranspiler.Target.Render

/-!
# Tokens of a text

A text is read as words, string literals and symbols; blanks only separate. A word reaches as far
as its characters do, so a word is read as it was written wherever what follows does not begin
with a character of a word.
-/

namespace SpecTranspiler

/-- The character can stand in a word. Every character beyond ASCII can. -/
def isWordChar (c : Char) : Bool :=
  c.isAlphanum || c == '_' || decide (127 < c.toNat)

/-- A part of a text. -/
inductive Token where
  | word (text : String)
  | text (content : String)
  | symbol (c : Char)
  deriving DecidableEq, Repr

/-- What a scanner is inside of, with what it has read of it. -/
inductive Scanner where
  | between
  | inWord (read : List Char)
  | inText (read : List Char)
  | escaped (read : List Char)

namespace Scanner

/-- Read a character that begins something new. -/
def enter (c : Char) : List Token × Scanner :=
  if isWordChar c then ([], .inWord [c])
  else if c = '"' then ([], .inText [])
  else if c = ' ' ∨ c = '\n' then ([], .between)
  else ([.symbol c], .between)

/-- Read a character. A word ends before the first character that is none of its own. -/
def step : Scanner → Char → List Token × Scanner
  | .between, c => enter c
  | .inWord read, c =>
      if isWordChar c then ([], .inWord (read ++ [c]))
      else (.word (String.ofList read) :: (enter c).1, (enter c).2)
  | .inText read, c =>
      if c = '"' then ([.text (String.ofList read)], .between)
      else if c = '\\' then ([], .escaped read)
      else ([], .inText (read ++ [c]))
  | .escaped read, c => ([], .inText (read ++ [c]))

/-- The token that the end of the text completes. -/
def finish : Scanner → List Token
  | .inWord read => [.word (String.ofList read)]
  | _ => []

/-- Read characters to the end of the text. -/
def run (scanner : Scanner) : List Char → List Token
  | [] => scanner.finish
  | c :: rest => (scanner.step c).1 ++ (scanner.step c).2.run rest

end Scanner

namespace Token

/-- The tokens of a text. -/
def scan (text : List Char) : List Token :=
  Scanner.between.run text

/-- A word that ends here is not continued by the text. -/
def boundary : List Char → Bool
  | [] => true
  | c :: _ => !isWordChar c

theorem run_inWord {word : List Char} (chars : ∀ c ∈ word, isWordChar c = true)
    (read rest : List Char) :
    (Scanner.inWord read).run (word ++ rest) = (Scanner.inWord (read ++ word)).run rest := by
  induction word generalizing read with
  | nil => rw [List.nil_append, List.append_nil]
  | cons c word ih =>
      obtain ⟨head, tail⟩ := List.forall_mem_cons.mp chars
      rw [List.cons_append, Scanner.run, Scanner.step, if_pos head, List.nil_append, ih tail,
        List.append_assoc, List.singleton_append]

theorem run_inWord_boundary (read : List Char) {rest : List Char} (ends : boundary rest = true) :
    (Scanner.inWord read).run rest = .word (String.ofList read) :: scan rest := by
  cases rest with
  | nil => rfl
  | cons c rest =>
      have other : isWordChar c = false := by
        simpa only [boundary, Bool.not_eq_true'] using ends
      rw [Scanner.run, Scanner.step, if_neg (Bool.eq_false_iff.mp other)]
      rfl

/-- A word is read as it was written. -/
theorem scan_word {word : List Char} (chars : ∀ c ∈ word, isWordChar c = true)
    (nonempty : word ≠ []) {rest : List Char} (ends : boundary rest = true) :
    scan (word ++ rest) = .word (String.ofList word) :: scan rest := by
  obtain ⟨c, word, rfl⟩ := List.exists_cons_of_ne_nil nonempty
  obtain ⟨head, tail⟩ := List.forall_mem_cons.mp chars
  rw [List.cons_append, scan, Scanner.run, Scanner.step, Scanner.enter, if_pos head,
    List.nil_append, run_inWord tail, run_inWord_boundary _ ends]
  rfl

theorem scan_space (rest : List Char) : scan (' ' :: rest) = scan rest := rfl

theorem scan_spaces (count : Nat) (rest : List Char) :
    scan (List.replicate count ' ' ++ rest) = scan rest := by
  induction count with
  | zero => rfl
  | succ count ih => rw [List.replicate_succ, List.cons_append, scan_space, ih]

end Token

theorem escapeLiteral_cons (c : Char) (text : List Char) :
    escapeLiteral (c :: text) =
      (if c = '\\' then ['\\', '\\'] else if c = '"' then ['\\', '"'] else [c]) ++
        escapeLiteral text := by
  simp only [escapeLiteral, replaceChar, List.flatMap_cons, List.flatMap_append]
  congr 1
  by_cases backslash : c = '\\'
  · rw [if_pos backslash, if_pos backslash]
    rfl
  · rw [if_neg backslash, if_neg backslash, List.flatMap_singleton]

namespace Token

/-- Inside a string literal the scanner goes through escaped characters up to the closing quote, and
collects the characters that they stand for. -/
theorem run_inText (read text rest : List Char) :
    (Scanner.inText read).run (escapeLiteral text ++ '"' :: rest) =
      .text (String.ofList (read ++ text)) :: scan rest := by
  induction text generalizing read with
  | nil =>
      rw [List.append_nil]
      rfl
  | cons c text ih =>
      rw [escapeLiteral_cons, List.append_assoc]
      have advance : read ++ c :: text = (read ++ [c]) ++ text := by
        rw [List.append_assoc, List.singleton_append]
      rw [advance, ← ih (read ++ [c])]
      by_cases backslash : c = '\\'
      · subst backslash
        rfl
      · rw [if_neg backslash]
        by_cases quote : c = '"'
        · subst quote
          rfl
        · rw [if_neg quote, List.singleton_append, Scanner.run, Scanner.step, if_neg quote,
            if_neg backslash]
          rfl

/-- A string literal is read as the text that was escaped. -/
theorem scan_text (text rest : List Char) :
    scan ('"' :: (escapeLiteral text ++ '"' :: rest)) = .text (String.ofList text) :: scan rest :=
  run_inText [] text rest

/-- The text is read as what is written in front of what follows, wherever no word follows. -/
def Spells (text : String) (write : List Token → List Token) : Prop :=
  ∀ rest, boundary rest = true → scan (text.toList ++ rest) = write (scan rest)

/-- The text ends with no word, so that anything can follow. -/
def Closes (text : String) (tokens : List Token) : Prop :=
  ∀ rest, scan (text.toList ++ rest) = tokens ++ scan rest

/-- The text neither begins nor ends with a word, so that it can stand between any two. -/
structure Divides (text : String) (tokens : List Token) : Prop where
  apart : ∀ rest, boundary (text.toList ++ rest) = true
  reads : Closes text tokens

/-- The tokens of what is left of a list, with commas before each of them. -/
def continued : List (List Token → List Token) → List Token → List Token
  | [], rest => rest
  | write :: more, rest => .symbol ',' :: write (continued more rest)

/-- The tokens of a list, with commas between them. -/
def joined : List (List Token → List Token) → List Token → List Token
  | [], rest => rest
  | write :: more, rest => write (continued more rest)

/-- The tokens of a list, one after the other. -/
def concatenated (writes : List (List Token → List Token)) (rest : List Token) : List Token :=
  writes.foldr (fun write tokens => write tokens) rest

theorem concatenated_cons (write : List Token → List Token)
    (writes : List (List Token → List Token)) (rest : List Token) :
    concatenated (write :: writes) rest = write (concatenated writes rest) := rfl

section Spelling

variable {first second : String} {writeFirst writeSecond : List Token → List Token}

theorem Spells.after (opening : String) (tokens : List Token)
    (spells : Spells second writeSecond)
    (closes : Closes opening tokens := by exact fun _ => rfl) :
    Spells (opening ++ second) fun rest => tokens ++ writeSecond rest := by
  intro rest ends
  rw [String.toList_append, List.append_assoc, closes, spells rest ends]

theorem Spells.closed (spells : Spells first writeFirst) (closing : String) (tokens : List Token)
    (divides : Divides closing tokens := by exact ⟨fun _ => rfl, fun _ => rfl⟩) :
    Spells (first ++ closing) fun rest => writeFirst (tokens ++ rest) := by
  intro rest ends
  rw [String.toList_append, List.append_assoc, spells _ (divides.apart rest), divides.reads]

theorem Spells.between (spells : Spells first writeFirst) (mark : String) (tokens : List Token)
    (continues : Spells second writeSecond)
    (divides : Divides mark tokens := by exact ⟨fun _ => rfl, fun _ => rfl⟩) :
    Spells (first ++ mark ++ second) fun rest => writeFirst (tokens ++ writeSecond rest) := by
  intro rest ends
  rw [String.toList_append, String.toList_append, List.append_assoc, List.append_assoc,
    spells _ (divides.apart _), divides.reads, continues rest ends]

theorem Closes.margin (width level : Nat) {opening : String} {tokens : List Token}
    (closes : Closes opening tokens) :
    Closes (SpecTranspiler.margin width level ++ opening) tokens := by
  intro rest
  rw [String.toList_append, List.append_assoc, SpecTranspiler.margin, String.toList_ofList,
    scan_spaces, closes]

theorem Spells.margin (width level : Nat) (spells : Spells second writeSecond) :
    Spells (SpecTranspiler.margin width level ++ second) writeSecond := by
  intro rest ends
  rw [String.toList_append, List.append_assoc, SpecTranspiler.margin, String.toList_ofList,
    scan_spaces, spells rest ends]

variable {α : Type} {text : α → String} {write : α → List Token → List Token} {items : List α}

theorem spells_intercalate (each : ∀ item ∈ items, Spells (text item) (write item)) :
    Spells (String.intercalate ", " (items.map text)) (joined (items.map write)) := by
  induction items with
  | nil => exact fun rest ends => rfl
  | cons item items ih =>
      obtain ⟨head, tail⟩ := List.forall_mem_cons.mp each
      cases items with
      | nil => exact head
      | cons next items =>
          rw [List.map_cons, List.map_cons, String.intercalate_cons_cons]
          exact head.between ", " [.symbol ','] (ih tail)

/-- Lines are read one after the other, whatever follows the last of them. -/
theorem scan_lines (each : ∀ item ∈ items, Spells (text item) (write item)) (rest : List Char) :
    scan ((String.join ((items.map text).map (· ++ "\n"))).toList ++ rest) =
      concatenated (items.map write) (scan rest) := by
  rw [String.toList_join]
  induction items with
  | nil => rfl
  | cons item items ih =>
      obtain ⟨head, tail⟩ := List.forall_mem_cons.mp each
      rw [List.map_cons, List.map_cons, List.flatMap_cons, List.append_assoc,
        String.toList_append, List.append_assoc, head _ rfl]
      exact congrArg (write item) (ih tail)

end Spelling

end Token

end SpecTranspiler

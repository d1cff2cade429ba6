import SpecTranspiler.Proofs.Reassociation

/-!
# Reading types and terms

A reader of tokens: a word, a literal or a symbol tells what is to be read next, and sums are
grouped to the left. It also takes what is never written; what matters is that it reads back what
is. The readers count down their fuel, and `Gives` says what they give when they have enough.
`Ty.readsBack` says that a well formed type is read back from its tokens.
-/

namespace SpecTranspiler

namespace Token

/-- What follows a symbol. -/
def expect (c : Char) : List Token → Option (List Token)
  | .symbol found :: rest => if found = c then some rest else none
  | _ => none

/-- What follows a word. -/
def expectWord (word : String) : List Token → Option (List Token)
  | .word found :: rest => if found = word then some rest else none
  | _ => none

/-- A word and what follows it. -/
def readWord : List Token → Option (String × List Token)
  | .word found :: rest => some (found, rest)
  | _ => none

/-- What follows a comma, if there is one. -/
def afterComma (tokens : List Token) : List Token :=
  (expect ',' tokens).getD tokens

/-- What follows the two colons of a path. -/
def expectPath (tokens : List Token) : Option (List Token) :=
  (expect ':' tokens).bind (expect ':')

/-- The label at the end of a path and what follows it. -/
def readLabel (tokens : List Token) : Option (String × List Token) :=
  (expectPath tokens).bind readWord

/-- The next tokens are a label and a single colon, or the brace after the last field. -/
def opensFields : List Token → Bool
  | .symbol found :: _ => found == '}'
  | .word _ :: rest => (expect ':' rest).isSome && (expectPath rest).isNone
  | _ => false

/-- What follows the opening brace of the fields of a record. -/
def expectFields (tokens : List Token) : Option (List Token) :=
  (expect '{' tokens).filter opensFields

end Token

open Token

namespace Ty

/-- The container type with a name. -/
def container? : String → List Ty → Option Ty
  | "HashSet", [element] => some (.set element)
  | "HashMap", [key, value] => some (.map key value)
  | _, _ => none

mutual

/-- Read a type. -/
def read : Nat → List Token → Option (Ty × List Token)
  | fuel + 1, .word found :: rest =>
      if found = "struct" then do
        let rest ← expect '{' rest
        let (fields, rest) ← readFields fuel rest
        return (.record fields, rest)
      else if found = "String" then some (.str, rest)
      else if found = "u64" then some (.uint64, rest)
      else if found = "bool" then some (.bool, rest)
      else if found ∈ reservedWords then none
      else
        match expect '<' rest with
        | none => some (.named found, rest)
        | some rest => do
            let (types, rest) ← readItems fuel '>' rest
            let ty ← container? found types
            return (ty, rest)
  | fuel + 1, .symbol found :: rest =>
      if found = '[' then do
        let (element, rest) ← read fuel rest
        let rest ← expect ']' rest
        return (.list element, rest)
      else if found = '&' then
        match expectWord "mut" rest with
        | some rest => do
            let (inner, rest) ← read fuel rest
            return (.ref inner true, rest)
        | none => do
            let (inner, rest) ← read fuel rest
            return (.ref inner false, rest)
      else if found = '(' then do
        let (elements, rest) ← readItems fuel ')' rest
        return (.tuple elements, rest)
      else none
  | _, _ => none

/-- Read types up to a closing symbol. A comma may stand before it. -/
def readItems : Nat → Char → List Token → Option (List Ty × List Token)
  | 0, _, _ => none
  | fuel + 1, close, tokens =>
      match expect close tokens with
      | some rest => some ([], rest)
      | none => do
          let (ty, rest) ← read fuel tokens
          let (types, rest) ← readItems fuel close (afterComma rest)
          return (ty :: types, rest)

/-- Read the fields of a record type up to the closing brace. -/
def readFields : Nat → List Token → Option (List (String × Ty) × List Token)
  | 0, _ => none
  | fuel + 1, tokens =>
      match expect '}' tokens with
      | some rest => some ([], rest)
      | none => do
          let rest ← expectWord "pub" tokens
          let (name, rest) ← readWord rest
          let rest ← expect ':' rest
          let (ty, rest) ← read fuel rest
          let (fields, rest) ← readFields fuel (afterComma rest)
          return ((name, ty) :: fields, rest)

end

/-- Read the types that a call is given. -/
def readArgs (fuel : Nat) (tokens : List Token) : Option (List Ty × List Token) :=
  match expectPath tokens with
  | none => some ([], tokens)
  | some rest => do
      let rest ← expect '<' rest
      readItems fuel '>' rest

end Ty

/-- The value of a numeral. -/
def numeral? (word : String) : Option UInt64 :=
  match word.toList.takeWhile Char.isDigit with
  | [] => none
  | digits => some (UInt64.ofNat (Nat.ofDigitChars 10 digits 0))

mutual

/-- Read a term. -/
def Term.read : Nat → List Token → Option (Term × List Token)
  | 0, _ => none
  | fuel + 1, tokens => do
      let (first, rest) ← Term.readSummand fuel tokens
      Term.readSum fuel first rest

/-- Read the summands after the first. -/
def Term.readSum : Nat → Term → List Token → Option (Term × List Token)
  | 0, _, _ => none
  | fuel + 1, left, tokens =>
      match expect '+' tokens with
      | none => some (left, tokens)
      | some rest => do
          let (right, rest) ← Term.readSummand fuel rest
          Term.readSum fuel (.add left right) rest

/-- Read an operand, with a sign in front of it or not. -/
def Term.readSummand : Nat → List Token → Option (Term × List Token)
  | 0, _ => none
  | fuel + 1, tokens =>
      match expect '&' tokens, expect '!' tokens with
      | some rest, _ => do
          let (operand, rest) ← Term.readOperand fuel rest
          return (.borrow operand, rest)
      | none, some rest => do
          let (operand, rest) ← Term.readOperand fuel rest
          return (.negate operand, rest)
      | none, none => Term.readOperand fuel tokens

/-- Read an operand of a sign. -/
def Term.readOperand : Nat → List Token → Option (Term × List Token)
  | 0, _ => none
  | fuel + 1, tokens => do
      let (base, rest) ← Term.readAtom fuel tokens
      Term.readSuffixes fuel base rest

/-- Read the fields and methods of a term. -/
def Term.readSuffixes : Nat → Term → List Token → Option (Term × List Token)
  | 0, _, _ => none
  | fuel + 1, base, tokens =>
      match expect '.' tokens with
      | none => some (base, tokens)
      | some rest => do
          let (name, rest) ← readWord rest
          let (types, rest) ← Ty.readArgs fuel rest
          match expect '(' rest with
          | none => Term.readSuffixes fuel (.field base name) rest
          | some rest => do
              let (args, rest) ← Term.readItems fuel rest
              Term.readSuffixes fuel (.methodCall base name types args) rest

/-- Read a term that is not an operand with something before or after it. -/
def Term.readAtom : Nat → List Token → Option (Term × List Token)
  | _ + 1, .text content :: rest => do
      let rest ← expect '.' rest
      let rest ← expectWord "to_string" rest
      let rest ← expect '(' rest
      let rest ← expect ')' rest
      return (.literal (.str content), rest)
  | fuel + 1, .word found :: rest =>
      if found = "if" then Term.readChoice fuel rest
      else if found = "true" then some (.literal (.bool true), rest)
      else if found = "false" then some (.literal (.bool false), rest)
      else
        match numeral? found with
        | some value => some (.literal (.uint64 value), rest)
        | none => if found ∈ reservedWords then none else Term.readNamed fuel found rest
  | fuel + 1, .symbol found :: rest =>
      if found = '(' then Term.readGroup fuel rest
      else if found = '{' then Term.readBraces fuel rest
      else if found = '<' then do
        let (ty, rest) ← Ty.read fuel rest
        let rest ← expect '>' rest
        Term.readTypeCall fuel ty rest
      else none
  | _, _ => none

/-- Read a term that starts with a name. -/
def Term.readNamed : Nat → String → List Token → Option (Term × List Token)
  | 0, _, _ => none
  | fuel + 1, name, tokens =>
      match expect '!' tokens, expectFields tokens, readLabel tokens with
      | some rest, _, _ => do
          let rest ← expect '(' rest
          let rest ← expect ')' rest
          return (.todo, rest)
      | none, some rest, _ => do
          let (fields, rest) ← Term.readFields fuel rest
          return (.record name fields, rest)
      | none, none, some (label, rest) =>
          match expect '(' rest with
          | none => some (.variant name label [], rest)
          | some rest => do
              let (args, rest) ← Term.readItems fuel rest
              return (.variant name label args, rest)
      | none, none, none => do
          let (types, rest) ← Ty.readArgs fuel tokens
          match expect '(' rest, expectPath rest with
          | some rest, _ => do
              let (args, rest) ← Term.readItems fuel rest
              return (.call name types args, rest)
          | none, some _ => do
              let ty ← Ty.container? name types
              Term.readTypeCall fuel ty rest
          | none, none => some (.name name, rest)

/-- Read the method and the arguments of a call on a type. -/
def Term.readTypeCall : Nat → Ty → List Token → Option (Term × List Token)
  | 0, _, _ => none
  | fuel + 1, ty, tokens => do
      let rest ← expectPath tokens
      let (method, rest) ← readWord rest
      let (types, rest) ← Ty.readArgs fuel rest
      let rest ← expect '(' rest
      let (args, rest) ← Term.readItems fuel rest
      return (.typeCall ty method types args, rest)

/-- Read what follows an opening parenthesis: a term on its own, or a tuple. -/
def Term.readGroup : Nat → List Token → Option (Term × List Token)
  | 0, _ => none
  | fuel + 1, tokens =>
      match expect ')' tokens with
      | some rest => some (.tuple [], rest)
      | none => do
          let (first, rest) ← Term.read fuel tokens
          match expect ')' rest with
          | some rest => some (first, rest)
          | none => do
              let rest ← expect ',' rest
              let (more, rest) ← Term.readItems fuel rest
              return (.tuple (first :: more), rest)

/-- Read terms up to a closing parenthesis. -/
def Term.readItems : Nat → List Token → Option (List Term × List Token)
  | 0, _ => none
  | fuel + 1, tokens =>
      match expect ')' tokens with
      | some rest => some ([], rest)
      | none => do
          let (term, rest) ← Term.read fuel tokens
          let (terms, rest) ← Term.readItems fuel (afterComma rest)
          return (term :: terms, rest)

/-- Read what follows the word that begins a choice. -/
def Term.readChoice : Nat → List Token → Option (Term × List Token)
  | 0, _ => none
  | fuel + 1, tokens => do
      let (condition, rest) ← Term.read fuel tokens
      let rest ← expect '{' rest
      let (yes, rest) ← Term.read fuel rest
      let rest ← expect '}' rest
      let rest ← expectWord "else" rest
      let rest ← expect '{' rest
      let (no, rest) ← Term.read fuel rest
      let rest ← expect '}' rest
      return (.ifElse condition yes no, rest)

/-- Read what follows an opening brace: a binding, or statements. -/
def Term.readBraces : Nat → List Token → Option (Term × List Token)
  | 0, _ => none
  | fuel + 1, tokens =>
      match expectWord "let" tokens with
      | some rest => do
          let (name, rest) ← readWord rest
          let rest ← expect '=' rest
          let (value, rest) ← Term.read fuel rest
          let rest ← expect ';' rest
          let (body, rest) ← Term.read fuel rest
          let rest ← expect '}' rest
          return (.bind name value body, rest)
      | none => do
          let (body, rest) ← Stmt.readAll fuel tokens
          return (.block body, rest)

/-- Read the fields of a record construction up to the closing brace. -/
def Term.readFields : Nat → List Token → Option (List (String × Term) × List Token)
  | 0, _ => none
  | fuel + 1, tokens =>
      match expect '}' tokens with
      | some rest => some ([], rest)
      | none => do
          let (name, rest) ← readWord tokens
          let rest ← expect ':' rest
          let (value, rest) ← Term.read fuel rest
          let (fields, rest) ← Term.readFields fuel (afterComma rest)
          return ((name, value) :: fields, rest)

/-- Read a statement. -/
def Stmt.read : Nat → List Token → Option (Stmt × List Token)
  | 0, _ => none
  | fuel + 1, tokens =>
      match expectWord "return" tokens with
      | some rest => do
          let (value, rest) ← Term.read fuel rest
          let rest ← expect ';' rest
          return (.ret value, rest)
      | none => do
          let (target, rest) ← Term.read fuel tokens
          let rest ← expect '=' rest
          let (value, rest) ← Term.read fuel rest
          let rest ← expect ';' rest
          return (.assign target value, rest)

/-- Read statements up to the closing brace. -/
def Stmt.readAll : Nat → List Token → Option (List Stmt × List Token)
  | 0, _ => none
  | fuel + 1, tokens =>
      match expect '}' tokens with
      | some rest => some ([], rest)
      | none => do
          let (stmt, rest) ← Stmt.read fuel tokens
          let (stmts, rest) ← Stmt.readAll fuel rest
          return (stmt :: stmts, rest)

end

/-- The computation gives the result whenever it has enough fuel. -/
def Gives {α : Type} (compute : Nat → Option α) (result : α) : Prop :=
  ∃ bound, ∀ fuel, bound ≤ fuel → compute fuel = some result

namespace Gives

variable {α β : Type} {compute : Nat → Option α} {result other : α}

theorem done (result : α) : Gives (fun _ => some result) result :=
  ⟨0, fun _ _ => rfl⟩

theorem later (gives : Gives (fun fuel => compute (fuel + 1)) result) : Gives compute result := by
  obtain ⟨bound, gives⟩ := gives
  refine ⟨bound + 1, fun fuel enough => ?_⟩
  cases fuel with
  | zero => omega
  | succ fuel => exact gives fuel (by omega)

theorem bind {next : Nat → α → Option β} {last : β} (gives : Gives compute result)
    (continues : Gives (fun fuel => next fuel result) last) :
    Gives (fun fuel => (compute fuel).bind (next fuel)) last := by
  obtain ⟨bound, gives⟩ := gives
  obtain ⟨limit, continues⟩ := continues
  refine ⟨max bound limit, fun fuel enough => ?_⟩
  change (compute fuel).bind (next fuel) = some last
  rw [gives fuel (by omega), Option.bind_some]
  exact continues fuel (by omega)

theorem unique (first : Gives compute result) (second : Gives compute other) : result = other := by
  obtain ⟨bound, first⟩ := first
  obtain ⟨limit, second⟩ := second
  have same := (first (max bound limit) (by omega)).symm.trans (second (max bound limit) (by omega))
  exact Option.some.inj same

end Gives

theorem not_mem_reservedWords {name : String} (identifier : isIdentifier name = true) :
    name ∉ reservedWords := by
  obtain ⟨c, rest, _, _, _, _, free⟩ := (isIdentifier_iff name).mp identifier
  exact free

theorem ne_of_isIdentifier {name word : String} (identifier : isIdentifier name = true)
    (reserved : word ∈ reservedWords) : name ≠ word := by
  rintro rfl
  exact not_mem_reservedWords identifier reserved

namespace Token

theorem expect_symbol (c found : Char) (rest : List Token) :
    expect c (.symbol found :: rest) = if found = c then some rest else none := rfl

section Refused

variable {α : Type} {reader : Nat → List Token → Option α} {tokens : List Token} {read : α}

/-- What is read does not begin with a symbol that nothing is read from. -/
theorem expect_eq_none_of_gives {c : Char}
    (refused : ∀ fuel rest, reader fuel (.symbol c :: rest) = none)
    (gives : Gives (fun fuel => reader fuel tokens) read) : expect c tokens = none := by
  obtain ⟨bound, gives⟩ := gives
  have reads : reader bound tokens = some read := gives bound (Nat.le_refl bound)
  cases tokens with
  | nil => rfl
  | cons token rest =>
      cases token with
      | word | text => rfl
      | symbol found =>
          apply if_neg
          rintro rfl
          rw [refused] at reads
          cases reads

/-- What is read does not begin with a word that nothing is read from. -/
theorem expectWord_eq_none_of_gives {word : String}
    (refused : ∀ fuel rest, reader fuel (.word word :: rest) = none)
    (gives : Gives (fun fuel => reader fuel tokens) read) : expectWord word tokens = none := by
  obtain ⟨bound, gives⟩ := gives
  have reads : reader bound tokens = some read := gives bound (Nat.le_refl bound)
  cases tokens with
  | nil => rfl
  | cons token rest =>
      cases token with
      | symbol | text => rfl
      | word found =>
          apply if_neg
          rintro rfl
          rw [refused] at reads
          cases reads

end Refused

theorem afterComma_continued (writes : List (List Token → List Token)) {close : Char}
    (other : close ≠ ',') (rest : List Token) :
    afterComma (continued writes (.symbol close :: rest)) =
      joined writes (.symbol close :: rest) := by
  cases writes with
  | nil => simp only [continued, joined, afterComma, expect, other, ↓reduceIte, Option.getD_none]
  | cons write writes => rfl

/-- After an item of a list comes a comma or the end of the list. -/
theorem expect_continued (writes : List (List Token → List Token)) {mark close : Char}
    (notComma : mark ≠ ',') (notClose : mark ≠ close) (rest : List Token) :
    expect mark (continued writes (.symbol close :: rest)) = none := by
  cases writes with
  | nil => exact if_neg notClose.symm
  | cons write writes => exact if_neg notComma.symm

end Token

namespace Ty

theorem read_symbol {close : Char} (closing : close = ')' ∨ close = '>') (fuel : Nat)
    (rest : List Token) : read fuel (.symbol close :: rest) = none := by
  cases fuel with
  | zero => rfl
  | succ fuel =>
      rw [read]
      rcases closing with rfl | rfl
      · rfl
      · rfl

theorem read_mut (fuel : Nat) (rest : List Token) : read fuel (.word "mut" :: rest) = none := by
  cases fuel with
  | zero => rfl
  | succ fuel =>
      rw [read]
      rfl

/-- The type is read back from its tokens, unless they are followed by types. -/
def ReadsBack (ty : Ty) : Prop :=
  ∀ rest, expect '<' rest = none → Gives (fun fuel => read fuel (ty.tokens rest)) (ty, rest)

/-- Types with commas between them are read back up to the closing bracket, if each of them is. -/
theorem readItems_joined {close : Char} (closing : close = ')' ∨ close = '>') {types : List Ty}
    (each : ∀ ty ∈ types, ty.ReadsBack) (rest : List Token) :
    Gives (fun fuel => readItems fuel close (joined (types.map tokens) (.symbol close :: rest)))
      (types, rest) := by
  have notComma : close ≠ ',' := by rcases closing with rfl | rfl <;> decide
  have notAngle : '<' ≠ close := by rcases closing with rfl | rfl <;> decide
  apply Gives.later
  induction types with
  | nil =>
      simp only [List.map_nil, joined, readItems, expect_symbol, ↓reduceIte]
      exact .done _
  | cons ty types ih =>
      obtain ⟨head, tail⟩ := List.forall_mem_cons.mp each
      have first := head (continued (types.map tokens) (.symbol close :: rest))
        (expect_continued _ (by decide) notAngle rest)
      have opened := expect_eq_none_of_gives (read_symbol closing) first
      simp only [List.map_cons, joined, readItems, opened, Option.bind_eq_bind]
      refine first.bind ?_
      simp only [afterComma_continued _ notComma]
      exact (ih tail).later.bind (.done _)

/-- The elements of a tuple type are read, also when there is only one. -/
theorem gives_tuple {elements : List Ty} (each : ∀ ty ∈ elements, ty.ReadsBack)
    (rest : List Token) :
    Gives (fun fuel => read fuel (Token.tuple (elements.map tokens) rest))
      (.tuple elements, rest) := by
  have enclosed {tokens : List Token}
      (items : Gives (fun fuel => readItems fuel ')' tokens) (elements, rest)) :
      Gives (fun fuel => read fuel (.symbol '(' :: tokens)) (.tuple elements, rest) := by
    apply Gives.later
    simp only [read, Char.reduceEq, ↓reduceIte, Option.bind_eq_bind]
    exact items.bind (.done _)
  have items := readItems_joined (.inl rfl) each rest
  cases elements with
  | nil => exact enclosed items
  | cons ty more =>
      cases more with
      | nil =>
          have single := each ty (List.mem_singleton_self ty)
            (.symbol ',' :: .symbol ')' :: rest) rfl
          have opened := expect_eq_none_of_gives (read_symbol (.inl rfl)) single
          apply enclosed
          apply Gives.later
          simp only [readItems, opened, Option.bind_eq_bind]
          refine single.bind ?_
          simp only [afterComma, expect_symbol, ↓reduceIte, Option.getD_some]
          exact (readItems_joined (.inl rfl) (List.forall_mem_nil _) rest).bind (.done _)
      | cons next more => exact enclosed items

/-- The fields of a record type are read back up to the closing brace, if their types are. -/
theorem readFields_joined {fields : List (String × Ty)}
    (each : ∀ field ∈ fields, field.2.ReadsBack) (rest : List Token) :
    Gives (fun fuel => readFields fuel (joined (fields.map tokensOfField) (.symbol '}' :: rest)))
      (fields, rest) := by
  apply Gives.later
  induction fields with
  | nil => exact .done _
  | cons field fields ih =>
      obtain ⟨head, tail⟩ := List.forall_mem_cons.mp each
      have first := head (continued (fields.map tokensOfField) (.symbol '}' :: rest))
        (expect_continued _ (by decide) (by decide) rest)
      simp only [List.map_cons, joined, tokensOfField, readFields, expect, expectWord, readWord,
        ↓reduceIte, Option.bind_eq_bind, Option.bind_some]
      refine first.bind ?_
      simp only [afterComma_continued _ (by decide : '}' ≠ ',')]
      exact (ih tail).later.bind (.done _)

/-- Every well-formed type is read back. The induction is on the types directly below it. -/
theorem readsBack (ty : Ty) : ty.isWellFormed = true → ty.ReadsBack := by
  induction ty using partsInduction with | _ ty below
  intro wellFormed rest ends
  cases ty with
  | tuple elements =>
      rw [isWellFormed, areWellFormed_iff] at wellFormed
      have all := gives_tuple (fun item member => below item member (wellFormed item member)) rest
      rwa [← tokensAll_eq_map] at all
  | str | uint64 | bool =>
      apply Gives.later
      simp only [tokens, read, String.reduceEq, ↓reduceIte]
      exact .done _
  | named name =>
      rw [isWellFormed, Bool.and_eq_true] at wellFormed
      obtain ⟨identifier, plain⟩ := wellFormed
      have notStruct := ne_of_isIdentifier identifier (by decide : "struct" ∈ reservedWords)
      have others : name ≠ "String" ∧ name ≠ "u64" ∧ name ≠ "bool" := by
        simpa [plainTypes] using plain
      apply Gives.later
      simp only [tokens, read, notStruct, others, not_mem_reservedWords identifier, ends,
        ↓reduceIte]
      exact .done _
  | list element =>
      have inner := below element (List.mem_singleton_self element) wellFormed
      apply Gives.later
      simp only [tokens, read, ↓reduceIte, Option.bind_eq_bind]
      exact (inner (.symbol ']' :: rest) rfl).bind (.done _)
  | ref inner mutable =>
      have operand := below inner (List.mem_singleton_self inner) wellFormed rest ends
      apply Gives.later
      cases mutable with
      | true =>
          simp only [tokens, read, Char.reduceEq, expectWord, ↓reduceIte, Option.bind_eq_bind]
          exact operand.bind (.done _)
      | false =>
          simp only [tokens, read, Char.reduceEq, ↓reduceIte, Option.bind_eq_bind,
            expectWord_eq_none_of_gives read_mut operand]
          exact operand.bind (.done _)
  | set element =>
      have inner := below element (List.mem_singleton_self element) wellFormed
      have items := readItems_joined (.inr rfl) (List.forall_mem_singleton.mpr inner) rest
      apply Gives.later
      simp only [tokens, read, String.reduceEq, ↓reduceIte, expect_symbol, Option.bind_eq_bind]
      exact items.bind (.done _)
  | map key value =>
      rw [isWellFormed, Bool.and_eq_true] at wellFormed
      have first := below key (by simp [parts]) wellFormed.1
      have second := below value (by simp [parts]) wellFormed.2
      have items := readItems_joined (.inr rfl)
        (List.forall_mem_cons.mpr ⟨first, List.forall_mem_singleton.mpr second⟩) rest
      apply Gives.later
      simp only [tokens, read, String.reduceEq, ↓reduceIte, expect_symbol, Option.bind_eq_bind]
      exact items.bind (.done _)
  | record fields =>
      simp only [isWellFormed, areWellFormedFields_iff] at wellFormed
      have all := readFields_joined (fun field member => below field.2 (List.mem_map_of_mem member)
        (wellFormed field member).2) rest
      apply Gives.later
      simp only [tokens, fieldTokens_eq_map, read, ↓reduceIte, expect_symbol, Option.bind_eq_bind,
        Option.bind_some]
      exact all.bind (.done _)

theorem readArgs_argTokens {types : List Ty} (wellFormed : areWellFormed types = true)
    (rest : List Token) (last : types = [] → expectPath rest = none) :
    Gives (fun fuel => readArgs fuel (argTokens types rest)) (types, rest) := by
  rw [areWellFormed_iff] at wellFormed
  cases types with
  | nil =>
      simp only [argTokens, readArgs, last rfl]
      exact .done _
  | cons ty types =>
      have items := readItems_joined (.inr rfl)
        (fun item member => readsBack item (wellFormed item member)) rest
      rwa [← tokensAll_eq_map] at items

/-- The types that a call is given are neither a mark nor fields nor a label. -/
theorem argTokens_follows {types : List Ty} (rest : List Token)
    (last : types = [] → ∃ tokens, rest = .symbol '(' :: tokens) :
    expect '!' (argTokens types rest) = none ∧ expectFields (argTokens types rest) = none ∧
      readLabel (argTokens types rest) = none := by
  cases types with
  | nil =>
      obtain ⟨tokens, rfl⟩ := last rfl
      exact ⟨rfl, rfl, rfl⟩
  | cons ty types => exact ⟨rfl, rfl, rfl⟩

end Ty

theorem numeral?_of_isIdentifier {name : String} (identifier : isIdentifier name = true) :
    numeral? name = none := by
  obtain ⟨c, rest, letters, _, notDigit, _, _⟩ := (isIdentifier_iff name).mp identifier
  rw [numeral?, letters, List.takeWhile_cons, notDigit]
  rfl

theorem numeral?_of_uint64 (value : UInt64) :
    numeral? (toString value.toNat ++ "_u64") = some value := by
  have digits : (toString value.toNat).toList = Nat.toDigits 10 value.toNat := Nat.toList_repr
  have taken : (toString value.toNat ++ "_u64").toList.takeWhile Char.isDigit =
      Nat.toDigits 10 value.toNat := by
    rw [String.toList_append, List.takeWhile_append_of_pos fun c => isDigit_of_mem_toString,
      digits]
    exact List.append_nil _
  have nonempty : Nat.toDigits 10 value.toNat ≠ [] := Nat.toDigits_ne_nil
  obtain ⟨c, rest, split⟩ := List.exists_cons_of_ne_nil nonempty
  rw [numeral?, taken, split]
  simp only [Option.some.injEq]
  rw [← split, Nat.ofDigitChars_toDigits (by decide) (by decide), UInt64.ofNat_toNat]

end SpecTranspiler

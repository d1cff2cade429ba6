import SpecTranspiler.Proofs.Subterms
import SpecTranspiler.Proofs.Tokens

/-!
# The tokens of types and terms

The tokens that a type or a term is written with, in front of what follows it. They depend
neither on the level nor on the width of a level. `Ty.spells` and `Term.spells` say that they are
what the text of a well formed type or term is read as.
-/

namespace SpecTranspiler

/-- The words that have a meaning of their own in types and terms. -/
def reservedWords : List String :=
  ["if", "else", "let", "return", "true", "false", "mut", "pub", "struct"]

/-- The texts of the types that are written as a single word of their own. -/
def plainTypes : List String :=
  ["String", "u64", "bool"]

/-- The text is a name: a letter or an underscore, then letters, digits and underscores, and none
of the reserved words. Every character beyond ASCII counts as a letter. -/
def isIdentifier (name : String) : Bool :=
  match name.toList with
  | [] => false
  | c :: rest =>
      isWordChar c && !c.isDigit && rest.all isWordChar && !reservedWords.contains name

mutual

/-- The names in the type are identifiers, and none of them is the text of a plain type. -/
def Ty.isWellFormed : Ty → Bool
  | .record fields => Ty.areWellFormedFields fields
  | .str | .uint64 | .bool => true
  | .tuple elements => Ty.areWellFormed elements
  | .list element => element.isWellFormed
  | .set element => element.isWellFormed
  | .map key value => key.isWellFormed && value.isWellFormed
  | .named name => isIdentifier name && !plainTypes.contains name
  | .ref inner _ => inner.isWellFormed

/-- The types are well formed. -/
def Ty.areWellFormed : List Ty → Bool
  | [] => true
  | ty :: rest => ty.isWellFormed && Ty.areWellFormed rest

/-- The names of the fields are identifiers, and their types are well formed. -/
def Ty.areWellFormedFields : List (String × Ty) → Bool
  | [] => true
  | (name, ty) :: rest => isIdentifier name && ty.isWellFormed && Ty.areWellFormedFields rest

end

mutual

/-- The names in the term are identifiers, and its types are well formed. -/
def Term.isWellFormed : Term → Bool
  | .literal _ => true
  | .name name => isIdentifier name
  | .field base field => base.isWellFormed && isIdentifier field
  | .record name fields => isIdentifier name && Term.areWellFormedFields fields
  | .variant enum variant args =>
      isIdentifier enum && isIdentifier variant && Term.areWellFormed args
  | .tuple elements => Term.areWellFormed elements
  | .borrow operand => operand.isWellFormed
  | .call function types args =>
      isIdentifier function && Ty.areWellFormed types && Term.areWellFormed args
  | .typeCall ty method types args =>
      ty.isWellFormed && isIdentifier method && Ty.areWellFormed types && Term.areWellFormed args
  | .methodCall receiver method types args =>
      receiver.isWellFormed && isIdentifier method && Ty.areWellFormed types &&
        Term.areWellFormed args
  | .ifElse condition yes no => condition.isWellFormed && yes.isWellFormed && no.isWellFormed
  | .negate operand => operand.isWellFormed
  | .add left right => left.isWellFormed && right.isWellFormed
  | .bind name value body => isIdentifier name && value.isWellFormed && body.isWellFormed
  | .block body => Stmt.areWellFormed body
  | .todo => true

/-- The terms are well formed. -/
def Term.areWellFormed : List Term → Bool
  | [] => true
  | term :: rest => term.isWellFormed && Term.areWellFormed rest

/-- The names of the fields are identifiers, and their values are well formed. -/
def Term.areWellFormedFields : List (String × Term) → Bool
  | [] => true
  | (name, value) :: rest =>
      isIdentifier name && value.isWellFormed && Term.areWellFormedFields rest

/-- The terms of the statement are well formed. -/
def Stmt.isWellFormed : Stmt → Bool
  | .assign target value => target.isWellFormed && value.isWellFormed
  | .ret value => value.isWellFormed

/-- The statements are well formed. -/
def Stmt.areWellFormed : List Stmt → Bool
  | [] => true
  | stmt :: rest => stmt.isWellFormed && Stmt.areWellFormed rest

end

/-- The tokens of a list between parentheses, where a single item is followed by a comma. -/
def Token.tuple : List (List Token → List Token) → List Token → List Token
  | [write], rest => .symbol '(' :: write (.symbol ',' :: .symbol ')' :: rest)
  | writes, rest => .symbol '(' :: Token.joined writes (.symbol ')' :: rest)

/-- The tokens of arguments. -/
def Token.arguments (writes : List (List Token → List Token)) (rest : List Token) :
    List Token :=
  .symbol '(' :: Token.joined writes (.symbol ')' :: rest)

/-- The tokens of an operand, between parentheses if they are needed. -/
def Token.operand (needed : Bool) (write : List Token → List Token) (rest : List Token) :
    List Token :=
  if needed then .symbol '(' :: write (.symbol ')' :: rest) else write rest

namespace Ty

mutual

/-- The tokens of a type. -/
def tokens : Ty → List Token → List Token
  | .record fields, rest =>
      .word "struct" :: .symbol '{' :: Token.joined (fieldTokens fields) (.symbol '}' :: rest)
  | .str, rest => .word "String" :: rest
  | .uint64, rest => .word "u64" :: rest
  | .bool, rest => .word "bool" :: rest
  | .tuple elements, rest => Token.tuple (tokensAll elements) rest
  | .list element, rest => .symbol '[' :: element.tokens (.symbol ']' :: rest)
  | .set element, rest =>
      .word "HashSet" :: .symbol '<' :: element.tokens (.symbol '>' :: rest)
  | .map key value, rest =>
      .word "HashMap" :: .symbol '<' ::
        key.tokens (.symbol ',' :: value.tokens (.symbol '>' :: rest))
  | .named name, rest => .word name :: rest
  | .ref inner true, rest => .symbol '&' :: .word "mut" :: inner.tokens rest
  | .ref inner false, rest => .symbol '&' :: inner.tokens rest

/-- The tokens of types. -/
def tokensAll : List Ty → List (List Token → List Token)
  | [] => []
  | ty :: rest => ty.tokens :: tokensAll rest

/-- The tokens of the fields of a record type. -/
def fieldTokens : List (String × Ty) → List (List Token → List Token)
  | [] => []
  | (name, ty) :: fields =>
      (fun rest => .word "pub" :: .word name :: .symbol ':' :: ty.tokens rest) ::
        fieldTokens fields

end

/-- The tokens of a type that a path starts with. -/
def pathTokens : Ty → List Token → List Token
  | .set element, rest =>
      .word "HashSet" :: .symbol ':' :: .symbol ':' :: .symbol '<' ::
        element.tokens (.symbol '>' :: rest)
  | .map key value, rest =>
      .word "HashMap" :: .symbol ':' :: .symbol ':' :: .symbol '<' ::
        key.tokens (.symbol ',' :: value.tokens (.symbol '>' :: rest))
  | other, rest => .symbol '<' :: other.tokens (.symbol '>' :: rest)

/-- The tokens of the types that a call is given. -/
def argTokens (types : List Ty) (rest : List Token) : List Token :=
  match types with
  | [] => rest
  | types =>
      .symbol ':' :: .symbol ':' :: .symbol '<' ::
        Token.joined (tokensAll types) (.symbol '>' :: rest)

end Ty

/-- The tokens of a literal. -/
def Literal.tokens : Literal → List Token
  | .uint64 value => [.word (toString value.toNat ++ "_u64")]
  | .str value =>
      [.text value, .symbol '.', .word "to_string", .symbol '(', .symbol ')']
  | .bool true => [.word "true"]
  | .bool false => [.word "false"]

mutual

/-- The tokens of a term. -/
@[simp]
def Term.tokens : Term → List Token → List Token
  | .literal value, rest => value.tokens ++ rest
  | .name name, rest => .word name :: rest
  | .field base field, rest =>
      Token.operand base.isCompound base.tokens (.symbol '.' :: .word field :: rest)
  | .record name fields, rest =>
      .word name :: .symbol '{' ::
        Token.concatenated (Term.fieldTokens fields) (.symbol '}' :: rest)
  | .variant enum variant [], rest =>
      .word enum :: .symbol ':' :: .symbol ':' :: .word variant :: rest
  | .variant enum variant (arg :: args), rest =>
      .word enum :: .symbol ':' :: .symbol ':' :: .word variant ::
        Token.arguments (Term.tokensAll (arg :: args)) rest
  | .tuple elements, rest => Token.tuple (Term.tokensAll elements) rest
  | .borrow operand, rest => .symbol '&' :: Token.operand operand.isCompound operand.tokens rest
  | .call function types args, rest =>
      .word function :: Ty.argTokens types (Token.arguments (Term.tokensAll args) rest)
  | .typeCall ty method types args, rest =>
      ty.pathTokens (.symbol ':' :: .symbol ':' :: .word method ::
        Ty.argTokens types (Token.arguments (Term.tokensAll args) rest))
  | .methodCall receiver method types args, rest =>
      Token.operand receiver.isCompound receiver.tokens (.symbol '.' :: .word method ::
        Ty.argTokens types (Token.arguments (Term.tokensAll args) rest))
  | .ifElse condition yes no, rest =>
      .word "if" :: condition.tokens (.symbol '{' :: yes.tokens (.symbol '}' ::
        .word "else" :: .symbol '{' :: no.tokens (.symbol '}' :: rest)))
  | .negate operand, rest => .symbol '!' :: Token.operand operand.isCompound operand.tokens rest
  | .add left right, rest =>
      Token.operand left.isBraced left.tokens
        (.symbol '+' :: Token.operand right.isBraced right.tokens rest)
  | .bind name value body, rest =>
      .symbol '{' :: .word "let" :: .word name :: .symbol '=' ::
        value.tokens (.symbol ';' :: body.tokens (.symbol '}' :: rest))
  | .block body, rest =>
      .symbol '{' :: Token.concatenated (Stmt.tokensAll body) (.symbol '}' :: rest)
  | .todo, rest => .word "todo" :: .symbol '!' :: .symbol '(' :: .symbol ')' :: rest

/-- The tokens of terms. -/
def Term.tokensAll : List Term → List (List Token → List Token)
  | [] => []
  | term :: terms => term.tokens :: Term.tokensAll terms

/-- The tokens of the fields of a record construction. -/
def Term.fieldTokens : List (String × Term) → List (List Token → List Token)
  | [] => []
  | (name, value) :: fields =>
      (fun rest => .word name :: .symbol ':' :: value.tokens (.symbol ',' :: rest)) ::
        Term.fieldTokens fields

/-- The tokens of a statement. -/
def Stmt.tokens : Stmt → List Token → List Token
  | .assign target value, rest =>
      target.tokens (.symbol '=' :: value.tokens (.symbol ';' :: rest))
  | .ret value, rest => .word "return" :: value.tokens (.symbol ';' :: rest)

/-- The tokens of statements. -/
def Stmt.tokensAll : List Stmt → List (List Token → List Token)
  | [] => []
  | stmt :: stmts => stmt.tokens :: Stmt.tokensAll stmts

end

theorem isIdentifier_iff (name : String) :
    isIdentifier name = true ↔
      ∃ c rest, name.toList = c :: rest ∧ isWordChar c = true ∧ c.isDigit = false ∧
        (∀ d ∈ rest, isWordChar d = true) ∧ name ∉ reservedWords := by
  unfold isIdentifier
  cases name.toList with
  | nil => simp
  | cons c rest =>
      simp only [Bool.and_eq_true, Bool.not_eq_true', List.all_eq_true, List.contains_iff_mem,
        ← Bool.not_eq_true, List.cons.injEq]
      grind

namespace Token

section Spelling

variable {first text : String} {write : List Token → List Token}

theorem spells_word (chars : text.toList.all isWordChar = true) (nonempty : text.toList ≠ []) :
    Spells text fun rest => .word text :: rest := by
  intro rest ends
  rw [scan_word (List.all_eq_true.mp chars) nonempty ends, String.ofList_toList]

theorem spells_name (identifier : isIdentifier text = true) :
    Spells text fun rest => .word text :: rest := by
  obtain ⟨c, rest, letters, head, _, tail, _⟩ := (isIdentifier_iff text).mp identifier
  apply spells_word
  · rw [letters]
    exact List.all_eq_true.mpr (List.forall_mem_cons.mpr ⟨head, tail⟩)
  · rw [letters]
    exact List.cons_ne_nil c rest

theorem spells_operand (needed : Bool) (spells : Spells text write) :
    Spells (Term.parenthesize needed text) (operand needed write) := by
  cases needed with
  | true => exact (spells.after "(" [.symbol '(']).closed ")" [.symbol ')']
  | false => exact spells

variable {α : Type} {items : List α} {textOf : α → String} {writeOf : α → List Token → List Token}

theorem spells_tuple (each : ∀ item ∈ items, Spells (textOf item) (writeOf item)) :
    Spells (Ty.parenthesized (items.map textOf)) (tuple (items.map writeOf)) := by
  cases items with
  | nil => exact ((spells_intercalate each).after "(" [.symbol '(']).closed ")" [.symbol ')']
  | cons item items =>
      cases items with
      | nil =>
          have single := each item (List.mem_singleton_self item)
          exact (single.after "(" [.symbol '(']).closed ",)" [.symbol ',', .symbol ')']
      | cons next items =>
          exact ((spells_intercalate each).after "(" [.symbol '(']).closed ")" [.symbol ')']

theorem Spells.applied (spells : Spells first write)
    (each : ∀ item ∈ items, Spells (textOf item) (writeOf item)) :
    Spells (first ++ "(" ++ String.intercalate ", " (items.map textOf) ++ ")") fun rest =>
      write (arguments (items.map writeOf) rest) :=
  (spells.between "(" [.symbol '('] (spells_intercalate each)).closed ")" [.symbol ')']

/-- Texts on lines between braces spell their tokens between braces, whatever the margins. -/
theorem spells_bracedLines (width level : Nat)
    (each : ∀ item ∈ items, Spells (textOf item) (writeOf item)) :
    Spells (Term.bracedLines width level (items.map textOf)) fun rest =>
      .symbol '{' :: concatenated (items.map writeOf) (.symbol '}' :: rest) := by
  intro rest ends
  cases items with
  | nil =>
      change scan ("\x7b\x7d".toList ++ rest) = _
      rfl
  | cons item items =>
      have closing : Closes (margin width level ++ "\x7d") [.symbol '}'] :=
        Closes.margin width level fun rest => rfl
      change _ = .symbol '{' :: concatenated _ ([.symbol '}'] ++ scan rest)
      rw [← closing, ← scan_lines each]
      simp only [List.map_cons, Term.bracedLines, String.toList_append, List.append_assoc]
      rfl

theorem spells_bracedLine (width level : Nat) (spells : Spells text write) :
    Spells (Term.bracedLines width level [text]) fun rest =>
      .symbol '{' :: write (.symbol '}' :: rest) := by
  have each : ∀ line ∈ [(text, write)], Spells line.1 line.2 := by
    simpa only [List.forall_mem_singleton] using spells
  have whole := spells_bracedLines width level each
  simp only [List.map_cons, List.map_nil, concatenated, List.foldr_cons, List.foldr_nil] at whole
  exact whole

theorem spells_bracedPair (width level : Nat) {last : String}
    {writeLast : List Token → List Token} (spells : Spells text write)
    (spellsLast : Spells last writeLast) :
    Spells (Term.bracedLines width level [text, last]) fun rest =>
      .symbol '{' :: write (writeLast (.symbol '}' :: rest)) := by
  have each : ∀ line ∈ [(text, write), (last, writeLast)], Spells line.1 line.2 := by
    simpa [List.forall_mem_cons] using ⟨spells, spellsLast⟩
  have whole := spells_bracedLines width level each
  simp only [List.map_cons, List.map_nil, concatenated, List.foldr_cons, List.foldr_nil] at whole
  exact whole

end Spelling

end Token

namespace Ty

/-- The tokens of a field of a record type. -/
def tokensOfField (field : String × Ty) (rest : List Token) : List Token :=
  .word "pub" :: .word field.1 :: .symbol ':' :: field.2.tokens rest

theorem renderAll_eq_map (types : List Ty) : renderAll types = types.map render := by
  induction types with
  | nil => rfl
  | cons ty types ih => rw [renderAll, ih, List.map_cons]

theorem renderFields_eq_map (fields : List (String × Ty)) :
    renderFields fields = fields.map fun field => "pub " ++ field.1 ++ ": " ++ field.2.render := by
  induction fields with
  | nil => rfl
  | cons field fields ih => rw [renderFields, ih, List.map_cons]

theorem tokensAll_eq_map (types : List Ty) : tokensAll types = types.map tokens := by
  induction types with
  | nil => rfl
  | cons ty types ih => rw [tokensAll, ih, List.map_cons]

theorem fieldTokens_eq_map (fields : List (String × Ty)) :
    fieldTokens fields = fields.map tokensOfField := by
  induction fields with
  | nil => rfl
  | cons field fields ih =>
      rw [fieldTokens, ih, List.map_cons]
      rfl

theorem areWellFormed_iff (types : List Ty) :
    areWellFormed types = true ↔ ∀ ty ∈ types, ty.isWellFormed = true := by
  induction types with
  | nil => simp [areWellFormed]
  | cons ty types ih => simp [areWellFormed, ih]

theorem areWellFormedFields_iff (fields : List (String × Ty)) :
    areWellFormedFields fields = true ↔
      ∀ field ∈ fields, isIdentifier field.1 = true ∧ field.2.isWellFormed = true := by
  induction fields with
  | nil => simp [areWellFormedFields]
  | cons field fields ih => simp [areWellFormedFields, ih]

/-- A well formed type is read as its tokens. -/
theorem spells (ty : Ty) : ty.isWellFormed = true → Token.Spells ty.render ty.tokens := by
  induction ty using partsInduction with | _ ty below
  intro wellFormed
  cases ty with
  | str | uint64 | bool => exact Token.spells_word (by decide) (by decide)
  | named name =>
      rw [isWellFormed, Bool.and_eq_true] at wellFormed
      exact Token.spells_name wellFormed.1
  | list element =>
      have inner := below element (List.mem_singleton_self element) wellFormed
      exact (inner.after "[" [.symbol '[']).closed "]" [.symbol ']']
  | set element =>
      have inner := below element (List.mem_singleton_self element) wellFormed
      exact (inner.after "HashSet<" [.word "HashSet", .symbol '<']).closed ">" [.symbol '>']
  | map key value =>
      rw [isWellFormed, Bool.and_eq_true] at wellFormed
      have first := below key (by simp [parts]) wellFormed.1
      have second := below value (by simp [parts]) wellFormed.2
      exact ((first.after "HashMap<" [.word "HashMap", .symbol '<']).between ", " [.symbol ',']
        second).closed ">" [.symbol '>']
  | ref inner mutable =>
      have operand := below inner (List.mem_singleton_self inner) wellFormed
      cases mutable with
      | true => exact operand.after "&mut " [.symbol '&', .word "mut"]
      | false => exact operand.after "&" [.symbol '&']
  | tuple elements =>
      rw [isWellFormed, areWellFormed_iff] at wellFormed
      have each := Token.spells_tuple fun item member => below item member (wellFormed item member)
      rwa [← renderAll_eq_map, ← tokensAll_eq_map] at each
  | record fields =>
      rw [isWellFormed, areWellFormedFields_iff] at wellFormed
      have each : ∀ field ∈ fields, Token.Spells ("pub " ++ field.1 ++ ": " ++ field.2.render)
          (tokensOfField field) := by
        intro field member
        have name := Token.spells_name (wellFormed field member).1
        have inner := below field.2 (List.mem_map_of_mem member) (wellFormed field member).2
        exact (name.after "pub " [.word "pub"]).between ": " [.symbol ':'] inner
      have all := Token.spells_intercalate each
      rw [← renderFields_eq_map, ← fieldTokens_eq_map] at all
      cases fields with
      | nil =>
          intro rest ends
          change Token.scan ("struct \x7b\x7d".toList ++ rest) = _
          rfl
      | cons field fields =>
          exact (all.after "struct \x7b " [.word "struct", .symbol '{']).closed " \x7d"
            [.symbol '}']

theorem spells_path {ty : Ty} (wellFormed : ty.isWellFormed = true) :
    Token.Spells ty.renderPath ty.pathTokens := by
  have whole := ty.spells wellFormed
  cases ty with
  | set element =>
      exact ((element.spells wellFormed).after "HashSet::<"
        [.word "HashSet", .symbol ':', .symbol ':', .symbol '<']).closed ">" [.symbol '>']
  | map key value =>
      rw [isWellFormed, Bool.and_eq_true] at wellFormed
      exact (((key.spells wellFormed.1).after "HashMap::<"
        [.word "HashMap", .symbol ':', .symbol ':', .symbol '<']).between ", " [.symbol ',']
          (value.spells wellFormed.2)).closed ">" [.symbol '>']
  | record | str | uint64 | bool | tuple | list | named | ref =>
      exact (whole.after "<" [.symbol '<']).closed ">" [.symbol '>']

end Ty

theorem Token.Spells.instantiated {first : String} {write : List Token → List Token}
    (spells : Spells first write) {types : List Ty} (wellFormed : Ty.areWellFormed types = true) :
    Spells (first ++ Ty.renderTypeArgs types) fun rest => write (Ty.argTokens types rest) := by
  rw [Ty.areWellFormed_iff] at wellFormed
  cases types with
  | nil =>
      rw [show first ++ Ty.renderTypeArgs [] = first from String.append_empty]
      exact spells
  | cons ty types =>
      have all := spells_intercalate fun item member => Ty.spells item (wellFormed item member)
      rw [← Ty.renderAll_eq_map, ← Ty.tokensAll_eq_map] at all
      simp only [Ty.renderTypeArgs, ← String.append_assoc]
      exact (spells.between "::<" [.symbol ':', .symbol ':', .symbol '<'] all).closed ">"
        [.symbol '>']

theorem isDigit_of_mem_toString {n : Nat} {c : Char} (member : c ∈ (toString n).toList) :
    c.isDigit = true := by
  rw [show (toString n).toList = Nat.toDigits 10 n from Nat.toList_repr] at member
  exact Nat.isDigit_of_mem_toDigits (by decide) (by decide) member

/-- A literal is read as its tokens. -/
theorem Literal.spells (value : Literal) :
    Token.Spells value.render fun rest => value.tokens ++ rest := by
  cases value with
  | uint64 value =>
      apply Token.spells_word
      · rw [render, String.toList_append, List.all_append, Bool.and_eq_true]
        refine ⟨List.all_eq_true.mpr fun c member => ?_, by decide⟩
        simp only [isWordChar, Char.isAlphanum, isDigit_of_mem_toString member, Bool.or_true,
          Bool.true_or]
      · rw [render, String.toList_append]
        exact List.append_ne_nil_of_right_ne_nil _ (by decide)
  | str value =>
      intro rest ends
      have owned : Token.Closes ".to_string()"
          [.symbol '.', .word "to_string", .symbol '(', .symbol ')'] := fun rest => rfl
      have parts : (render (.str value)).toList ++ rest =
          '"' :: (escapeLiteral value.toList ++ '"' :: (".to_string()".toList ++ rest)) := by
        simp only [render, String.toList_append, String.toList_ofList, String.reduceToList,
          List.cons_append, List.nil_append, List.append_assoc]
      rw [parts, Token.scan_text, owned, String.ofList_toList]
      rfl
  | bool value => cases value <;> exact Token.spells_word (by decide) (by decide)

namespace Term

/-- The tokens of a field of a record construction. -/
def tokensOfField (field : String × Term) (rest : List Token) : List Token :=
  .word field.1 :: .symbol ':' :: field.2.tokens (.symbol ',' :: rest)

theorem renderAll_eq_map (width level : Nat) (terms : List Term) :
    renderAll width level terms = terms.map (render width level) := by
  induction terms with
  | nil => rfl
  | cons term terms ih => rw [renderAll, ih, List.map_cons]

theorem renderFields_eq_map (width level : Nat) (fields : List (String × Term)) :
    renderFields width level fields = fields.map fun field =>
      margin width level ++ field.1 ++ ": " ++ field.2.render width level ++ "," := by
  induction fields with
  | nil => rfl
  | cons field fields ih => rw [renderFields, ih, List.map_cons]

theorem tokensAll_eq_map (terms : List Term) : tokensAll terms = terms.map tokens := by
  induction terms with
  | nil => rfl
  | cons term terms ih => rw [tokensAll, ih, List.map_cons]

theorem fieldTokens_eq_map (fields : List (String × Term)) :
    fieldTokens fields = fields.map tokensOfField := by
  induction fields with
  | nil => rfl
  | cons field fields ih =>
      rw [fieldTokens, ih, List.map_cons]
      rfl

theorem areWellFormed_iff (terms : List Term) :
    areWellFormed terms = true ↔ ∀ term ∈ terms, term.isWellFormed = true := by
  induction terms with
  | nil => simp [areWellFormed]
  | cons term terms ih => simp [areWellFormed, ih]

theorem areWellFormedFields_iff (fields : List (String × Term)) :
    areWellFormedFields fields = true ↔
      ∀ field ∈ fields, isIdentifier field.1 = true ∧ field.2.isWellFormed = true := by
  induction fields with
  | nil => simp [areWellFormedFields]
  | cons field fields ih => simp [areWellFormedFields, ih]

end Term

namespace Stmt

theorem renderAll_eq_map (width level : Nat) (body : List Stmt) :
    renderAll width level body = body.map (render width level) := by
  induction body with
  | nil => rfl
  | cons stmt body ih => rw [renderAll, ih, List.map_cons]

theorem tokensAll_eq_map (body : List Stmt) : tokensAll body = body.map tokens := by
  induction body with
  | nil => rfl
  | cons stmt body ih => rw [tokensAll, ih, List.map_cons]

theorem areWellFormed_iff (body : List Stmt) :
    areWellFormed body = true ↔ ∀ stmt ∈ body, ∀ part ∈ stmt.parts, part.isWellFormed = true := by
  induction body with
  | nil => simp [areWellFormed]
  | cons stmt body ih => cases stmt <;> simp [areWellFormed, isWellFormed, parts, ih]

theorem spells {width level : Nat} {stmt : Stmt}
    (below : ∀ part ∈ stmt.parts, Token.Spells (part.render width level) part.tokens) :
    Token.Spells (stmt.render width level) stmt.tokens := by
  cases stmt with
  | assign target value =>
      have left := below target (by simp [parts])
      have right := below value (by simp [parts])
      exact ((left.margin width level).between " = " [.symbol '='] right).closed ";" [.symbol ';']
  | ret value =>
      have operand := below value (by simp [parts])
      exact (operand.after (margin width level ++ "return ") [.word "return"]
        (Token.Closes.margin width level fun rest => rfl)).closed ";" [.symbol ';']

end Stmt

namespace Term

/-- A well formed term is read as its tokens, whatever the width and the level. -/
theorem spells (width : Nat) (term : Term) :
    term.isWellFormed = true → ∀ level, Token.Spells (term.render width level) term.tokens := by
  induction term using partsInduction with | _ term below
  intro wellFormed level
  cases term with
  | literal value => exact value.spells
  | name name => exact Token.spells_name wellFormed
  | todo =>
      intro rest ends
      change Token.scan ("todo!()".toList ++ rest) = _
      rfl
  | field base field =>
      rw [isWellFormed, Bool.and_eq_true] at wellFormed
      have inner := below base (List.mem_singleton_self base) wellFormed.1 level
      exact (Token.spells_operand base.isCompound inner).between "." [.symbol '.']
        (Token.spells_name wellFormed.2)
  | borrow operand =>
      have inner := below operand (List.mem_singleton_self operand) wellFormed level
      exact (Token.spells_operand operand.isCompound inner).after "&" [.symbol '&']
  | negate operand =>
      have inner := below operand (List.mem_singleton_self operand) wellFormed level
      exact (Token.spells_operand operand.isCompound inner).after "!" [.symbol '!']
  | add left right =>
      rw [isWellFormed, Bool.and_eq_true] at wellFormed
      have first := below left (by simp [parts]) wellFormed.1 level
      have second := below right (by simp [parts]) wellFormed.2 level
      exact (Token.spells_operand left.isBraced first).between " + " [.symbol '+']
        (Token.spells_operand right.isBraced second)
  | tuple elements =>
      rw [isWellFormed, areWellFormed_iff] at wellFormed
      have each := Token.spells_tuple fun item member =>
        below item member (wellFormed item member) level
      rwa [← renderAll_eq_map, ← tokensAll_eq_map] at each
  | call function types args =>
      simp only [isWellFormed, Bool.and_eq_true, areWellFormed_iff] at wellFormed
      obtain ⟨⟨named, given⟩, sound⟩ := wellFormed
      have whole := ((Token.spells_name named).instantiated given).applied fun item member =>
        below item member (sound item member) level
      rwa [← renderAll_eq_map, ← tokensAll_eq_map] at whole
  | typeCall ty method types args =>
      simp only [isWellFormed, Bool.and_eq_true, areWellFormed_iff] at wellFormed
      obtain ⟨⟨⟨start, named⟩, given⟩, sound⟩ := wellFormed
      have path := (Ty.spells_path start).between "::" [.symbol ':', .symbol ':']
        (Token.spells_name named)
      have whole := (path.instantiated given).applied fun item member =>
        below item member (sound item member) level
      rwa [← renderAll_eq_map, ← tokensAll_eq_map] at whole
  | methodCall receiver method types args =>
      simp only [isWellFormed, Bool.and_eq_true, areWellFormed_iff] at wellFormed
      obtain ⟨⟨⟨start, named⟩, given⟩, sound⟩ := wellFormed
      have inner := below receiver List.mem_cons_self start level
      have path := (Token.spells_operand receiver.isCompound inner).between "." [.symbol '.']
        (Token.spells_name named)
      have whole := (path.instantiated given).applied fun item member =>
        below item (List.mem_cons_of_mem receiver member) (sound item member) level
      rwa [← renderAll_eq_map, ← tokensAll_eq_map] at whole
  | variant enum label args =>
      simp only [isWellFormed, Bool.and_eq_true, areWellFormed_iff] at wellFormed
      obtain ⟨⟨named, labelled⟩, sound⟩ := wellFormed
      have path := (Token.spells_name named).between "::" [.symbol ':', .symbol ':']
        (Token.spells_name labelled)
      have whole := path.applied fun item member => below item member (sound item member) level
      rw [← renderAll_eq_map, ← tokensAll_eq_map] at whole
      -- Without arguments there are no parentheses either.
      cases args with
      | nil => exact path
      | cons arg args => exact whole
  | ifElse condition yes no =>
      simp only [isWellFormed, Bool.and_eq_true] at wellFormed
      obtain ⟨⟨tested, first⟩, second⟩ := wellFormed
      have test := below condition (by simp [parts]) tested level
      have accepted := (below yes (by simp [parts]) first (level + 1)).margin width (level + 1)
      have refused := (below no (by simp [parts]) second (level + 1)).margin width (level + 1)
      exact ((test.after "if " [.word "if"]).between " " []
        (Token.spells_bracedLine width level accepted)).between " else " [.word "else"]
          (Token.spells_bracedLine width level refused)
  | bind name value body =>
      simp only [isWellFormed, Bool.and_eq_true] at wellFormed
      obtain ⟨⟨named, bound⟩, sound⟩ := wellFormed
      have opening : Token.Closes (margin width (level + 1) ++ "let ") [.word "let"] :=
        Token.Closes.margin width (level + 1) fun rest => rfl
      have line := (((Token.spells_name named).after _ _ opening).between " = " [.symbol '=']
        (below value (by simp [parts]) bound (level + 1))).closed ";" [.symbol ';']
      have last := (below body (by simp [parts]) sound (level + 1)).margin width (level + 1)
      exact Token.spells_bracedPair width level line last
  | block body =>
      rw [isWellFormed, Stmt.areWellFormed_iff] at wellFormed
      have lines := Token.spells_bracedLines width level fun stmt (member : stmt ∈ body) =>
        Stmt.spells fun part held => below part (List.mem_flatMap.mpr ⟨stmt, member, held⟩)
          (wellFormed stmt member part held) (level + 1)
      rwa [← Stmt.renderAll_eq_map, ← Stmt.tokensAll_eq_map] at lines
  | record name fields =>
      simp only [isWellFormed, Bool.and_eq_true, areWellFormedFields_iff] at wellFormed
      obtain ⟨named, sound⟩ := wellFormed
      have each : ∀ field ∈ fields, Token.Spells (margin width (level + 1) ++ field.1 ++ ": " ++
          field.2.render width (level + 1) ++ ",") (tokensOfField field) := by
        intro field member
        have label := (Token.spells_name (sound field member).1).margin width (level + 1)
        have value := below field.2 (List.mem_map_of_mem member) (sound field member).2 (level + 1)
        exact (label.between ": " [.symbol ':'] value).closed "," [.symbol ',']
      have lines := Token.spells_bracedLines width level each
      rw [← renderFields_eq_map, ← fieldTokens_eq_map] at lines
      exact (Token.spells_name named).between " " [] lines

theorem scan_render {term : Term} (wellFormed : term.isWellFormed = true) (width level : Nat) :
    Token.scan (term.render width level).toList = term.tokens [] := by
  have whole := term.spells width wellFormed level [] rfl
  rwa [List.append_nil] at whole

end Term

end SpecTranspiler

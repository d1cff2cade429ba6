import SpecTranspiler.Proofs.Reading

/-!
# Unique readability of terms

The reader is a left inverse of `Term.tokens` up to the grouping of sums (`Term.readsBack`). So the
text of a well formed term says which term it is, except for how its sums are grouped
(`Term.render_eq_iff_reassoc`): parentheses stand wherever they are needed to tell terms apart.
-/

namespace SpecTranspiler

open Token

/-- What follows a name does not belong to it. -/
structure Token.Quiet (tokens : List Token) : Prop where
  noMark : expect '!' tokens = none
  noFields : expectFields tokens = none
  noPath : expect ':' tokens = none
  noCall : expect '(' tokens = none

/-- What follows an operand does not belong to it. -/
structure Token.Ends (tokens : List Token) : Prop extends Quiet tokens where
  noSuffix : expect '.' tokens = none

/-- What follows a term does not belong to it. -/
structure Token.Final (tokens : List Token) : Prop extends Ends tokens where
  noSum : expect '+' tokens = none

theorem Token.final_symbol {c : Char} (closing : c ∈ [')', ',', ';', '=', '}'])
    (rest : List Token) : Final (.symbol c :: rest) := by
  simp only [List.mem_cons, List.not_mem_nil, or_false] at closing
  rcases closing with rfl | rfl | rfl | rfl | rfl <;>
    exact ⟨⟨⟨rfl, rfl, rfl, rfl⟩, rfl⟩, rfl⟩

theorem Token.final_continued (writes : List (List Token → List Token)) (rest : List Token) :
    Final (continued writes (.symbol ')' :: rest)) := by
  cases writes with
  | nil => exact final_symbol (by decide) rest
  | cons write writes => exact final_symbol (by decide) _

theorem Token.Quiet.expectPath {tokens : List Token} (quiet : Quiet tokens) :
    expectPath tokens = none := by
  rw [Token.expectPath, quiet.noPath]
  rfl

theorem Token.Quiet.readLabel {tokens : List Token} (quiet : Quiet tokens) :
    readLabel tokens = none := by
  rw [Token.readLabel, quiet.expectPath]
  rfl

theorem Token.Quiet.readArgs {tokens : List Token} (quiet : Quiet tokens) (fuel : Nat) :
    Ty.readArgs fuel tokens = some ([], tokens) := by
  rw [Ty.readArgs, quiet.expectPath]

namespace Term

theorem readOperand_symbol {c : Char} (other : c ∉ ['(', '{', '<']) (fuel : Nat)
    (rest : List Token) : readOperand fuel (.symbol c :: rest) = none := by
  simp only [List.mem_cons, List.not_mem_nil, or_false, not_or] at other
  have atom : ∀ fuel, readAtom fuel (.symbol c :: rest) = none := by
    intro fuel
    cases fuel with
    | zero => rfl
    | succ fuel => rw [readAtom, if_neg other.1, if_neg other.2.1, if_neg other.2.2]
  cases fuel with
  | zero => rfl
  | succ fuel =>
      rw [readOperand, atom]
      rfl

/-- No term starts with a closing bracket. -/
theorem read_symbol {c : Char} (closing : c = ')' ∨ c = '}') (fuel : Nat) (rest : List Token) :
    Term.read fuel (.symbol c :: rest) = none := by
  have refused : ∀ fuel, readOperand fuel (.symbol c :: rest) = none := by
    intro fuel
    apply readOperand_symbol
    rcases closing with rfl | rfl
    · decide
    · decide
  have summand : ∀ fuel, readSummand fuel (.symbol c :: rest) = none := by
    intro fuel
    cases fuel with
    | zero => rfl
    | succ fuel =>
        rw [readSummand]
        rcases closing with rfl | rfl
        · exact refused fuel
        · exact refused fuel
  cases fuel with
  | zero => rfl
  | succ fuel =>
      rw [Term.read, summand]
      rfl

theorem readAtom_name {name : String} (identifier : isIdentifier name = true) (fuel : Nat)
    (rest : List Token) : readAtom (fuel + 1) (.word name :: rest) = readNamed fuel name rest := by
  have free {word : String} (reserved : word ∈ reservedWords) : name ≠ word :=
    ne_of_isIdentifier identifier reserved
  rw [readAtom, if_neg (free (by decide)), if_neg (free (by decide)), if_neg (free (by decide)),
    numeral?_of_isIdentifier identifier]
  exact if_neg (not_mem_reservedWords identifier)

/-- The reader reads the term back from its tokens, with its sums grouped to the left, in each of
the places where a term stands: after a sign or before a suffix, as a summand, and on its own.
What it gives is what it gives when it goes on with the rest. -/
structure ReadsBack (term : Term) : Prop where
  operand : ∀ rest result, Quiet rest →
    Gives (fun fuel => readSuffixes fuel term.normalize rest) result →
      Gives (fun fuel => readOperand fuel (Token.operand term.isCompound term.tokens rest)) result
  first : ∀ rest result, Ends rest →
    Gives (fun fuel => readSum fuel term.normalize rest) result →
      Gives (fun fuel => Term.read fuel (Token.operand term.isBraced term.tokens rest)) result
  next : ∀ left rest result, Ends rest →
    Gives (fun fuel => readSum fuel (graft left term.normalize) rest) result →
      Gives (fun fuel => readSum fuel left
        (.symbol '+' :: Token.operand term.isBraced term.tokens rest)) result
  whole : ∀ rest result, Ends rest →
    Gives (fun fuel => readSum fuel term.normalize rest) result →
      Gives (fun fuel => Term.read fuel (term.tokens rest)) result

section Places

variable {term : Term} {tokens rest : List Token} {result : Term × List Token}

theorem gives_suffixes (ends : Ends rest) (base : Term) :
    Gives (fun fuel => readSuffixes fuel base rest) (base, rest) := by
  apply Gives.later
  simp only [readSuffixes, ends.noSuffix]
  exact .done _

theorem gives_summand (reads : Gives (fun fuel => readOperand fuel tokens) result) :
    Gives (fun fuel => readSummand fuel tokens) result := by
  have notBorrowed := expect_eq_none_of_gives (readOperand_symbol (by decide : '&' ∉ _)) reads
  have notNegated := expect_eq_none_of_gives (readOperand_symbol (by decide : '!' ∉ _)) reads
  apply Gives.later
  simp only [readSummand, notBorrowed, notNegated]
  exact reads

theorem gives_read (summand : Gives (fun fuel => readSummand fuel tokens) (term, rest))
    (continues : Gives (fun fuel => readSum fuel term rest) result) :
    Gives (fun fuel => Term.read fuel tokens) result := by
  apply Gives.later
  simp only [Term.read, Option.bind_eq_bind]
  exact summand.bind continues

theorem gives_sum {left : Term}
    (summand : Gives (fun fuel => readSummand fuel tokens) (term, rest))
    (continues : Gives (fun fuel => readSum fuel (.add left term) rest) result) :
    Gives (fun fuel => readSum fuel left (.symbol '+' :: tokens)) result := by
  apply Gives.later
  simp only [readSum, expect_symbol, ↓reduceIte, Option.bind_eq_bind]
  exact summand.bind continues

theorem gives_operand (atom : Gives (fun fuel => readAtom fuel tokens) (term, rest))
    (continues : Gives (fun fuel => readSuffixes fuel term rest) result) :
    Gives (fun fuel => readOperand fuel tokens) result := by
  apply Gives.later
  simp only [readOperand, Option.bind_eq_bind]
  exact atom.bind continues

theorem gives_final (final : Final rest) (left : Term) :
    Gives (fun fuel => readSum fuel left rest) (left, rest) := by
  apply Gives.later
  simp only [readSum, final.noSum]
  exact .done _

theorem ReadsBack.read (reads : term.ReadsBack) (rest : List Token) (final : Final rest) :
    Gives (fun fuel => Term.read fuel (term.tokens rest)) (term.normalize, rest) :=
  reads.whole rest _ final.toEnds (gives_final final term.normalize)

/-- A term between parentheses is read as the term. -/
theorem gives_parenthesized
    (whole : ∀ rest result, Ends rest →
      Gives (fun fuel => readSum fuel term.normalize rest) result →
        Gives (fun fuel => Term.read fuel (term.tokens rest)) result)
    (continues : Gives (fun fuel => readSuffixes fuel term.normalize rest) result) :
    Gives (fun fuel => readOperand fuel (Token.operand true term.tokens rest)) result := by
  have final : Final (.symbol ')' :: rest) := final_symbol (by decide) rest
  have inner := whole _ _ final.toEnds (gives_final final term.normalize)
  have opened := expect_eq_none_of_gives (read_symbol (.inl rfl)) inner
  apply gives_operand _ continues
  apply Gives.later
  simp only [Token.operand, readAtom, ↓reduceIte]
  apply Gives.later
  simp only [readGroup, opened, Option.bind_eq_bind]
  exact inner.bind (.done _)

end Places

/-- A term that is not a sum is read back everywhere if it is read back as a summand, and, where it
needs no parentheses, as an operand. -/
theorem ReadsBack.of_summand {term : Term} (single : ∀ left right, term ≠ .add left right)
    (operand : term.isCompound = false → ∀ rest result, Quiet rest →
      Gives (fun fuel => readSuffixes fuel term.normalize rest) result →
        Gives (fun fuel => readOperand fuel (term.tokens rest)) result)
    (summand : ∀ rest, Ends rest →
      Gives (fun fuel => readSummand fuel (term.tokens rest)) (term.normalize, rest)) :
    term.ReadsBack := by
  have whole : ∀ rest result, Ends rest →
      Gives (fun fuel => readSum fuel term.normalize rest) result →
        Gives (fun fuel => Term.read fuel (term.tokens rest)) result :=
    fun rest result ends continues => gives_read (summand rest ends) continues
  have parenthesized : ∀ rest, Ends rest →
      Gives (fun fuel => readSummand fuel (Token.operand term.isBraced term.tokens rest))
        (term.normalize, rest) := by
    intro rest ends
    cases braced : term.isBraced with
    | false => exact summand rest ends
    | true => exact gives_summand (gives_parenthesized whole (gives_suffixes ends term.normalize))
  refine ⟨fun rest result quiet continues => ?_, fun rest result ends continues => ?_,
    fun left rest result ends continues => ?_, whole⟩
  · cases compound : term.isCompound with
    | false => exact operand compound rest result quiet continues
    | true => exact gives_parenthesized whole continues
  · exact gives_read (parenthesized rest ends) continues
  · rw [graft_of_ne_add (normalize_ne_add single)] at continues
    exact gives_sum (parenthesized rest ends) continues

theorem ReadsBack.of_operand {term : Term} (single : ∀ left right, term ≠ .add left right)
    (operand : ∀ rest result, Quiet rest →
      Gives (fun fuel => readSuffixes fuel term.normalize rest) result →
        Gives (fun fuel => readOperand fuel (term.tokens rest)) result) : term.ReadsBack := by
  apply ReadsBack.of_summand single fun _ => operand
  intro rest ends
  exact gives_summand (operand rest _ ends.toQuiet (gives_suffixes ends term.normalize))

theorem ReadsBack.of_atom {term : Term} (single : ∀ left right, term ≠ .add left right)
    (atom : ∀ rest, Quiet rest →
      Gives (fun fuel => readAtom (fuel + 1) (term.tokens rest)) (term.normalize, rest)) :
    term.ReadsBack := by
  apply ReadsBack.of_operand single
  intro rest result quiet continues
  exact gives_operand (atom rest quiet).later continues

theorem ReadsBack.add {left right : Term} (first : left.ReadsBack) (second : right.ReadsBack) :
    (Term.add left right).ReadsBack := by
  have plus (tokens : List Token) : Ends (.symbol '+' :: tokens) := ⟨⟨rfl, rfl, rfl, rfl⟩, rfl⟩
  have whole : ∀ rest result, Ends rest →
      Gives (fun fuel => readSum fuel (Term.add left right).normalize rest) result →
        Gives (fun fuel => Term.read fuel ((Term.add left right).tokens rest)) result := by
    intro rest result ends continues
    exact first.first _ _ (plus _) (second.next _ _ _ ends continues)
  refine ⟨fun rest result _ continues => gives_parenthesized whole continues, whole,
    fun other rest result ends continues => ?_, whole⟩
  -- A summand that is a sum has no parentheses, so its own summands join those read before it.
  rw [normalize, graft_assoc] at continues
  exact first.next _ _ _ (plus _) (second.next _ _ _ ends continues)

theorem ReadsBack.borrow {operand : Term} (reads : operand.ReadsBack) :
    (Term.borrow operand).ReadsBack := by
  apply ReadsBack.of_summand (fun _ _ => Term.noConfusion) (fun plain => Bool.noConfusion plain)
  intro rest ends
  have inner := reads.operand rest _ ends.toQuiet (gives_suffixes ends operand.normalize)
  apply Gives.later
  simp only [tokens, readSummand, expect_symbol, ↓reduceIte, Option.bind_eq_bind]
  exact inner.bind (.done _)

theorem ReadsBack.negate {operand : Term} (reads : operand.ReadsBack) :
    (Term.negate operand).ReadsBack := by
  apply ReadsBack.of_summand (fun _ _ => Term.noConfusion) (fun plain => Bool.noConfusion plain)
  intro rest ends
  have inner := reads.operand rest _ ends.toQuiet (gives_suffixes ends operand.normalize)
  apply Gives.later
  simp only [tokens, readSummand, expect_symbol, Char.reduceEq, ↓reduceIte, Option.bind_eq_bind]
  exact inner.bind (.done _)

section Lists

variable {terms : List Term}

theorem readItems_joined (each : ∀ term ∈ terms, term.ReadsBack) (rest : List Token) :
    Gives (fun fuel => readItems fuel (joined (terms.map tokens) (.symbol ')' :: rest)))
      (terms.map normalize, rest) := by
  apply Gives.later
  induction terms with
  | nil => exact .done _
  | cons term terms ih =>
      obtain ⟨head, tail⟩ := List.forall_mem_cons.mp each
      have first := head.read _ (final_continued (terms.map tokens) rest)
      have opened := expect_eq_none_of_gives (read_symbol (.inl rfl)) first
      simp only [List.map_cons, joined, readItems, opened, Option.bind_eq_bind]
      refine first.bind ?_
      simp only [afterComma_continued _ (by decide : ')' ≠ ',')]
      exact (ih tail).later.bind (.done _)

theorem gives_group {first : Term} (head : first.ReadsBack) {tokens rest : List Token}
    (items : Gives (fun fuel => readItems fuel tokens) (terms, rest)) :
    Gives (fun fuel => readGroup fuel (first.tokens (.symbol ',' :: tokens)))
      (.tuple (first.normalize :: terms), rest) := by
  have inner := head.read (.symbol ',' :: tokens) (final_symbol (by decide) tokens)
  have opened := expect_eq_none_of_gives (read_symbol (.inl rfl)) inner
  apply Gives.later
  simp only [readGroup, opened, Option.bind_eq_bind]
  refine inner.bind ?_
  simp only [expect_symbol, Char.reduceEq, ↓reduceIte, Option.bind_some]
  exact items.bind (.done _)

/-- A tuple is read back if its elements are. A single element is told from a term in parentheses by
the comma behind it. -/
theorem ReadsBack.tuple (each : ∀ term ∈ terms, term.ReadsBack) :
    (Term.tuple terms).ReadsBack := by
  apply ReadsBack.of_atom (fun _ _ => Term.noConfusion)
  intro rest _
  simp only [tokens, tokensAll_eq_map, normalize, normalizeAll_eq_map]
  cases terms with
  | nil =>
      simp only [List.map_nil, Token.tuple, joined, readAtom, ↓reduceIte]
      apply Gives.later
      exact .done _
  | cons first more =>
      obtain ⟨head, tail⟩ := List.forall_mem_cons.mp each
      have group := gives_group head (readItems_joined tail rest)
      cases more with
      | nil =>
          simp only [List.map_cons, List.map_nil, Token.tuple, readAtom, ↓reduceIte]
          exact group
      | cons next more =>
          simp only [List.map_cons, Token.tuple, readAtom, ↓reduceIte]
          exact group

/-- The name of a call is followed by its types and arguments, and by nothing else. -/
theorem ReadsBack.call {function : String} (identifier : isIdentifier function = true)
    {types : List Ty} (wellFormed : Ty.areWellFormed types = true)
    (each : ∀ term ∈ terms, term.ReadsBack) : (Term.call function types terms).ReadsBack := by
  apply ReadsBack.of_atom (fun _ _ => Term.noConfusion)
  intro rest _
  have args := Ty.readArgs_argTokens wellFormed
    (.symbol '(' :: joined (terms.map tokens) (.symbol ')' :: rest)) fun _ => rfl
  obtain ⟨noMark, noFields, noLabel⟩ := Ty.argTokens_follows _ fun _ : types = [] =>
    ⟨joined (terms.map tokens) (.symbol ')' :: rest), rfl⟩
  simp only [tokens, tokensAll_eq_map, normalize, normalizeAll_eq_map, readAtom_name identifier,
    Token.arguments]
  apply Gives.later
  simp only [readNamed, noMark, noFields, noLabel, Option.bind_eq_bind]
  refine args.bind ?_
  simp only [expect_symbol, ↓reduceIte]
  exact (readItems_joined each rest).bind (.done _)

theorem gives_typeCall (ty : Ty) (method : String) {types : List Ty}
    (wellFormed : Ty.areWellFormed types = true) (each : ∀ term ∈ terms, term.ReadsBack)
    (rest : List Token) :
    Gives (fun fuel => readTypeCall fuel ty (.symbol ':' :: .symbol ':' :: .word method ::
        Ty.argTokens types (Token.arguments (terms.map tokens) rest)))
      (.typeCall ty method types (terms.map normalize), rest) := by
  have args := Ty.readArgs_argTokens wellFormed
    (.symbol '(' :: joined (terms.map tokens) (.symbol ')' :: rest)) fun _ => rfl
  apply Gives.later
  simp only [readTypeCall, Token.arguments, expectPath, expect_symbol, readWord, ↓reduceIte,
    Option.bind_eq_bind, Option.bind_some]
  refine args.bind ?_
  simp only [expect_symbol, ↓reduceIte, Option.bind_some]
  exact (readItems_joined each rest).bind (.done _)

/-- The name of a container with its types is the start of a path. -/
theorem gives_container {name : String} (identifier : isIdentifier name = true)
    {types : List Ty} (nonempty : types ≠ []) (wellFormed : Ty.areWellFormed types = true)
    {ty : Ty} (container : Ty.container? name types = some ty) {tokens : List Token}
    {result : Term × List Token}
    (continues : Gives (fun fuel => readTypeCall fuel ty (.symbol ':' :: .symbol ':' :: tokens))
      result) :
    Gives (fun fuel => readAtom (fuel + 1)
      (.word name :: Ty.argTokens types (.symbol ':' :: .symbol ':' :: tokens))) result := by
  have args := Ty.readArgs_argTokens wellFormed (.symbol ':' :: .symbol ':' :: tokens)
    fun empty => absurd empty nonempty
  obtain ⟨noMark, noFields, noLabel⟩ := Ty.argTokens_follows
    (.symbol ':' :: .symbol ':' :: tokens) fun empty => absurd empty nonempty
  simp only [readAtom_name identifier]
  apply Gives.later
  simp only [readNamed, noMark, noFields, noLabel, Option.bind_eq_bind]
  refine args.bind ?_
  simp only [expect_symbol, expectPath, Char.reduceEq, ↓reduceIte, Option.bind_some, container]
  exact continues

/-- A call of a function of a type is read back if its operands are. -/
theorem ReadsBack.typeCall {ty : Ty} (start : ty.isWellFormed = true) (method : String)
    {types : List Ty} (wellFormed : Ty.areWellFormed types = true)
    (each : ∀ term ∈ terms, term.ReadsBack) :
    (Term.typeCall ty method types terms).ReadsBack := by
  apply ReadsBack.of_atom (fun _ _ => Term.noConfusion)
  intro rest _
  have called := gives_typeCall ty method wellFormed each rest
  have bracketed {tokens : List Token} {result : Term × List Token}
      (continues : Gives (fun fuel => readTypeCall fuel ty tokens) result) :
      Gives (fun fuel => readAtom (fuel + 1) (.symbol '<' :: ty.tokens (.symbol '>' :: tokens)))
        result := by
    simp only [readAtom, Char.reduceEq, ↓reduceIte, Option.bind_eq_bind]
    refine (Ty.readsBack ty start (.symbol '>' :: tokens) rfl).bind ?_
    simp only [expect_symbol, ↓reduceIte, Option.bind_some]
    exact continues
  simp only [tokens, tokensAll_eq_map, normalize, normalizeAll_eq_map]
  cases ty with
  | set element =>
      have given : Ty.areWellFormed [element] = true :=
        (Ty.areWellFormed_iff [element]).mpr (List.forall_mem_singleton.mpr start)
      exact gives_container (by decide) (List.cons_ne_nil _ _) given rfl called
  | map key value =>
      have given : Ty.areWellFormed [key, value] = true := by
        rwa [Ty.areWellFormed, Ty.areWellFormed, Ty.areWellFormed, Bool.and_true]
      exact gives_container (by decide) (List.cons_ne_nil _ _) given rfl called
  | record | str | uint64 | bool | tuple | list | named | ref => exact bracketed called

/-- A method call is read back if its receiver and its operands are, since it is a suffix of the
receiver. -/
theorem ReadsBack.methodCall {receiver : Term} (base : receiver.ReadsBack) (method : String)
    {types : List Ty} (wellFormed : Ty.areWellFormed types = true)
    (each : ∀ term ∈ terms, term.ReadsBack) :
    (Term.methodCall receiver method types terms).ReadsBack := by
  apply ReadsBack.of_operand (fun _ _ => Term.noConfusion)
  intro rest result _ continues
  have args := Ty.readArgs_argTokens wellFormed
    (.symbol '(' :: joined (terms.map tokens) (.symbol ')' :: rest)) fun _ => rfl
  simp only [normalize, normalizeAll_eq_map] at continues
  simp only [tokens, tokensAll_eq_map, Token.arguments]
  apply base.operand _ _ ⟨rfl, rfl, rfl, rfl⟩
  apply Gives.later
  simp only [readSuffixes, expect_symbol, readWord, ↓reduceIte, Option.bind_eq_bind,
    Option.bind_some]
  refine args.bind ?_
  simp only [expect_symbol, ↓reduceIte]
  exact (readItems_joined each rest).bind continues

/-- A variant is read back if its operands are. Without operands it is written as a path. -/
theorem ReadsBack.variant {enum : String} (identifier : isIdentifier enum = true) (label : String)
    (each : ∀ term ∈ terms, term.ReadsBack) : (Term.variant enum label terms).ReadsBack := by
  apply ReadsBack.of_atom (fun _ _ => Term.noConfusion)
  intro rest quiet
  have items := readItems_joined each rest
  simp only [normalize, normalizeAll_eq_map]
  cases terms with
  | nil =>
      simp only [tokens, readAtom_name identifier]
      apply Gives.later
      simp only [readNamed, expect_symbol, expectFields, readLabel, expectPath, readWord,
        Char.reduceEq, ↓reduceIte, Option.bind_some, Option.filter_none, quiet.noCall]
      exact .done _
  | cons arg args =>
      simp only [tokens, tokensAll_eq_map, readAtom_name identifier]
      apply Gives.later
      simp only [readNamed, expect_symbol, expectFields, readLabel, expectPath, readWord,
        Char.reduceEq, ↓reduceIte, Option.bind_some, Option.filter_none, Token.arguments,
        Option.bind_eq_bind]
      exact items.bind (.done _)

end Lists

/-- A literal is read back from its own tokens. -/
theorem ReadsBack.literal (value : Literal) : (Term.literal value).ReadsBack := by
  apply ReadsBack.of_atom (fun _ _ => Term.noConfusion)
  intro rest _
  cases value with
  | uint64 value =>
      have numeral := numeral?_of_uint64 value
      have free {word : String} (other : numeral? word = none) :
          toString value.toNat ++ "_u64" ≠ word := by
        rintro rfl
        rw [numeral] at other
        cases other
      have notIf := free (by decide : numeral? "if" = none)
      have notTrue := free (by decide : numeral? "true" = none)
      have notFalse := free (by decide : numeral? "false" = none)
      simp only [tokens, Literal.tokens, List.cons_append, List.nil_append, readAtom, notIf,
        notTrue, notFalse, numeral, ↓reduceIte]
      exact .done _
  | str value =>
      simp only [tokens, Literal.tokens, List.cons_append, List.nil_append, readAtom, expect_symbol,
        expectWord, ↓reduceIte, Option.bind_eq_bind, Option.bind_some]
      exact .done _
  | bool value =>
      cases value with
      | true =>
          simp only [tokens, Literal.tokens, List.cons_append, List.nil_append, readAtom,
            String.reduceEq, ↓reduceIte]
          exact .done _
      | false =>
          simp only [tokens, Literal.tokens, List.cons_append, List.nil_append, readAtom,
            String.reduceEq, ↓reduceIte]
          exact .done _

theorem ReadsBack.name {name : String} (identifier : isIdentifier name = true) :
    (Term.name name).ReadsBack := by
  apply ReadsBack.of_atom (fun _ _ => Term.noConfusion)
  intro rest quiet
  simp only [tokens, readAtom_name identifier]
  apply Gives.later
  simp only [readNamed, quiet.noMark, quiet.noFields, quiet.readLabel, quiet.readArgs, quiet.noCall,
    quiet.expectPath, Option.bind_eq_bind, Option.bind_some]
  exact .done _

theorem ReadsBack.todo : Term.todo.ReadsBack := by
  apply ReadsBack.of_atom (fun _ _ => Term.noConfusion)
  intro rest _
  simp only [tokens, readAtom_name (by decide : isIdentifier "todo" = true)]
  apply Gives.later
  exact .done _

theorem ReadsBack.field {base : Term} (reads : base.ReadsBack) (name : String) :
    (Term.field base name).ReadsBack := by
  apply ReadsBack.of_operand (fun _ _ => Term.noConfusion)
  intro rest result quiet continues
  apply reads.operand _ _ ⟨rfl, rfl, rfl, rfl⟩
  apply Gives.later
  simp only [readSuffixes, expect_symbol, readWord, ↓reduceIte, Option.bind_eq_bind,
    Option.bind_some, quiet.readArgs, quiet.noCall]
  exact continues

theorem ReadsBack.bind {value body : Term} (first : value.ReadsBack) (second : body.ReadsBack)
    (name : String) : (Term.bind name value body).ReadsBack := by
  apply ReadsBack.of_atom (fun _ _ => Term.noConfusion)
  intro rest _
  have bound := first.read (.symbol ';' :: body.tokens (.symbol '}' :: rest))
    (final_symbol (by decide) _)
  have result := second.read (.symbol '}' :: rest) (final_symbol (by decide) rest)
  simp only [tokens, readAtom, Char.reduceEq, ↓reduceIte]
  apply Gives.later
  simp only [readBraces, expect_symbol, expectWord, readWord, ↓reduceIte, Option.bind_eq_bind,
    Option.bind_some]
  refine bound.bind ?_
  simp only [expect_symbol, ↓reduceIte, Option.bind_some]
  exact result.bind (.done _)

/-- The fields of a record construction are read back up to the closing brace, if their terms are.
-/
theorem readFields_concatenated {fields : List (String × Term)}
    (each : ∀ field ∈ fields, field.2.ReadsBack) (rest : List Token) :
    Gives (fun fuel => Term.readFields fuel
        (concatenated (fields.map tokensOfField) (.symbol '}' :: rest)))
      (fields.map fun field => (field.1, field.2.normalize), rest) := by
  apply Gives.later
  induction fields with
  | nil => exact .done _
  | cons field fields ih =>
      obtain ⟨head, tail⟩ := List.forall_mem_cons.mp each
      have value := head.read
        (.symbol ',' :: concatenated (fields.map tokensOfField) (.symbol '}' :: rest))
        (final_symbol (by decide) _)
      simp only [List.map_cons, concatenated_cons, tokensOfField, Term.readFields, expect, readWord,
        ↓reduceIte, Option.bind_eq_bind, Option.bind_some]
      refine value.bind ?_
      simp only [afterComma, expect_symbol, ↓reduceIte, Option.getD_some]
      exact (ih tail).later.bind (.done _)

/-- The tokens are not written like the fields of a record construction or like a path. -/
structure OpensTerm (tokens : List Token) : Prop where
  noFields : opensFields tokens = false
  noPath : expect ':' tokens = none

theorem OpensTerm.operand {needed : Bool} {write : List Token → List Token} {rest : List Token}
    (inner : OpensTerm (write rest)) : OpensTerm (Token.operand needed write rest) := by
  cases needed with
  | false => exact inner
  | true => exact ⟨rfl, rfl⟩

/-- The tokens of a term are never taken for the fields of a record construction. A word at their
start may be followed by a colon only in a path, which has two. -/
theorem opensTerm_tokens (term : Term) :
    ∀ rest, expect ':' rest = none → OpensTerm (term.tokens rest) := by
  induction term using partsInduction with | _ term below
  intro rest noPath
  have word {tokens : List Token} (name : String) (next : expect ':' tokens = none) :
      OpensTerm (.word name :: tokens) := by
    refine ⟨?_, rfl⟩
    rw [opensFields, next]
    rfl
  cases term with
  | literal value =>
      cases value with
      | uint64 value => exact word _ noPath
      | str value => exact ⟨rfl, rfl⟩
      | bool value => cases value <;> exact word _ noPath
  | name name => exact word name noPath
  | field base field => exact (below base (List.mem_singleton_self base) _ rfl).operand
  | methodCall receiver method types args => exact (below receiver List.mem_cons_self _ rfl).operand
  | add left right => exact (below left List.mem_cons_self _ rfl).operand
  | ifElse condition yes no => exact word "if" (below condition List.mem_cons_self _ rfl).noPath
  | variant enum label args => cases args <;> exact ⟨rfl, rfl⟩
  | call function types args => cases types <;> exact ⟨rfl, rfl⟩
  | typeCall ty method types args => cases ty <;> exact ⟨rfl, rfl⟩
  | tuple elements =>
      rw [tokens, tokensAll_eq_map]
      cases elements with
      | nil => exact ⟨rfl, rfl⟩
      | cons first more => cases more <;> exact ⟨rfl, rfl⟩
  | record | borrow | negate | bind | block | todo => exact ⟨rfl, rfl⟩

/-- The body of a branch is not taken for the fields of a record construction. -/
theorem final_branch (body : Term) (rest : List Token) :
    Final (.symbol '{' :: body.tokens (.symbol '}' :: rest)) := by
  have noFields : expectFields (.symbol '{' :: body.tokens (.symbol '}' :: rest)) = none := by
    rw [expectFields, expect_symbol, if_pos rfl, Option.filter_some,
      (opensTerm_tokens body _ rfl).noFields]
    rfl
  exact ⟨⟨⟨rfl, noFields, rfl, rfl⟩, rfl⟩, rfl⟩

theorem expectFields_concatenated (fields : List (String × Term)) (rest : List Token) :
    expectFields (.symbol '{' :: concatenated (fields.map tokensOfField) (.symbol '}' :: rest)) =
      some (concatenated (fields.map tokensOfField) (.symbol '}' :: rest)) := by
  rw [expectFields, expect_symbol, if_pos rfl, Option.filter_some]
  apply if_pos
  cases fields with
  | nil => rfl
  | cons field fields =>
      have value (tokens : List Token) := opensTerm_tokens field.2 (.symbol ',' :: tokens) rfl
      change (expectPath (.symbol ':' :: field.2.tokens _)).isNone = true
      rw [expectPath, expect_symbol, if_pos rfl, Option.bind_some, (value _).noPath]
      rfl

theorem ReadsBack.record {name : String} (identifier : isIdentifier name = true)
    {fields : List (String × Term)} (each : ∀ field ∈ fields, field.2.ReadsBack) :
    (Term.record name fields).ReadsBack := by
  apply ReadsBack.of_atom (fun _ _ => Term.noConfusion)
  intro rest _
  simp only [tokens, fieldTokens_eq_map, normalize, normalizeFields_eq_map,
    readAtom_name identifier]
  apply Gives.later
  simp only [readNamed, expectFields_concatenated, expect_symbol, Char.reduceEq, ↓reduceIte,
    Option.bind_eq_bind]
  exact (readFields_concatenated each rest).bind (.done _)

/-- A choice is read back if its condition and its branches are. -/
theorem ReadsBack.ifElse {condition yes no : Term} (tested : condition.ReadsBack)
    (first : yes.ReadsBack) (second : no.ReadsBack) :
    (Term.ifElse condition yes no).ReadsBack := by
  apply ReadsBack.of_atom (fun _ _ => Term.noConfusion)
  intro rest _
  have refused := second.read (.symbol '}' :: rest) (final_symbol (by decide) rest)
  have accepted := first.read (.symbol '}' :: .word "else" :: .symbol '{' ::
    no.tokens (.symbol '}' :: rest)) (final_symbol (by decide) _)
  have test := tested.read _ (final_branch yes (.word "else" :: .symbol '{' ::
    no.tokens (.symbol '}' :: rest)))
  simp only [tokens, readAtom, ↓reduceIte]
  apply Gives.later
  simp only [readChoice, Option.bind_eq_bind]
  refine test.bind ?_
  simp only [expect_symbol, ↓reduceIte, Option.bind_some]
  refine accepted.bind ?_
  simp only [expect_symbol, expectWord, ↓reduceIte, Option.bind_some]
  exact refused.bind (.done _)

/-- No term starts with the word of a statement or of a binding. -/
theorem read_reserved {word : String} (reserved : word = "let" ∨ word = "return") (fuel : Nat)
    (rest : List Token) : Term.read fuel (.word word :: rest) = none := by
  have atom : ∀ fuel, readAtom fuel (.word word :: rest) = none := by
    intro fuel
    cases fuel with
    | zero => rfl
    | succ fuel =>
        rw [readAtom]
        rcases reserved with rfl | rfl
        · rfl
        · rfl
  have summand : ∀ fuel, readSummand fuel (.word word :: rest) = none := by
    intro fuel
    rcases fuel with _ | _ | fuel
    · rfl
    · rfl
    · rw [readSummand]
      change readOperand (fuel + 1) (.word word :: rest) = none
      rw [readOperand, atom]
      rfl
  cases fuel with
  | zero => rfl
  | succ fuel =>
      rw [Term.read, summand]
      rfl

end Term

namespace Stmt

theorem read_symbol (fuel : Nat) (rest : List Token) :
    Stmt.read fuel (.symbol '}' :: rest) = none := by
  cases fuel with
  | zero => rfl
  | succ fuel =>
      rw [Stmt.read]
      change (Term.read fuel (.symbol '}' :: rest) >>= _) = none
      rw [Term.read_symbol (.inr rfl)]
      rfl

theorem read_let (fuel : Nat) (rest : List Token) :
    Stmt.read fuel (.word "let" :: rest) = none := by
  cases fuel with
  | zero => rfl
  | succ fuel =>
      rw [Stmt.read]
      change (Term.read fuel (.word "let" :: rest) >>= _) = none
      rw [Term.read_reserved (.inl rfl)]
      rfl

/-- A statement is read back if its terms are. -/
theorem read_tokens {stmt : Stmt} (below : ∀ part ∈ stmt.parts, part.ReadsBack)
    (rest : List Token) :
    Gives (fun fuel => Stmt.read fuel (stmt.tokens rest)) (stmt.normalize, rest) := by
  apply Gives.later
  cases stmt with
  | ret value =>
      have result := (below value (by simp [parts])).read (.symbol ';' :: rest)
        (final_symbol (by decide) rest)
      simp only [tokens, Stmt.read, expectWord, ↓reduceIte, Option.bind_eq_bind]
      exact result.bind (.done _)
  | assign target value =>
      have result := (below value (by simp [parts])).read (.symbol ';' :: rest)
        (final_symbol (by decide) rest)
      have place := (below target (by simp [parts])).read
        (.symbol '=' :: value.tokens (.symbol ';' :: rest)) (final_symbol (by decide) _)
      have notReturn := expectWord_eq_none_of_gives (Term.read_reserved (.inr rfl)) place
      simp only [tokens, Stmt.read, notReturn, Option.bind_eq_bind]
      refine place.bind ?_
      simp only [expect_symbol, ↓reduceIte, Option.bind_some]
      exact result.bind (.done _)

theorem readAll_concatenated {body : List Stmt}
    (each : ∀ stmt ∈ body, ∀ part ∈ stmt.parts, part.ReadsBack) (rest : List Token) :
    Gives (fun fuel => Stmt.readAll fuel (concatenated (body.map tokens) (.symbol '}' :: rest)))
      (body.map normalize, rest) := by
  apply Gives.later
  induction body with
  | nil => exact .done _
  | cons stmt body ih =>
      obtain ⟨head, tail⟩ := List.forall_mem_cons.mp each
      have first := read_tokens head (concatenated (body.map tokens) (.symbol '}' :: rest))
      have notEnd := expect_eq_none_of_gives read_symbol first
      simp only [List.map_cons, concatenated_cons, Stmt.readAll, notEnd, Option.bind_eq_bind]
      exact first.bind ((ih tail).later.bind (.done _))

end Stmt

namespace Term

/-- A block is read back if the terms of its statements are. -/
theorem ReadsBack.block {body : List Stmt}
    (each : ∀ stmt ∈ body, ∀ part ∈ stmt.parts, part.ReadsBack) :
    (Term.block body).ReadsBack := by
  apply ReadsBack.of_atom (fun _ _ => Term.noConfusion)
  intro rest _
  have notLet : expectWord "let" (concatenated (body.map Stmt.tokens) (.symbol '}' :: rest)) =
      none := by
    cases body with
    | nil => rfl
    | cons stmt body =>
        exact expectWord_eq_none_of_gives Stmt.read_let
          (Stmt.read_tokens (each stmt List.mem_cons_self) _)
  simp only [tokens, Stmt.tokensAll_eq_map, normalize, Stmt.normalizeAll_eq_map, readAtom,
    Char.reduceEq, ↓reduceIte]
  apply Gives.later
  simp only [readBraces, notLet, Option.bind_eq_bind]
  exact (Stmt.readAll_concatenated each rest).bind (.done _)

/-- A well formed term is read back from its tokens, with its sums grouped to the left. -/
theorem readsBack (term : Term) : term.isWellFormed = true → term.ReadsBack := by
  induction term using partsInduction with | _ term below
  intro wellFormed
  cases term with
  | literal value => exact .literal value
  | name name => exact .name wellFormed
  | todo => exact .todo
  | field base field =>
      rw [isWellFormed, Bool.and_eq_true] at wellFormed
      exact .field (below base (List.mem_singleton_self base) wellFormed.1) field
  | borrow operand => exact .borrow (below operand (List.mem_singleton_self operand) wellFormed)
  | negate operand => exact .negate (below operand (List.mem_singleton_self operand) wellFormed)
  | add left right =>
      rw [isWellFormed, Bool.and_eq_true] at wellFormed
      exact .add (below left (by simp [parts]) wellFormed.1)
        (below right (by simp [parts]) wellFormed.2)
  | bind name value body =>
      simp only [isWellFormed, Bool.and_eq_true] at wellFormed
      exact .bind (below value (by simp [parts]) wellFormed.1.2)
        (below body (by simp [parts]) wellFormed.2) name
  | ifElse condition yes no =>
      simp only [isWellFormed, Bool.and_eq_true] at wellFormed
      exact .ifElse (below condition (by simp [parts]) wellFormed.1.1)
        (below yes (by simp [parts]) wellFormed.1.2) (below no (by simp [parts]) wellFormed.2)
  | tuple elements =>
      rw [isWellFormed, areWellFormed_iff] at wellFormed
      exact .tuple fun item member => below item member (wellFormed item member)
  | variant enum label args =>
      simp only [isWellFormed, Bool.and_eq_true, areWellFormed_iff] at wellFormed
      exact .variant wellFormed.1.1 label fun item member =>
        below item member (wellFormed.2 item member)
  | call function types args =>
      simp only [isWellFormed, Bool.and_eq_true, areWellFormed_iff] at wellFormed
      exact .call wellFormed.1.1 wellFormed.1.2 fun item member =>
        below item member (wellFormed.2 item member)
  | typeCall ty method types args =>
      simp only [isWellFormed, Bool.and_eq_true, areWellFormed_iff] at wellFormed
      exact .typeCall wellFormed.1.1.1 method wellFormed.1.2 fun item member =>
        below item member (wellFormed.2 item member)
  | methodCall receiver method types args =>
      simp only [isWellFormed, Bool.and_eq_true, areWellFormed_iff] at wellFormed
      exact .methodCall (below receiver List.mem_cons_self wellFormed.1.1.1) method wellFormed.1.2
        fun item member =>
          below item (List.mem_cons_of_mem receiver member) (wellFormed.2 item member)
  | record name fields =>
      simp only [isWellFormed, Bool.and_eq_true, areWellFormedFields_iff] at wellFormed
      exact .record wellFormed.1 fun field member =>
        below field.2 (List.mem_map_of_mem member) (wellFormed.2 field member).2
  | block body =>
      rw [isWellFormed, Stmt.areWellFormed_iff] at wellFormed
      exact .block fun stmt member part held =>
        below part (List.mem_flatMap.mpr ⟨stmt, member, held⟩) (wellFormed stmt member part held)

theorem read_render {term : Term} (wellFormed : term.isWellFormed = true) (width level : Nat) :
    Gives (fun fuel => Term.read fuel (Token.scan (term.render width level).toList))
      (term.normalize, []) := by
  rw [scan_render wellFormed]
  exact (term.readsBack wellFormed).read [] ⟨⟨⟨rfl, rfl, rfl, rfl⟩, rfl⟩, rfl⟩

/-- Two well formed terms have the same text exactly if they differ only in how their sums are
grouped, whatever the width and the level of the text. -/
theorem render_eq_iff_reassoc (width level : Nat) {first second : Term}
    (firstWellFormed : first.isWellFormed = true) (secondWellFormed : second.isWellFormed = true) :
    first.render width level = second.render width level ↔ first.Reassoc second := by
  constructor
  · intro same
    have reads := read_render firstWellFormed width level
    rw [same] at reads
    have normal : first.normalize = second.normalize :=
      congrArg Prod.fst (reads.unique (read_render secondWellFormed width level))
    -- The reader loses the grouping, so only the normal forms are known to agree.
    have common := first.reassoc_normalize
    rw [normal] at common
    exact .trans common (.symm second.reassoc_normalize)
  · intro related
    exact (related.writtenAlike width).text level

/-- A choice that holds a term before a suffix and in a record construction. -/
def sampleChoice (inner : Term) : Term :=
  .ifElse (.name "ready") (.field inner "size") (.record "Ready" [("size", inner)])

/-- A choice over a sum that is grouped to the right. -/
def sampleRight : Term :=
  sampleChoice (.add (.name "a") (.add (.literal (.str "b + c")) (.name "c")))

/-- A choice over the same sum grouped to the left. -/
def sampleLeft : Term :=
  sampleChoice (.add (.add (.name "a") (.literal (.str "b + c"))) (.name "c"))

theorem sampleRight_render_eq_iff :
    sampleRight.isWellFormed = true ∧ sampleLeft.isWellFormed = true ∧
      (sampleRight.render 4 1 = sampleLeft.render 4 1 ↔ sampleRight.Reassoc sampleLeft) ∧
        sampleRight.Reassoc sampleLeft := by
  have related := Reassoc.assoc (.name "a") (.literal (.str "b + c")) (.name "c")
  exact ⟨by decide, by decide, render_eq_iff_reassoc 4 1 (by decide) (by decide),
    .trans (.yes _ _ (.base "size" related))
      (.no _ _ (.fieldValue "Ready" "size" [] [] related))⟩

example : (Term.field (.add (.name "a") (.name "b")) "size").render 4 1 = "(a + b).size" ∧
    (Term.add (.name "a") (.field (.name "b") "size")).render 4 1 = "a + b.size" := by
  decide

end Term

end SpecTranspiler

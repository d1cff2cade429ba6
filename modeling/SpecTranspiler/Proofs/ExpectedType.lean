import SpecTranspiler.Proofs.Subterms
import SpecTranspiler.Proofs.TermDerivation

/-!
# The expected type names records and does nothing else

Two runs over one expression, against two expected types, yield terms that are `Term.Alike`:
they differ only where one of them constructs a record, and there in no field. A run against no
type at all succeeds wherever a run against some type does, since it reads less.
-/

namespace SpecTranspiler

mutual

/-- The term with the placeholder in place of every record construction. -/
def Term.withoutRecords : Term → Term
  | .literal value => .literal value
  | .name name => .name name
  | .field base field => .field base.withoutRecords field
  | .record _ _ => .todo
  | .variant enum variant args => .variant enum variant (Term.withoutRecordsAll args)
  | .tuple elements => .tuple (Term.withoutRecordsAll elements)
  | .borrow operand => .borrow operand.withoutRecords
  | .call function types args => .call function types (Term.withoutRecordsAll args)
  | .typeCall ty method types args =>
      .typeCall ty method types (Term.withoutRecordsAll args)
  | .methodCall receiver method types args =>
      .methodCall receiver.withoutRecords method types (Term.withoutRecordsAll args)
  | .ifElse condition yes no =>
      .ifElse condition.withoutRecords yes.withoutRecords no.withoutRecords
  | .negate operand => .negate operand.withoutRecords
  | .add left right => .add left.withoutRecords right.withoutRecords
  | .bind name value body => .bind name value.withoutRecords body.withoutRecords
  | .block body => .block (Stmt.withoutRecordsAll body)
  | .todo => .todo

/-- The terms without their record constructions. -/
def Term.withoutRecordsAll : List Term → List Term
  | [] => []
  | term :: rest => term.withoutRecords :: Term.withoutRecordsAll rest

/-- The statement without the record constructions in it. -/
def Stmt.withoutRecords : Stmt → Stmt
  | .assign target value => .assign target.withoutRecords value.withoutRecords
  | .ret value => .ret value.withoutRecords

/-- The statements without the record constructions in them. -/
def Stmt.withoutRecordsAll : List Stmt → List Stmt
  | [] => []
  | stmt :: rest => stmt.withoutRecords :: Stmt.withoutRecordsAll rest

end

namespace Term

/-- The terms differ only in record constructions outside all others: in the names of records
with the same fields, or in that one of the two has the placeholder. -/
inductive Alike : Term → Term → Prop where
  | same (term : Term) : Alike term term
  | renamed (first second : String) (fields : List (String × Term)) :
      Alike (.record first fields) (.record second fields)
  | omitted (name : String) (fields : List (String × Term)) : Alike (.record name fields) .todo
  | supplied (name : String) (fields : List (String × Term)) : Alike .todo (.record name fields)
  | tuple {pairs : List (Term × Term)} (elements : ∀ pair ∈ pairs, Alike pair.1 pair.2) :
      Alike (.tuple (pairs.map Prod.fst)) (.tuple (pairs.map Prod.snd))
  | ifElse {condition yes no yes' no' : Term} (whenTrue : Alike yes yes')
      (whenFalse : Alike no no') :
      Alike (.ifElse condition yes no) (.ifElse condition yes' no')
  | bind {name : String} {value body body' : Term} (below : Alike body body') :
      Alike (.bind name value body) (.bind name value body')

theorem withoutRecordsAll_eq_map (terms : List Term) :
    withoutRecordsAll terms = terms.map withoutRecords := by
  induction terms with
  | nil => rfl
  | cons term terms ih => rw [withoutRecordsAll, ih, List.map_cons]

theorem Alike.withoutRecords_eq {first second : Term} (alike : Alike first second) :
    first.withoutRecords = second.withoutRecords := by
  induction alike with
  | same => rfl
  | renamed => rfl
  | omitted => rfl
  | supplied => rfl
  | tuple _ ih =>
      simp only [withoutRecords, withoutRecordsAll_eq_map, List.map_map]
      exact congrArg _ (List.map_congr_left ih)
  | ifElse _ _ yesIH noIH => rw [withoutRecords, withoutRecords, yesIH, noIH]
  | bind _ ih => rw [withoutRecords, withoutRecords, ih]

/-- The parts of alike terms that are open to the expected type are alike in pairs. -/
theorem Alike.openParts {first second : Term} (alike : Alike first second) {index : Nat}
    {part other : Term} (left : first.openParts[index]? = some part)
    (right : second.openParts[index]? = some other) : Alike part other := by
  cases alike with
  | same =>
      obtain rfl := Option.some.inj (left.symm.trans right)
      exact .same part
  | renamed => cases left
  | omitted => cases left
  | supplied => cases left
  | tuple elements =>
      simp only [Term.openParts, parts, List.getElem?_map, Option.map_eq_some_iff] at left right
      obtain ⟨pair, found, rfl⟩ := left
      obtain ⟨pair', found', rfl⟩ := right
      obtain rfl := Option.some.inj (found.symm.trans found')
      exact elements pair (List.mem_of_getElem? found)
  | ifElse whenTrue whenFalse =>
      rcases index with _ | _ | _ | _
      · obtain rfl := Option.some.inj (left.symm.trans right)
        exact .same part
      · cases left
        cases right
        exact whenTrue
      · cases left
        cases right
        exact whenFalse
      · cases left
  | bind below =>
      rcases index with _ | _ | _
      · obtain rfl := Option.some.inj (left.symm.trans right)
        exact .same part
      · cases left
        cases right
        exact below
      · cases left

/-- Records at one position of alike terms have the same fields. -/
theorem Alike.fields_eq {first second : Term} (alike : Alike first second) {path : List Nat}
    {name name' : String} {fields fields' : List (String × Term)}
    (left : first.openPart? path = some (.record name fields))
    (right : second.openPart? path = some (.record name' fields')) : fields = fields' := by
  induction path generalizing first second with
  | nil =>
      cases left
      cases right
      cases alike <;> rfl
  | cons index path ih =>
      obtain ⟨part, found, left⟩ := Option.bind_eq_some_iff.mp left
      obtain ⟨other, found', right⟩ := Option.bind_eq_some_iff.mp right
      exact ih (alike.openParts found found') left right

theorem Alike.of_lowers {value : Json} {expected : Option Ty} {first second : Term}
    {before after : List Warning} (left : Lowers value expected first before)
    (right : Lowers value expected second after) : Alike first second := by
  obtain ⟨rfl, -⟩ := left.unique right
  exact .same first

/-- Elements that are lowered twice, against any types, are alike in pairs. -/
theorem Alike.pairs_of_parts {parts others : List Lowered}
    (values : parts.map Lowered.value = others.map Lowered.value)
    (lowered : ∀ other ∈ others,
      Lowers other.value other.expected other.term other.warnings)
    (alike : ∀ part ∈ parts, ∀ {expected : Option Ty} {term : Term} {warnings : List Warning},
      Lowers part.value expected term warnings → Alike part.term term) :
    ∃ pairs : List (Term × Term), pairs.map Prod.fst = parts.map Lowered.term ∧
      pairs.map Prod.snd = others.map Lowered.term ∧ ∀ pair ∈ pairs, Alike pair.1 pair.2 := by
  induction parts generalizing others with
  | nil =>
      obtain rfl := List.map_eq_nil_iff.mp values.symm
      refine ⟨[], rfl, rfl, ?_⟩
      intro pair member
      cases member
  | cons part parts ih =>
      obtain ⟨other, others, rfl, sameValue, sameRest⟩ := List.map_eq_cons_iff.mp values.symm
      obtain ⟨pairs, firsts, seconds, all⟩ := ih sameRest.symm
        (fun other member => lowered other (List.mem_cons_of_mem _ member))
        (fun part member => alike part (List.mem_cons_of_mem _ member))
      have derived := lowered other List.mem_cons_self
      rw [sameValue] at derived
      refine ⟨(part.term, other.term) :: pairs, ?_, ?_, ?_⟩
      · rw [List.map_cons, List.map_cons, firsts]
      · rw [List.map_cons, List.map_cons, seconds]
      · intro pair member
        rcases List.mem_cons.mp member with rfl | member
        · exact alike part List.mem_cons_self derived
        · exact all pair member

/-- Derivations against two expected types yield alike terms. -/
theorem Lowers.alike {value : Json} {expected : Option Ty} {first : Term}
    {before : List Warning} (derived : Lowers value expected first before) :
    ∀ {other : Option Ty} {second : Term} {after : List Warning},
      Lowers value other second after → Alike first second := by
  induction derived with
  | str kindField valueField => exact .of_lowers (.str kindField valueField)
  | int kindField valueField exact => exact .of_lowers (.int kindField valueField exact)
  | bool kindField valueField => exact .of_lowers (.bool kindField valueField)
  | reference kindField nameField => exact .of_lowers (.reference kindField nameField)
  | binding binds valueField bodyField value _ _ bodyIH =>
      intro other second after run
      obtain ⟨value', body', bound, rest, _, _, valueField', bodyField', rfl, -, bound', rest'⟩ :=
        run.of_binds binds
      obtain rfl := Option.some.inj (valueField.symm.trans valueField')
      obtain rfl := Option.some.inj (bodyField.symm.trans bodyField')
      obtain ⟨rfl, -⟩ := value.unique bound'
      exact .bind (bodyIH rest')
  | otherBinding binds other => exact .of_lowers (.otherBinding binds other)
  | sum applies left right => exact .of_lowers (.sum applies left right)
  | @record _ _ fields applies labelFields lowered =>
      intro other second after run
      cases other with
      | none =>
          have even := LoweredField.even_length_operands fields
          obtain ⟨rfl, -⟩ := (Lowers.namelessRecord applies even).unique run
          exact .omitted _ _
      | some ty =>
          obtain ⟨rfl, -⟩ := (Lowers.record applies labelFields lowered).unique run
          exact .renamed _ _ _
  | namelessRecord applies even =>
      intro other second after run
      cases other with
      | none => exact .of_lowers (.namelessRecord applies even) run
      | some ty =>
          obtain ⟨fields, rfl⟩ := run.of_applies_record applies
          exact .supplied _ _
  | tuple applies types lowered ih =>
      intro other second after run
      obtain ⟨others, values, -, rfl, lowered'⟩ := run.of_applies_tuple applies
      obtain ⟨pairs, firsts, seconds, elements⟩ := Alike.pairs_of_parts values lowered' ih
      rw [← firsts, ← seconds]
      exact .tuple elements
  | choice applies condition _ _ _ yesIH noIH =>
      intro other second after run
      obtain ⟨_, _, _, test, _, _, _, _, _, same, rfl, condition', yes, no⟩ :=
        run.of_applies_choice applies
      cases same
      obtain ⟨rfl, -⟩ := condition.unique condition'
      exact .ifElse (yesIH yes) (noIH no)
  | negation applies operand => exact .of_lowers (.negation applies operand)
  | membership applies set element => exact .of_lowers (.membership applies set element)
  | keys applies map => exact .of_lowers (.keys applies map)
  | field applies labelField base => exact .of_lowers (.field applies labelField base)
  | otherOperator applies other => exact .of_lowers (.otherOperator applies other)
  | otherKind kindField other => exact .of_lowers (.otherKind kindField other)

/-- Elements that are lowered against some types are lowered against none. -/
theorem Lowers.parts_untyped {parts : List Lowered}
    (untyped : ∀ part ∈ parts, ∃ term warnings, Lowers part.value none term warnings) :
    ∃ others : List Lowered, others.map Lowered.value = parts.map Lowered.value ∧
      others.map Lowered.expected = List.replicate others.length none ∧
      ∀ other ∈ others, Lowers other.value other.expected other.term other.warnings := by
  induction parts with
  | nil =>
      refine ⟨[], rfl, rfl, ?_⟩
      intro other member
      cases member
  | cons part parts ih =>
      obtain ⟨term, warnings, derived⟩ := untyped part List.mem_cons_self
      obtain ⟨others, values, types, all⟩ :=
        ih fun part member => untyped part (List.mem_cons_of_mem _ member)
      refine ⟨⟨part.value, none, term, warnings⟩ :: others, ?_, ?_, ?_⟩
      · rw [List.map_cons, List.map_cons, values]
      · rw [List.map_cons, types, List.length_cons, List.replicate_succ]
      · intro other member
        rcases List.mem_cons.mp member with rfl | member
        · exact derived
        · exact all other member

/-- What is lowered against some type is lowered against none. A record then becomes the
placeholder, and its fields are not read. -/
theorem Lowers.untyped {value : Json} {expected : Option Ty} {term : Term}
    {warnings : List Warning} (derived : Lowers value expected term warnings) :
    ∃ term warnings, Lowers value none term warnings := by
  induction derived with
  | str kindField valueField => exact ⟨_, _, .str kindField valueField⟩
  | int kindField valueField exact => exact ⟨_, _, .int kindField valueField exact⟩
  | bool kindField valueField => exact ⟨_, _, .bool kindField valueField⟩
  | reference kindField nameField => exact ⟨_, _, .reference kindField nameField⟩
  | binding binds valueField bodyField value _ _ bodyIH =>
      obtain ⟨_, _, body⟩ := bodyIH
      exact ⟨_, _, .binding binds valueField bodyField value body⟩
  | otherBinding binds other => exact ⟨_, _, .otherBinding binds other⟩
  | sum applies left right => exact ⟨_, _, .sum applies left right⟩
  | record applies _ _ =>
      exact ⟨_, _, .namelessRecord applies (LoweredField.even_length_operands _)⟩
  | namelessRecord applies even => exact ⟨_, _, .namelessRecord applies even⟩
  | tuple applies _ _ ih =>
      obtain ⟨others, values, types, all⟩ := parts_untyped ih
      rw [← values] at applies
      exact ⟨_, _, .tuple applies types.symm all⟩
  | choice applies condition _ _ _ yesIH noIH =>
      obtain ⟨_, _, yes⟩ := yesIH
      obtain ⟨_, _, no⟩ := noIH
      exact ⟨_, _, .choice applies condition yes no⟩
  | negation applies operand => exact ⟨_, _, .negation applies operand⟩
  | membership applies set element => exact ⟨_, _, .membership applies set element⟩
  | keys applies map => exact ⟨_, _, .keys applies map⟩
  | field applies labelField base => exact ⟨_, _, .field applies labelField base⟩
  | otherOperator applies other => exact ⟨_, _, .otherOperator applies other⟩
  | otherKind kindField other => exact ⟨_, _, .otherKind kindField other⟩

/-- Of two runs over one expression, against any expected types, the results are equal but for
record constructions, and records at one position have the same fields. A run against no type
succeeds whenever one against some type does. -/
theorem lower_expected_only_names_records (value : Json) :
    (∀ (expected other : Option Ty) (earlier earlier' log log' : Array Warning)
        (first second : Term),
      (lower value expected).runWith earlier = (.ok first, log) →
      (lower value other).runWith earlier' = (.ok second, log') →
        first.withoutRecords = second.withoutRecords ∧
        ∀ (path : List Nat) (name name' : String) (fields fields' : List (String × Term)),
          first.openPart? path = some (.record name fields) →
          second.openPart? path = some (.record name' fields') → fields = fields') ∧
    ∀ (ty : Ty) (earlier earlier' log : Array Warning) (first : Term),
      (lower value (some ty)).runWith earlier = (.ok first, log) →
        ∃ second log', (lower value none).runWith earlier' = (.ok second, log') := by
  constructor
  · intro expected other earlier earlier' log log' first second left right
    obtain ⟨before, leftLowers, -⟩ := traced value left
    obtain ⟨after, rightLowers, -⟩ := traced value right
    have alike := leftLowers.alike rightLowers
    exact ⟨alike.withoutRecords_eq, fun path name name' fields fields' => alike.fields_eq⟩
  · intro ty earlier earlier' log first run
    obtain ⟨warnings, lowers, -⟩ := traced value run
    obtain ⟨second, after, untyped⟩ := lowers.untyped
    exact ⟨second, _, untyped.yields earlier'⟩

/-- A pair of a record with one field and a name. -/
def samplePair : Json :=
  .obj [("args", .arr [
      .obj [("args", .arr [.obj [("kind", .str "str"), ("value", .str "amount")],
          .obj [("kind", .str "int"), ("value", .num (.int 1))]]),
        ("kind", .str "app"), ("opcode", .str "Rec")],
      .obj [("kind", .str "name"), ("name", .str "owner")]]),
    ("kind", .str "app"), ("opcode", .str "Tup")]

/-- Against two types of pairs the record is named twice, with the same field. -/
theorem samplePair_only_names_records :
    ∃ first second, (lower samplePair (some (.tuple [.named "Coin", .str]))).runFresh =
        (.ok first, #[]) ∧
      (lower samplePair (some (.tuple [.named "Note", .str]))).runFresh = (.ok second, #[]) ∧
      first.withoutRecords = second.withoutRecords ∧
      (∃ fields fields', first.openPart? [0] = some (.record "Coin" fields) ∧
        second.openPart? [0] = some (.record "Note" fields') ∧ fields = fields') ∧
      ∃ third log, (lower samplePair none).runFresh = (.ok third, log) := by
  have left : (lower samplePair (some (.tuple [.named "Coin", .str]))).runWith #[] =
      (.ok (.tuple [.record "Coin" [("amount", .literal (.uint64 1))], .name "owner"]), #[]) := by
    with_unfolding_all rfl
  have right : (lower samplePair (some (.tuple [.named "Note", .str]))).runWith #[] =
      (.ok (.tuple [.record "Note" [("amount", .literal (.uint64 1))], .name "owner"]), #[]) := by
    with_unfolding_all rfl
  obtain ⟨alike, antitone⟩ := lower_expected_only_names_records samplePair
  obtain ⟨sameRest, sameFields⟩ := alike _ _ _ _ _ _ _ _ left right
  exact ⟨_, _, left, right, sameRest, ⟨_, _, rfl, rfl, sameFields [0] _ _ _ _ rfl rfl⟩,
    antitone _ _ _ _ _ left⟩

end Term

end SpecTranspiler

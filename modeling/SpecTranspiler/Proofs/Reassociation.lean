import SpecTranspiler.Proofs.Spelling

/-!
# Grouping of sums

`Term.Reassoc` is the least congruence on terms under which a sum may be grouped anew.
`Term.normalize` groups every sum to the left. A term and its normal form are related
(`Term.reassoc_normalize`), and related terms have the same text (`Term.Reassoc.writtenAlike`).
-/

namespace SpecTranspiler

namespace Term

/-- The terms differ only in how their sums are grouped. There is a rule for each position of a
term that another term can stand in. -/
inductive Reassoc : Term → Term → Prop where
  | assoc (first second third : Term) :
      Reassoc (.add first (.add second third)) (.add (.add first second) third)
  | refl (term : Term) : Reassoc term term
  | symm {old new : Term} (related : Reassoc old new) : Reassoc new old
  | trans {old middle new : Term} (former : Reassoc old middle) (latter : Reassoc middle new) :
      Reassoc old new
  | base {old new : Term} (field : String) (related : Reassoc old new) :
      Reassoc (.field old field) (.field new field)
  | fieldValue {old new : Term} (name label : String) (before after : List (String × Term))
      (related : Reassoc old new) :
      Reassoc (.record name (before ++ (label, old) :: after))
        (.record name (before ++ (label, new) :: after))
  | variantArg {old new : Term} (enum variant : String) (before after : List Term)
      (related : Reassoc old new) :
      Reassoc (.variant enum variant (before ++ old :: after))
        (.variant enum variant (before ++ new :: after))
  | element {old new : Term} (before after : List Term) (related : Reassoc old new) :
      Reassoc (.tuple (before ++ old :: after)) (.tuple (before ++ new :: after))
  | borrowed {old new : Term} (related : Reassoc old new) : Reassoc (.borrow old) (.borrow new)
  | callArg {old new : Term} (function : String) (types : List Ty) (before after : List Term)
      (related : Reassoc old new) :
      Reassoc (.call function types (before ++ old :: after))
        (.call function types (before ++ new :: after))
  | typeCallArg {old new : Term} (ty : Ty) (method : String) (types : List Ty)
      (before after : List Term) (related : Reassoc old new) :
      Reassoc (.typeCall ty method types (before ++ old :: after))
        (.typeCall ty method types (before ++ new :: after))
  | receiver {old new : Term} (method : String) (types : List Ty) (args : List Term)
      (related : Reassoc old new) :
      Reassoc (.methodCall old method types args) (.methodCall new method types args)
  | methodCallArg {old new : Term} (receiver : Term) (method : String) (types : List Ty)
      (before after : List Term) (related : Reassoc old new) :
      Reassoc (.methodCall receiver method types (before ++ old :: after))
        (.methodCall receiver method types (before ++ new :: after))
  | condition {old new : Term} (yes no : Term) (related : Reassoc old new) :
      Reassoc (.ifElse old yes no) (.ifElse new yes no)
  | yes {old new : Term} (condition no : Term) (related : Reassoc old new) :
      Reassoc (.ifElse condition old no) (.ifElse condition new no)
  | no {old new : Term} (condition yes : Term) (related : Reassoc old new) :
      Reassoc (.ifElse condition yes old) (.ifElse condition yes new)
  | negated {old new : Term} (related : Reassoc old new) : Reassoc (.negate old) (.negate new)
  | left {old new : Term} (right : Term) (related : Reassoc old new) :
      Reassoc (.add old right) (.add new right)
  | right {old new : Term} (left : Term) (related : Reassoc old new) :
      Reassoc (.add left old) (.add left new)
  | bound {old new : Term} (name : String) (body : Term) (related : Reassoc old new) :
      Reassoc (.bind name old body) (.bind name new body)
  | body {old new : Term} (name : String) (value : Term) (related : Reassoc old new) :
      Reassoc (.bind name value old) (.bind name value new)
  | target {old new : Term} (value : Term) (before after : List Stmt)
      (related : Reassoc old new) :
      Reassoc (.block (before ++ .assign old value :: after))
        (.block (before ++ .assign new value :: after))
  | assigned {old new : Term} (target : Term) (before after : List Stmt)
      (related : Reassoc old new) :
      Reassoc (.block (before ++ .assign target old :: after))
        (.block (before ++ .assign target new :: after))
  | returned {old new : Term} (before after : List Stmt) (related : Reassoc old new) :
      Reassoc (.block (before ++ .ret old :: after)) (.block (before ++ .ret new :: after))

/-- Add a term to a term, one summand of the second after the other. -/
def graft (left : Term) : Term → Term
  | .add first second => .add (graft left first) second
  | other => .add left other

theorem graft_of_ne_add {left other : Term} (single : ∀ first second, other ≠ .add first second) :
    graft left other = .add left other := by
  cases other with
  | add first second => exact absurd rfl (single first second)
  | _ => rfl

theorem graft_assoc (first second third : Term) :
    graft first (graft second third) = graft (graft first second) third := by
  fun_induction graft second third with
  | case1 left right ih => rw [graft, graft, ih]
  | case2 other single => rw [graft, graft_of_ne_add single]

/-- Adding the summands one after the other only groups the sum anew. -/
theorem reassoc_graft (left right : Term) : Reassoc (.add left right) (graft left right) := by
  fun_induction graft left right with
  | case1 first second ih => exact .trans (.assoc left first second) (.left second ih)
  | case2 other single => exact .refl (.add left other)

end Term

mutual

/-- Group every sum in the term to the left. -/
@[simp]
def Term.normalize : Term → Term
  | .literal value => .literal value
  | .name name => .name name
  | .field base field => .field base.normalize field
  | .record name fields => .record name (Term.normalizeFields fields)
  | .variant enum variant args => .variant enum variant (Term.normalizeAll args)
  | .tuple elements => .tuple (Term.normalizeAll elements)
  | .borrow operand => .borrow operand.normalize
  | .call function types args => .call function types (Term.normalizeAll args)
  | .typeCall ty method types args => .typeCall ty method types (Term.normalizeAll args)
  | .methodCall receiver method types args =>
      .methodCall receiver.normalize method types (Term.normalizeAll args)
  | .ifElse condition yes no => .ifElse condition.normalize yes.normalize no.normalize
  | .negate operand => .negate operand.normalize
  | .add left right => .graft left.normalize right.normalize
  | .bind name value body => .bind name value.normalize body.normalize
  | .block body => .block (Stmt.normalizeAll body)
  | .todo => .todo

/-- Group every sum in the terms to the left. -/
def Term.normalizeAll : List Term → List Term
  | [] => []
  | term :: terms => term.normalize :: Term.normalizeAll terms

/-- Group every sum in the values of the fields to the left. -/
def Term.normalizeFields : List (String × Term) → List (String × Term)
  | [] => []
  | (name, value) :: fields => (name, value.normalize) :: Term.normalizeFields fields

/-- Group every sum in the statement to the left. -/
def Stmt.normalize : Stmt → Stmt
  | .assign target value => .assign target.normalize value.normalize
  | .ret value => .ret value.normalize

/-- Group every sum in the statements to the left. -/
def Stmt.normalizeAll : List Stmt → List Stmt
  | [] => []
  | stmt :: stmts => stmt.normalize :: Stmt.normalizeAll stmts

end

theorem Stmt.normalizeAll_eq_map (body : List Stmt) :
    normalizeAll body = body.map normalize := by
  induction body with
  | nil => rfl
  | cons stmt body ih => rw [normalizeAll, ih, List.map_cons]

namespace Term

theorem normalizeAll_eq_map (terms : List Term) : normalizeAll terms = terms.map normalize := by
  induction terms with
  | nil => rfl
  | cons term terms ih => rw [normalizeAll, ih, List.map_cons]

theorem normalizeFields_eq_map (fields : List (String × Term)) :
    normalizeFields fields = fields.map fun field => (field.1, field.2.normalize) := by
  induction fields with
  | nil => rfl
  | cons field fields ih => rw [normalizeFields, ih, List.map_cons]

theorem normalize_ne_add {term : Term} (single : ∀ first second, term ≠ .add first second)
    (first second : Term) : term.normalize ≠ .add first second := by
  cases term with
  | add left right => exact absurd rfl (single left right)
  | _ => rw [normalize]; exact Term.noConfusion

/-- A list of a term can be changed throughout if it can be changed at each position. -/
theorem Reassoc.each {α : Type} {wrap : List α → Term} {change : α → α} {items : List α}
    (single : ∀ item ∈ items, ∀ before after,
      Reassoc (wrap (before ++ item :: after)) (wrap (before ++ change item :: after))) :
    Reassoc (wrap items) (wrap (items.map change)) := by
  -- The items that have been changed already stand in front of those that have not.
  have step : ∀ done, Reassoc (wrap (done ++ items)) (wrap (done ++ items.map change)) := by
    induction items with
    | nil => exact fun done => .refl (wrap (done ++ []))
    | cons item items ih =>
        intro done
        obtain ⟨head, tail⟩ := List.forall_mem_cons.mp single
        have rest := ih tail (done ++ [change item])
        rw [List.append_assoc, List.append_assoc] at rest
        exact .trans (head done items) rest
  exact step []

/-- Grouping every sum to the left gives a related term. -/
theorem reassoc_normalize (term : Term) : Reassoc term term.normalize := by
  induction term using partsInduction with | _ term below
  cases term with
  | literal | name | todo => exact .refl _
  | field base field => exact .base field (below base (List.mem_singleton_self base))
  | borrow operand => exact .borrowed (below operand (List.mem_singleton_self operand))
  | negate operand => exact .negated (below operand (List.mem_singleton_self operand))
  | add left right =>
      have first := Reassoc.left right (below left (by simp [parts]))
      have second := Reassoc.right left.normalize (below right (by simp [parts]))
      exact .trans (.trans first second) (reassoc_graft left.normalize right.normalize)
  | ifElse condition yes no =>
      have first := Reassoc.condition yes no (below condition (by simp [parts]))
      have second := Reassoc.yes condition.normalize no (below yes (by simp [parts]))
      have third := Reassoc.no condition.normalize yes.normalize (below no (by simp [parts]))
      exact .trans (.trans first second) third
  | bind name value body =>
      have first := Reassoc.bound name body (below value (by simp [parts]))
      exact .trans first (.body name value.normalize (below body (by simp [parts])))
  | tuple elements =>
      rw [normalize, normalizeAll_eq_map]
      exact Reassoc.each fun item member before after => .element before after (below item member)
  | variant enum label args =>
      rw [normalize, normalizeAll_eq_map]
      exact Reassoc.each fun item member before after =>
        .variantArg enum label before after (below item member)
  | call function types args =>
      rw [normalize, normalizeAll_eq_map]
      exact Reassoc.each fun item member before after =>
        .callArg function types before after (below item member)
  | typeCall ty method types args =>
      rw [normalize, normalizeAll_eq_map]
      exact Reassoc.each fun item member before after =>
        .typeCallArg ty method types before after (below item member)
  | methodCall receiver method types args =>
      rw [normalize, normalizeAll_eq_map]
      have first := Reassoc.receiver method types args (below receiver List.mem_cons_self)
      exact .trans first (Reassoc.each fun item member before after =>
        .methodCallArg receiver.normalize method types before after
          (below item (List.mem_cons_of_mem receiver member)))
  | record name fields =>
      rw [normalize, normalizeFields_eq_map]
      exact Reassoc.each fun field member before after =>
        .fieldValue name field.1 before after (below field.2 (List.mem_map_of_mem member))
  | block body =>
      rw [normalize, Stmt.normalizeAll_eq_map]
      apply Reassoc.each
      intro stmt member before after
      have held (part : Term) (direct : part ∈ stmt.parts) : Reassoc part part.normalize :=
        below part (List.mem_flatMap.mpr ⟨stmt, member, direct⟩)
      cases stmt with
      | assign target value =>
          exact .trans (.target value before after (held target (by simp [Stmt.parts])))
            (.assigned target.normalize before after (held value (by simp [Stmt.parts])))
      | ret value => exact .returned before after (held value (by simp [Stmt.parts]))

/-- The terms are written in the same way wherever they stand. -/
structure WrittenAlike (width : Nat) (old new : Term) : Prop where
  compound : old.isCompound = new.isCompound
  braced : old.isBraced = new.isBraced
  text : ∀ level, old.render width level = new.render width level

theorem renderAll_replace {width level : Nat} {old new : Term}
    (same : old.render width level = new.render width level) (before after : List Term) :
    renderAll width level (before ++ old :: after) =
      renderAll width level (before ++ new :: after) := by
  simp only [renderAll_eq_map, List.map_append, List.map_cons, same]

/-- Related terms are written in the same way. -/
theorem Reassoc.writtenAlike (width : Nat) {old new : Term} (related : Reassoc old new) :
    WrittenAlike width old new := by
  induction related with
  | assoc first second third =>
      refine ⟨rfl, rfl, fun level => ?_⟩
      simp only [render, isBraced, parenthesize, Bool.false_eq_true, ↓reduceIte,
        String.append_assoc]
  | refl term => exact ⟨rfl, rfl, fun level => rfl⟩
  | symm _ ih => exact ⟨ih.compound.symm, ih.braced.symm, fun level => (ih.text level).symm⟩
  | trans _ _ former latter =>
      exact ⟨former.compound.trans latter.compound, former.braced.trans latter.braced,
        fun level => (former.text level).trans (latter.text level)⟩
  | base field _ ih =>
      refine ⟨rfl, rfl, fun level => ?_⟩
      rw [render, render, ih.compound, ih.text]
  | borrowed _ ih | negated _ ih =>
      refine ⟨rfl, rfl, fun level => ?_⟩
      rw [render, render, ih.compound, ih.text]
  | left right _ ih | right left _ ih =>
      refine ⟨rfl, rfl, fun level => ?_⟩
      rw [render, render, ih.braced, ih.text]
  | condition _ _ _ ih | yes _ _ _ ih | no _ _ _ ih =>
      refine ⟨rfl, rfl, fun level => ?_⟩
      simp only [render, ih.text]
  | bound _ _ _ ih | body _ _ _ ih =>
      refine ⟨rfl, rfl, fun level => ?_⟩
      simp only [render, ih.text]
  | element before after _ ih =>
      refine ⟨rfl, rfl, fun level => ?_⟩
      rw [render, render, renderAll_replace (ih.text level)]
  | callArg _ _ before after _ ih | typeCallArg _ _ _ before after _ ih
  | methodCallArg _ _ _ before after _ ih =>
      refine ⟨rfl, rfl, fun level => ?_⟩
      rw [render, render, renderAll_replace (ih.text level)]
  | variantArg _ _ before after _ ih =>
      refine ⟨rfl, rfl, fun level => ?_⟩
      have args := renderAll_replace (ih.text level) before after
      cases before with
      | nil =>
          simp only [List.nil_append] at args ⊢
          rw [render, render, args]
      | cons head before =>
          simp only [List.cons_append] at args ⊢
          rw [render, render, args]
  | receiver _ _ _ _ ih =>
      refine ⟨rfl, rfl, fun level => ?_⟩
      rw [render, render, ih.compound, ih.text]
  | fieldValue _ _ before after _ ih =>
      refine ⟨rfl, rfl, fun level => ?_⟩
      simp only [render, renderFields_eq_map, List.map_append, List.map_cons, ih.text]
  | target _ before after _ ih | assigned _ before after _ ih | returned before after _ ih =>
      refine ⟨rfl, rfl, fun level => ?_⟩
      simp only [render, Stmt.renderAll_eq_map, List.map_append, List.map_cons, Stmt.render,
        ih.text]

end Term

end SpecTranspiler

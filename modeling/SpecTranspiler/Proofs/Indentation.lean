import SpecTranspiler.Proofs.Layout
import SpecTranspiler.Proofs.Spelling
import SpecTranspiler.Proofs.StringLiterals

/-!
# Indentation

Terms, statements and items are written by laying out pieces. The pieces depend neither on the width
of a level nor on the level where the text starts, so both change only the spaces in front of lines
(`texts_are_laid_out`). A string literal stands in one piece, with the newlines it holds.
-/

namespace SpecTranspiler

mutual

/-- The layout of a term. -/
def Term.layout : Term → Layout
  | .literal value => value.render
  | .name name => name
  | .field base field => Layout.parenthesize base.isCompound base.layout ++ "." ++ field
  | .record name fields => name ++ " " ++ Layout.braced (Term.fieldLayouts fields)
  | .variant enum variant [] => enum ++ "::" ++ variant
  | .variant enum variant (arg :: args) =>
      enum ++ "::" ++ variant ++ "(" ++ Layout.intercalate ", " (Term.layouts (arg :: args)) ++ ")"
  | .tuple elements => Layout.parenthesized (Term.layouts elements)
  | .borrow operand => "&" ++ Layout.parenthesize operand.isCompound operand.layout
  | .call function types args =>
      function ++ Ty.renderTypeArgs types ++ "(" ++
        Layout.intercalate ", " (Term.layouts args) ++ ")"
  | .typeCall ty method types args =>
      ty.renderPath ++ "::" ++ method ++ Ty.renderTypeArgs types ++ "(" ++
        Layout.intercalate ", " (Term.layouts args) ++ ")"
  | .methodCall receiver method types args =>
      Layout.parenthesize receiver.isCompound receiver.layout ++ "." ++ method ++
        Ty.renderTypeArgs types ++ "(" ++ Layout.intercalate ", " (Term.layouts args) ++ ")"
  | .ifElse condition yes no =>
      "if " ++ condition.layout ++ " " ++ Layout.braced [yes.layout] ++ " else " ++
        Layout.braced [no.layout]
  | .negate operand => "!" ++ Layout.parenthesize operand.isCompound operand.layout
  | .add left right =>
      Layout.parenthesize left.isBraced left.layout ++ " + " ++
        Layout.parenthesize right.isBraced right.layout
  | .bind name value body =>
      Layout.braced ["let " ++ name ++ " = " ++ value.layout ++ ";", body.layout]
  | .block body => Layout.braced (Stmt.layouts body)
  | .todo => "todo!()"

/-- The layouts of terms. -/
def Term.layouts : List Term → List Layout
  | [] => []
  | term :: rest => term.layout :: Term.layouts rest

/-- The layouts of the fields of a record construction. -/
def Term.fieldLayouts : List (String × Term) → List Layout
  | [] => []
  | (name, value) :: rest => (name ++ ": " ++ value.layout ++ ",") :: Term.fieldLayouts rest

/-- The layout of a statement. -/
def Stmt.layout : Stmt → Layout
  | .assign target value => target.layout ++ " = " ++ value.layout ++ ";"
  | .ret value => "return " ++ value.layout ++ ";"

/-- The layouts of statements. -/
def Stmt.layouts : List Stmt → List Layout
  | [] => []
  | stmt :: rest => stmt.layout :: Stmt.layouts rest

end

namespace Term

theorem layouts_eq_map (terms : List Term) : layouts terms = terms.map layout := by
  induction terms with
  | nil => rfl
  | cons term terms ih => rw [layouts, ih, List.map_cons]

theorem fieldLayouts_eq_map (fields : List (String × Term)) :
    fieldLayouts fields =
      fields.map fun field => (field.1 ++ ": " ++ field.2.layout ++ "," : Layout) := by
  induction fields with
  | nil => rfl
  | cons field fields ih => rw [fieldLayouts, ih, List.map_cons]

end Term

theorem Stmt.layouts_eq_map (body : List Stmt) : Stmt.layouts body = body.map Stmt.layout := by
  induction body with
  | nil => rfl
  | cons stmt body ih => rw [layouts, ih, List.map_cons]

/-- The term is written by its layout. -/
def Term.Written (term : Term) : Prop :=
  ∀ width level, term.render width level = term.layout.render width level

theorem Stmt.render_eq_layout {stmt : Stmt} (written : ∀ part ∈ stmt.parts, part.Written)
    (width level : Nat) :
    stmt.render width level = margin width level ++ stmt.layout.render width level := by
  cases stmt with
  | assign target value =>
      have left := written target (by simp [Stmt.parts]) width level
      have right := written value (by simp [Stmt.parts]) width level
      simp [Stmt.render, Stmt.layout, left, right, String.append_assoc]
  | ret value =>
      have inner := written value (by simp [Stmt.parts]) width level
      simp [Stmt.render, Stmt.layout, inner, String.append_assoc]

theorem Stmt.renderAll_eq_layouts (body : List Stmt)
    (written : ∀ part ∈ body.flatMap Stmt.parts, part.Written) (width level : Nat) :
    Stmt.renderAll width level body = (Stmt.layouts body).map fun line =>
      margin width level ++ line.render width level := by
  rw [renderAll_eq_map, layouts_eq_map, List.map_map]
  refine List.map_congr_left fun stmt member => ?_
  have held : ∀ part ∈ stmt.parts, part.Written := fun part direct =>
    written part (List.mem_flatMap.mpr ⟨stmt, member, direct⟩)
  exact stmt.render_eq_layout held width level

namespace Term

theorem renderAll_eq_layouts (terms : List Term) (written : ∀ term ∈ terms, term.Written)
    (width level : Nat) :
    renderAll width level terms = (layouts terms).map (Layout.render width level) := by
  rw [renderAll_eq_map, layouts_eq_map, List.map_map]
  exact List.map_congr_left fun term member => written term member width level

/-- Every term is written by its layout. The induction is on the terms directly below, which stand
one level further in where lines are broken around them. -/
theorem written (term : Term) : term.Written := by
  induction term using partsInduction with
  | _ term below =>
  intro width level
  cases term with
  | literal | name | todo => exact (Layout.render_ofText ..).symm
  | field base label =>
      have inner := below base (by simp [parts]) width level
      simp [render, layout, inner]
  | record ty fields =>
      have each : renderFields width (level + 1) fields = (fieldLayouts fields).map fun line =>
          margin width (level + 1) ++ line.render width (level + 1) := by
        rw [renderFields_eq_map, fieldLayouts_eq_map, List.map_map]
        refine List.map_congr_left fun field member => ?_
        have inner := below field.2 (List.mem_map_of_mem member) width (level + 1)
        simp [inner, String.append_assoc]
      simp [render, layout, each]
  | variant enum label args =>
      have each := renderAll_eq_layouts args below width level
      cases args with
      | nil => simp [render, layout]
      | cons arg args => simp [render, layout, each]
  | tuple elements =>
      have each := renderAll_eq_layouts elements below width level
      simp [render, layout, each]
  | borrow operand =>
      have inner := below operand (by simp [parts]) width level
      simp [render, layout, inner]
  | call function types args =>
      have each := renderAll_eq_layouts args below width level
      simp [render, layout, each]
  | typeCall ty method types args =>
      have each := renderAll_eq_layouts args below width level
      simp [render, layout, each]
  | methodCall receiver method types args =>
      have inner := below receiver (by simp [parts]) width level
      have each := renderAll_eq_layouts args
        (fun arg member => below arg (List.mem_cons_of_mem _ member)) width level
      simp [render, layout, inner, each]
  | ifElse condition yes no =>
      have test := below condition (by simp [parts]) width level
      have whenTrue := below yes (by simp [parts]) width (level + 1)
      have whenFalse := below no (by simp [parts]) width (level + 1)
      simp [render, layout, test, whenTrue, whenFalse]
  | negate operand =>
      have inner := below operand (by simp [parts]) width level
      simp [render, layout, inner]
  | add left right =>
      have first := below left (by simp [parts]) width level
      have second := below right (by simp [parts]) width level
      simp [render, layout, first, second]
  | bind label value body =>
      have bound := below value (by simp [parts]) width (level + 1)
      have rest := below body (by simp [parts]) width (level + 1)
      simp [render, layout, bound, rest, String.append_assoc]
  | block body =>
      have each := Stmt.renderAll_eq_layouts body below width (level + 1)
      simp [render, layout, each]

end Term

namespace Literal

/-- A text between quotes, with a backslash in front of each quote and each backslash in it. All
other characters stand for themselves. -/
def quoted (text : String) : String :=
  "\"" ++ String.ofList (text.toList.flatMap escapeChar) ++ "\""

theorem standsIn_render (text : String) : StandsIn (quoted text) (Literal.str text).render := by
  have ending : "\".to_string()" = "\"" ++ ".to_string()" := rfl
  rw [render, escapeLiteral_eq_flatMap, ending, ← String.append_assoc]
  exact (StandsIn.refl (quoted text)).appendLeft ".to_string()"

end Literal

/-- What stands in a piece of a term in a statement stands in a piece of the statement. -/
theorem Stmt.holds_of_mem_parts {stmt : Stmt} {part : Term} {text : String}
    (direct : part ∈ stmt.parts) (holds : part.layout.Holds text) : stmt.layout.Holds text := by
  cases stmt with
  | assign target value =>
      simp only [parts, List.mem_cons, List.not_mem_nil, or_false] at direct
      rcases direct with rfl | rfl
      · exact holds.appendLeft.appendLeft.appendLeft
      · exact holds.appendRight.appendLeft
  | ret value =>
      obtain rfl := List.mem_singleton.mp direct
      exact holds.appendRight.appendLeft

theorem Stmt.holds_layouts {body : List Stmt} {part : Term} {text : String}
    (direct : part ∈ body.flatMap Stmt.parts) (holds : part.layout.Holds text) :
    ∃ layout ∈ Stmt.layouts body, layout.Holds text := by
  obtain ⟨stmt, member, held⟩ := List.mem_flatMap.mp direct
  rw [layouts_eq_map]
  exact ⟨stmt.layout, List.mem_map_of_mem member, holds_of_mem_parts held holds⟩

namespace Term

/-- What stands in a piece of a term stands in a piece of the term around it. -/
theorem holds_of_mem_parts {term part : Term} {text : String} (direct : part ∈ term.parts)
    (holds : part.layout.Holds text) : term.layout.Holds text := by
  have listed {terms : List Term} (member : part ∈ terms) : part.layout ∈ layouts terms := by
    rw [layouts_eq_map]
    exact List.mem_map_of_mem member
  cases term with
  | literal | name | todo => cases direct
  | field base label =>
      obtain rfl := List.mem_singleton.mp direct
      exact holds.parenthesize.appendLeft.appendLeft
  | record ty fields =>
      obtain ⟨⟨label, value⟩, member, rfl⟩ := List.mem_map.mp direct
      have line : (label ++ ": " ++ value.layout ++ "," : Layout) ∈ fieldLayouts fields := by
        rw [fieldLayouts_eq_map]
        exact List.mem_map.mpr ⟨(label, value), member, rfl⟩
      exact (Layout.Holds.braced line holds.appendRight.appendLeft).appendRight
  | variant enum label args =>
      cases args with
      | nil => cases direct
      | cons arg args => exact (holds.intercalate (listed direct)).appendRight.appendLeft
  | tuple elements => exact holds.parenthesized (listed direct)
  | borrow operand | negate operand =>
      obtain rfl := List.mem_singleton.mp direct
      exact holds.parenthesize.appendRight
  | call function types args =>
      exact (holds.intercalate (listed direct)).appendRight.appendLeft
  | typeCall ty method types args =>
      exact (holds.intercalate (listed direct)).appendRight.appendLeft
  | methodCall receiver method types args =>
      rcases List.mem_cons.mp direct with rfl | member
      · exact holds.parenthesize.appendLeft.appendLeft.appendLeft.appendLeft.appendLeft.appendLeft
      · exact (holds.intercalate (listed member)).appendRight.appendLeft
  | ifElse condition yes no =>
      simp only [parts, List.mem_cons, List.not_mem_nil, or_false] at direct
      rcases direct with rfl | rfl | rfl
      · exact holds.appendRight.appendLeft.appendLeft.appendLeft.appendLeft
      · exact (holds.braced List.mem_cons_self).appendRight.appendLeft.appendLeft
      · exact (holds.braced List.mem_cons_self).appendRight
  | add left right =>
      simp only [parts, List.mem_cons, List.not_mem_nil, or_false] at direct
      rcases direct with rfl | rfl
      · exact holds.parenthesize.appendLeft.appendLeft
      · exact holds.parenthesize.appendRight
  | bind label value body =>
      simp only [parts, List.mem_cons, List.not_mem_nil, or_false] at direct
      rcases direct with rfl | rfl
      · exact .braced List.mem_cons_self holds.appendRight.appendLeft
      · exact holds.braced (List.mem_cons_of_mem _ List.mem_cons_self)
  | block body =>
      obtain ⟨layout, member, inside⟩ := Stmt.holds_layouts direct holds
      exact inside.braced member

/-- A literal stands in one piece of every term around it. -/
theorem holds_literal {value : Literal} {term : Term} (inside : Within (.literal value) term) :
    term.layout.Holds value.render := by
  induction inside with
  | here => exact .ofText _
  | deeper direct _ ih => exact holds_of_mem_parts direct ih

/-- A text between quotes stands in one piece of every term with its literal inside. -/
theorem holds_quoted {text : String} {term : Term}
    (inside : Within (.literal (.str text)) term) : term.layout.Holds (Literal.quoted text) := by
  obtain ⟨piece, member, stands⟩ := holds_literal inside
  exact ⟨piece, member, (Literal.standsIn_render text).trans stands⟩

end Term

namespace Item

/-- The attributes above an item. -/
def attributes : Item → List String
  | .struct _ _ attributes | .function _ _ _ _ attributes => attributes
  | .const .. | .val .. | .synonym .. => []

/-- The line of an attribute. -/
def attributeLine (text : String) : String :=
  "#[" ++ text ++ "]"

/-- The lines of attributes and the line where the item itself starts, if attributes can stand
above it. -/
def headings : Item → List String
  | .struct name fields attributes =>
      attributes.map attributeLine ++
        ["pub struct " ++ name ++ (if fields.isEmpty then " \x7b\x7d" else " \x7b")]
  | .function name params result _ attributes =>
      attributes.map attributeLine ++
        ["pub fn " ++ name ++ "(" ++ String.intercalate ", " (params.map Param.render) ++ ") -> " ++
          result.render ++ " \x7b"]
  | .const .. | .val .. | .synonym .. => []

/-- The layout of an item without its attributes. -/
def layout : Item → Layout
  | .struct name fields _ =>
      "pub struct " ++ name ++ " " ++ Layout.braced (fields.map fun field =>
        Layout.ofText ("pub " ++ field.1 ++ ": " ++ field.2.render ++ ","))
  | .function name params result body _ =>
      "pub fn " ++ name ++ "(" ++ String.intercalate ", " (params.map Param.render) ++ ") -> " ++
        result.render ++ " " ++ Layout.enclosed (Stmt.layouts body)
  | .const name ty value =>
      "pub const " ++ name ++ ": " ++ ty.render ++ " = " ++ value.layout ++ ";"
  | .val name value => "let " ++ name ++ " = " ++ value.layout ++ ";"
  | .synonym name ty => "pub type " ++ name ++ " = " ++ ty.render ++ ";"

/-- Attributes are written as lines above an item. -/
theorem writeAll_attributes (first : String) (below : List Line) (width level : Nat)
    (attributes : List String) :
    margin width level ++ Line.writeAll width level
        (Line.stack first below (attributes.map attributeLine)).1
        (Line.stack first below (attributes.map attributeLine)).2 =
      renderAttributes width level attributes ++
        (margin width level ++ Line.writeAll width level first below) := by
  induction attributes with
  | nil => exact String.empty_append.symm
  | cons text attributes ih =>
      have line : renderAttributes width level (text :: attributes) = margin width level ++
          attributeLine text ++ "\n" ++ renderAttributes width level attributes := by
        have ended : "]\n" = "]" ++ "\n" := rfl
        simp only [renderAttributes, attributeLine, List.map_cons, String.join_cons,
          String.append_assoc, ended]
      rw [line, List.map_cons, Line.stack, Line.writeAll_cons]
      simp only [Nat.add_zero, String.append_assoc, ih]

/-- An item is written as its attributes and then its layout. -/
theorem render_eq_layout (item : Item) (width level : Nat) :
    item.render width level = renderAttributes width level item.attributes ++
      (margin width level ++ item.layout.render width level) := by
  have plain : renderAttributes width level [] = "" := rfl
  cases item with
  | struct name fields attributes =>
      have each : fields.map (renderField width (level + 1)) = fields.map fun field =>
          margin width (level + 1) ++ ("pub " ++ field.1 ++ ": " ++ field.2.render ++ ",") := by
        refine List.map_congr_left fun field _ => ?_
        simp only [renderField, String.append_assoc]
      simp [render, layout, Item.attributes, each, String.append_assoc, Function.comp_def]
  | function name params result body attributes =>
      have each := Stmt.renderAll_eq_layouts body (fun part _ => part.written) width (level + 1)
      simp [render, layout, renderBody, Item.attributes, each, String.append_assoc]
  | const name ty value =>
      simp [render, layout, Item.attributes, plain, value.written width level,
        String.append_assoc]
  | val name value =>
      simp [render, layout, Item.attributes, plain, value.written width level,
        String.append_assoc]
  | synonym name ty => simp [render, layout, Item.attributes, plain, String.append_assoc]

/-- The attributes and the line where the item starts are its headings. -/
theorem headings_eq {item : Item} (decorated : item.attributes ≠ []) :
    item.headings = item.attributes.map attributeLine ++ [item.layout.first] := by
  cases item with
  | struct name fields attributes =>
      refine congrArg (fun line => attributes.map attributeLine ++ [line]) ?_
      cases fields with
      | nil =>
          change "pub struct " ++ name ++ (" " ++ "\x7b\x7d") = _ ++ " " ++ "\x7b\x7d"
          exact String.append_assoc.symm
      | cons field fields =>
          change "pub struct " ++ name ++ (" " ++ "\x7b") = _ ++ " " ++ "\x7b"
          exact String.append_assoc.symm
  | function name params result body attributes =>
      refine congrArg (fun line => attributes.map attributeLine ++ [line]) ?_
      change _ ++ result.render ++ (" " ++ "\x7b") = _ ++ result.render ++ " " ++ "\x7b"
      exact String.append_assoc.symm
  | const | val | synonym => exact (decorated rfl).elim

theorem holds_of_mem_terms {item : Item} {term : Term} {text : String}
    (direct : term ∈ item.terms) (holds : term.layout.Holds text) : item.layout.Holds text := by
  cases item with
  | struct | synonym => cases direct
  | function name params result body attributes =>
      obtain ⟨layout, member, inside⟩ := Stmt.holds_layouts direct holds
      exact (inside.enclosed member).appendRight
  | const name ty value =>
      obtain rfl := List.mem_singleton.mp direct
      exact holds.appendRight.appendLeft
  | val name value =>
      obtain rfl := List.mem_singleton.mp direct
      exact holds.appendRight.appendLeft

end Item

/-- A text that is written for every width and level is laid out in pieces that depend on neither.
Pieces that start where the text starts are headings or close a brace, the last of several pieces
starts there, and the texts of string literals in the terms stand in one piece each, with their
newlines. -/
def LaidOut (write : Nat → Nat → String) (headings : List String) (terms : List Term) : Prop :=
  ∃ (first : String) (below : List Line),
    (∀ width level, write width level = Line.writeAll width level first below) ∧
    (∀ line ∈ below, line.depth = 0 → line.text ∈ headings ∨ StartsClosing line.text) ∧
    (below.map Line.depth).getLastD 0 = 0 ∧
    ∀ term ∈ terms, ∀ text, Term.Within (.literal (.str text)) term →
      ∃ piece ∈ first :: below.map Line.text, StandsIn (Literal.quoted text) piece

theorem Layout.laidOut (layout : Layout) {terms : List Term}
    (holds : ∀ term ∈ terms, ∀ text, term.layout.Holds text → layout.Holds text) :
    LaidOut (fun width level => layout.render width level) [] terms := by
  refine ⟨layout.first, layout.below, fun _ _ => rfl, ?_, layout.ends, ?_⟩
  · exact fun line member outermost => .inr (layout.closing line member outermost)
  · exact fun term member text inside => holds term member _ (Term.holds_quoted inside)

theorem Term.laidOut (term : Term) :
    LaidOut (fun width level => term.render width level) [] [term] := by
  have written : (fun width level => term.render width level) =
      fun width level => term.layout.render width level := by
    funext width level
    exact term.written width level
  rw [written]
  refine term.layout.laidOut ?_
  intro part member text holds
  obtain rfl := List.mem_singleton.mp member
  exact holds

theorem Stmt.laidOut (stmt : Stmt) :
    LaidOut (fun width level => stmt.layout.render width level) [] stmt.parts :=
  stmt.layout.laidOut fun _ member _ holds => Stmt.holds_of_mem_parts member holds

/-- An item is laid out with its attributes above it. -/
theorem Item.laidOut (item : Item) :
    ∃ write, (∀ width level, item.render width level =
        String.ofList (List.replicate (width * level) ' ') ++ write width level) ∧
      LaidOut write item.headings item.terms := by
  let above := item.attributes.map attributeLine
  have written : ∀ width level, item.render width level =
      String.ofList (List.replicate (width * level) ' ') ++
        Line.writeAll width level (Line.stack item.layout.first item.layout.below above).1
          (Line.stack item.layout.first item.layout.below above).2 := by
    intro width level
    rw [item.render_eq_layout, ← margin, writeAll_attributes]
    rfl
  refine ⟨_, written, _, _, fun _ _ => rfl, ?_, Line.lastDepth_stack item.layout.ends above, ?_⟩
  · by_cases bare : item.attributes = []
    · have nothing : above = [] := by simp [above, bare]
      rw [nothing]
      exact fun line member outermost => .inr (item.layout.closing line member outermost)
    · rw [headings_eq bare]
      exact Line.startsClosing_stack item.layout.closing above
  · intro term member text inside
    obtain ⟨piece, found, stands⟩ := holds_of_mem_terms member (Term.holds_quoted inside)
    exact ⟨piece, Line.mem_stack found above, stands⟩

/-- Terms are laid out in pieces, and so are statements and items behind the spaces of their level,
which are `width * level` many. Besides closing braces only the attributes of an item and its own
first line start at that level. -/
theorem texts_are_laid_out :
    (∀ term : Term, LaidOut (fun width level => term.render width level) [] [term]) ∧
      (∀ stmt : Stmt, ∃ write,
        (∀ width level, stmt.render width level =
          String.ofList (List.replicate (width * level) ' ') ++ write width level) ∧
        LaidOut write [] stmt.parts) ∧
      ∀ item : Item, ∃ write,
        (∀ width level, item.render width level =
          String.ofList (List.replicate (width * level) ' ') ++ write width level) ∧
        LaidOut write item.headings item.terms := by
  refine ⟨Term.laidOut, fun stmt => ⟨_, fun width level => ?_, stmt.laidOut⟩, Item.laidOut⟩
  rw [← margin]
  exact stmt.render_eq_layout (fun part _ => part.written) width level

/-- A choice with a record in one branch, whose field is a text over two lines. -/
def sampleLetter : Term :=
  .ifElse (.name "signed") (.record "Letter" [("body", .literal (.str "one\ntwo"))]) .todo

/-- The pieces are the same at two widths and levels, and the two lines of the text stand in one
of them. -/
theorem sampleLetter_is_laid_out :
    ∃ first below, sampleLetter.render 4 0 = Line.writeAll 4 0 first below ∧
      sampleLetter.render 2 3 = Line.writeAll 2 3 first below ∧
      ∃ piece ∈ first :: below.map Line.text, StandsIn "\"one\ntwo\"" piece := by
  obtain ⟨first, below, written, -, -, literals⟩ := texts_are_laid_out.1 sampleLetter
  have quoted : Literal.quoted "one\ntwo" = "\"one\ntwo\"" := by decide
  rw [← quoted]
  refine ⟨first, below, written 4 0, written 2 3, literals sampleLetter List.mem_cons_self _ ?_⟩
  have field : Term.literal (.str "one\ntwo") ∈
      (Term.record "Letter" [("body", .literal (.str "one\ntwo"))]).parts := List.mem_cons_self
  have branch : Term.record "Letter" [("body", .literal (.str "one\ntwo"))] ∈
      sampleLetter.parts := List.mem_cons_of_mem _ List.mem_cons_self
  exact .deeper branch (.deeper field .here)

-- The lines below start three to five levels in, and the second line of the text does not.
example : sampleLetter.render 2 3 =
    "if signed \x7b\n        Letter \x7b\n          body: \"one\ntwo\".to_string(),\n" ++
      "        \x7d\n      \x7d else \x7b\n        todo!()\n      \x7d" := by
  cbv

end SpecTranspiler

import SpecTranspiler.Proofs.Indentation
import SpecTranspiler.Proofs.NormalForm
import SpecTranspiler.Proofs.StringLiterals

/-!
# Lines that hold something

A text over several lines has no empty line, if each piece of its layout holds something and stands
in one line. `Layout.Filled` says this of a layout, and is closed under the ways in which layouts
are put together. So the lines of terms and items are filled, whatever the width of a level, where
every name holds something and no name, attribute or string literal holds a newline.
-/

namespace SpecTranspiler

/-- Every line of the text holds something. -/
def HasFilledLines (text : String) : Prop :=
  ∀ line ∈ text.toList.splitOn '\n', line ≠ []

/-- The text stands in one line. -/
def OneLine (text : String) : Prop :=
  '\n' ∉ text.toList

instance (text : String) : Decidable (OneLine text) :=
  inferInstanceAs (Decidable ('\n' ∉ text.toList))

namespace OneLine

variable {left right text : String} {texts : List String}

@[simp]
theorem append_iff : OneLine (left ++ right) ↔ OneLine left ∧ OneLine right := by
  rw [OneLine, String.toList_append, List.mem_append, not_or]
  rfl

theorem intercalate {separator : String} (between : OneLine separator)
    (each : ∀ text ∈ texts, OneLine text) : OneLine (String.intercalate separator texts) := by
  induction texts with
  | nil => exact List.not_mem_nil
  | cons text texts ih =>
      obtain ⟨here, others⟩ := List.forall_mem_cons.mp each
      cases texts with
      | nil => exact here
      | cons next texts =>
          rw [String.intercalate_cons_cons]
          exact append_iff.mpr ⟨append_iff.mpr ⟨here, between⟩, ih others⟩

/-- Texts with commas between them. -/
theorem listed (each : ∀ text ∈ texts, OneLine text) : OneLine (String.intercalate ", " texts) :=
  intercalate (by decide) each

theorem between {opening closing : String} (first : OneLine opening) (last : OneLine closing)
    (inner : OneLine text) : OneLine (opening ++ text ++ closing) :=
  append_iff.mpr ⟨append_iff.mpr ⟨first, inner⟩, last⟩

theorem margin (width level : Nat) : OneLine (margin width level) := by
  rw [OneLine, SpecTranspiler.margin, String.toList_ofList]
  intro member
  exact absurd (List.eq_of_mem_replicate member) (by decide)

theorem parenthesized (each : ∀ text ∈ texts, OneLine text) :
    OneLine (Ty.parenthesized texts) := by
  unfold Ty.parenthesized
  split
  · exact between (by decide) (by decide) (each _ List.mem_cons_self)
  · exact between (by decide) (by decide) (listed each)

theorem braced (each : ∀ text ∈ texts, OneLine text) : OneLine (Ty.braced texts) := by
  unfold Ty.braced
  split
  · decide
  · exact between (by decide) (by decide) (listed each)

end OneLine

/-- Lines with newlines between them are the lines of the text. -/
theorem HasFilledLines.of_lines {lines : List String} (some : lines ≠ [])
    (each : ∀ line ∈ lines, line ≠ "" ∧ OneLine line) :
    HasFilledLines (String.intercalate "\n" lines) := by
  have separator : "\n".toList = ['\n'] := rfl
  have split : (String.intercalate "\n" lines).toList.splitOn '\n' = lines.map String.toList := by
    rw [String.toList_intercalate, separator]
    refine List.splitOn_intercalate '\n' (List.forall_mem_map.mpr ?_) (by simpa using some)
    exact fun line member => (each line member).2
  rw [HasFilledLines, split]
  refine List.forall_mem_map.mpr fun line member empty => (each line member).1 ?_
  exact String.toList_eq_nil_iff.mp empty

namespace Ty

/-- The names that a type holds itself. -/
def labels : Ty → List String
  | .record fields => fields.map Prod.fst
  | .named name => [name]
  | _ => []

/-- The names in a type. -/
def names (ty : Ty) : List String :=
  ty.labels ++ ty.parts.attach.flatMap fun part => part.1.names
termination_by sizeOf ty
decreasing_by exact sizeOf_lt_of_mem_parts part.2

theorem names_eq (ty : Ty) : ty.names = ty.labels ++ ty.parts.flatMap names := by
  rw [names, List.flatMap_subtype, List.unattach_attach]
  exact fun part direct => rfl

/-- The text of a type whose names hold no newline stands in one line. -/
theorem oneLine_render (ty : Ty) (plain : ∀ name ∈ ty.names, OneLine name) :
    OneLine ty.render := by
  induction ty using partsInduction with
  | _ ty below =>
  rw [names_eq, List.forall_mem_append, List.forall_mem_flatMap] at plain
  obtain ⟨own, inside⟩ := plain
  have each : ∀ part ∈ ty.parts, OneLine part.render :=
    fun part direct => below part direct (inside part direct)
  cases ty with
  | str | uint64 | bool => decide
  | named name => exact own name List.mem_cons_self
  | record fields =>
      rw [render, renderFields_eq_map]
      refine .braced (List.forall_mem_map.mpr fun field member => ?_)
      have label := own field.1 (List.mem_map_of_mem member)
      have ty := each field.2 (List.mem_map_of_mem member)
      exact OneLine.append_iff.mpr ⟨.between (by decide) (by decide) label, ty⟩
  | tuple elements =>
      rw [render, renderAll_eq_map]
      exact .parenthesized (List.forall_mem_map.mpr each)
  | list element | set element =>
      exact .between (by decide) (by decide) (each element List.mem_cons_self)
  | map key value =>
      have first := each key List.mem_cons_self
      have second := each value (List.mem_cons_of_mem _ List.mem_cons_self)
      rw [render, OneLine.append_iff, OneLine.append_iff]
      exact ⟨⟨.between (by decide) (by decide) first, second⟩, by decide⟩
  | ref inner mutable =>
      have part := each inner List.mem_cons_self
      cases mutable with
      | true => exact OneLine.append_iff.mpr ⟨by decide, part⟩
      | false => exact OneLine.append_iff.mpr ⟨by decide, part⟩

theorem oneLine_renderAll {types : List Ty}
    (plain : ∀ ty ∈ types, ∀ name ∈ ty.names, OneLine name) :
    ∀ text ∈ renderAll types, OneLine text := by
  rw [renderAll_eq_map]
  exact List.forall_mem_map.mpr fun ty member => ty.oneLine_render (plain ty member)

theorem oneLine_renderTypeArgs {types : List Ty}
    (plain : ∀ ty ∈ types, ∀ name ∈ ty.names, OneLine name) : OneLine (renderTypeArgs types) := by
  unfold renderTypeArgs
  split
  · decide
  · exact .between (by decide) (by decide) (.listed (oneLine_renderAll plain))

theorem oneLine_renderPath (ty : Ty) (plain : ∀ name ∈ ty.names, OneLine name) :
    OneLine ty.renderPath := by
  have whole := ty.oneLine_render plain
  cases ty with
  | set element =>
      rw [render, OneLine.append_iff, OneLine.append_iff] at whole
      exact .between (by decide) (by decide) whole.1.2
  | map key value =>
      simp only [render, OneLine.append_iff] at whole
      obtain ⟨⟨⟨⟨-, first⟩, -⟩, second⟩, -⟩ := whole
      rw [renderPath, OneLine.append_iff, OneLine.append_iff]
      exact ⟨⟨.between (by decide) (by decide) first, second⟩, by decide⟩
  | _ => exact .between (by decide) (by decide) whole

theorem renderPath_ne_empty (ty : Ty) : ty.renderPath ≠ "" := by
  have closes (front : String) : front ++ ">" ≠ "" := fun empty =>
    absurd (String.append_eq_empty_iff.mp empty).2 (by decide)
  cases ty <;> exact closes _

end Ty

theorem Line.writeAll_eq_intercalate (width level : Nat) (first : String) (below : List Line) :
    Line.writeAll width level first below = String.intercalate "\n"
      (first :: below.map fun line => margin width (level + line.depth) ++ line.text) := by
  induction below generalizing first with
  | nil => simp [writeAll]
  | cons line below ih =>
      rw [List.map_cons, String.intercalate_cons_cons, ← ih, writeAll_cons]
      simp only [writeAll, String.append_assoc]

/-- Pieces that can stand behind other text: each of them stands in one line, and those below the
first one hold something. -/
structure Line.Unbroken (first : String) (below : List Line) : Prop where
  oneLine : ∀ piece ∈ first :: below.map Line.text, OneLine piece
  filled : ∀ line ∈ below, line.text ≠ ""

namespace Line.Unbroken

variable {first text : String} {below lines : List Line}

theorem single (plain : OneLine text) : Unbroken text [] :=
  ⟨List.forall_mem_singleton.mpr plain, List.forall_mem_nil _⟩

theorem cons {line : Line} (plain : OneLine first) (held : line.text ≠ "")
    (rest : Unbroken line.text below) : Unbroken first (line :: below) :=
  ⟨List.forall_mem_cons.mpr ⟨plain, rest.oneLine⟩, List.forall_mem_cons.mpr ⟨held, rest.filled⟩⟩

theorem glue (left : Unbroken first below) (right : Unbroken text lines) :
    Unbroken (glue text lines first below).1 (glue text lines first below).2 := by
  induction below generalizing first with
  | nil =>
      obtain ⟨continued, others⟩ := List.forall_mem_cons.mp right.oneLine
      have joined : OneLine (first ++ text) :=
        OneLine.append_iff.mpr ⟨left.oneLine first List.mem_cons_self, continued⟩
      exact ⟨List.forall_mem_cons.mpr ⟨joined, others⟩, right.filled⟩
  | cons line below ih =>
      obtain ⟨plain, others⟩ := List.forall_mem_cons.mp left.oneLine
      obtain ⟨held, further⟩ := List.forall_mem_cons.mp left.filled
      refine cons plain ?_ (ih ⟨others, further⟩)
      obtain ⟨more, glued⟩ := @glue_first text line.text lines below
      rw [glued]
      exact fun empty => held (String.append_eq_empty_iff.mp empty).1

theorem stack_first_ne (held : first ≠ "") {texts : List String}
    (above : ∀ text ∈ texts, text ≠ "" ∧ OneLine text) : (stack first below texts).1 ≠ "" := by
  rcases List.mem_append.mp (@stack_first first below texts) with member | member
  · exact (above _ member).1
  · rwa [List.mem_singleton.mp member]

theorem stack (held : first ≠ "") (unbroken : Unbroken first below) {texts : List String}
    (above : ∀ text ∈ texts, text ≠ "" ∧ OneLine text) :
    Unbroken (stack first below texts).1 (stack first below texts).2 := by
  induction texts with
  | nil => exact unbroken
  | cons text texts ih =>
      obtain ⟨here, others⟩ := List.forall_mem_cons.mp above
      exact cons here.2 (stack_first_ne held others) (ih others)

/-- Pieces that hold something are written as lines that hold something. -/
theorem hasFilledLines (held : first ≠ "") (unbroken : Unbroken first below) (width level : Nat) :
    HasFilledLines (writeAll width level first below) := by
  obtain ⟨plain, others⟩ := List.forall_mem_cons.mp unbroken.oneLine
  rw [writeAll_eq_intercalate]
  refine .of_lines (List.cons_ne_nil _ _) (List.forall_mem_cons.mpr ⟨⟨held, plain⟩, ?_⟩)
  refine List.forall_mem_map.mpr fun line member => ⟨fun empty => ?_, ?_⟩
  · exact unbroken.filled line member (String.append_eq_empty_iff.mp empty).2
  · exact OneLine.append_iff.mpr ⟨.margin _ _, others _ (List.mem_map_of_mem member)⟩

end Line.Unbroken

namespace Layout

/-- The text can stand behind other text without a blank line. -/
def Unbroken (layout : Layout) : Prop :=
  Line.Unbroken layout.first layout.below

/-- The text can stand on lines of its own without a blank line. -/
structure Filled (layout : Layout) : Prop where
  first : layout.first ≠ ""
  unbroken : layout.Unbroken

variable {left right layout : Layout} {layouts : List Layout} {text : String}

theorem Unbroken.ofText (plain : OneLine text) : (ofText text).Unbroken :=
  .single plain

theorem Unbroken.append (first : left.Unbroken) (second : right.Unbroken) :
    (left ++ right).Unbroken :=
  .glue first second

namespace Filled

theorem ofText (text : String) (held : text ≠ "" := by decide)
    (plain : OneLine text := by decide) : (ofText text).Filled :=
  ⟨held, .ofText plain⟩

theorem append (first : left.Filled) (second : right.Unbroken) : (left ++ right).Filled := by
  refine ⟨?_, first.unbroken.append second⟩
  obtain ⟨more, glued⟩ := @Line.glue_first right.first left.first right.below left.below
  change (Line.glue right.first right.below left.first left.below).1 ≠ ""
  rw [glued]
  exact fun empty => first.first (String.append_eq_empty_iff.mp empty).1

theorem indented (filled : layout.Filled) :
    ∀ line ∈ layout.indented, line.text ≠ "" ∧ OneLine line.text := by
  obtain ⟨plain, others⟩ := List.forall_mem_cons.mp filled.unbroken.oneLine
  refine List.forall_mem_cons.mpr ⟨⟨filled.first, plain⟩, List.forall_mem_map.mpr ?_⟩
  exact fun line member => ⟨filled.unbroken.filled line member,
    others line.text (List.mem_map_of_mem member)⟩

theorem enclosed (each : ∀ layout ∈ layouts, layout.Filled) : (enclosed layouts).Filled := by
  have opening : "\x7b" ≠ "" ∧ OneLine "\x7b" := by decide
  have below : ∀ line ∈ (Layout.enclosed layouts).below, line.text ≠ "" ∧ OneLine line.text := by
    refine List.forall_mem_append.mpr ⟨?_, List.forall_mem_singleton.mpr (by decide)⟩
    exact List.forall_mem_flatMap.mpr fun layout member => (each layout member).indented
  refine ⟨opening.1, ⟨?_, fun line member => (below line member).1⟩⟩
  refine List.forall_mem_cons.mpr ⟨opening.2, List.forall_mem_map.mpr ?_⟩
  exact fun line member => (below line member).2

theorem braced (each : ∀ layout ∈ layouts, layout.Filled) : (braced layouts).Filled := by
  cases layouts with
  | nil => exact .ofText "\x7b\x7d"
  | cons layout layouts => exact enclosed each

theorem followedBy (filled : left.Filled) (text : String) (plain : OneLine text := by decide) :
    (left ++ Layout.ofText text).Filled :=
  filled.append (.ofText plain)

theorem parenthesize (needed : Bool) (filled : layout.Filled) :
    (parenthesize needed layout).Filled := by
  cases needed with
  | false => exact filled
  | true => exact ((ofText "(").append filled.unbroken).followedBy ")"

end Filled

theorem Unbroken.intercalate {separator : String} (between : OneLine separator)
    (each : ∀ layout ∈ layouts, layout.Unbroken) : (intercalate separator layouts).Unbroken := by
  induction layouts with
  | nil => exact .ofText (by decide)
  | cons layout layouts ih =>
      obtain ⟨here, others⟩ := List.forall_mem_cons.mp each
      cases layouts with
      | nil => exact here
      | cons next rest => exact (here.append (.ofText between)).append (ih others)

theorem Filled.parenthesized (each : ∀ layout ∈ layouts, layout.Filled) :
    (parenthesized layouts).Filled := by
  have inside : ∀ layout ∈ layouts, layout.Unbroken := fun layout member =>
    (each layout member).unbroken
  match layouts with
  | [layout] => exact ((ofText "(").append (inside layout List.mem_cons_self)).followedBy ",)"
  | [] | _ :: _ :: _ =>
      exact ((ofText "(").append (.intercalate (by decide) inside)).followedBy ")"

end Layout

namespace Term

/-- What a term and the terms inside it hold. -/
def collect {α : Type} (own : Term → List α) (term : Term) : List α :=
  own term ++ term.parts.attach.flatMap fun part => part.1.collect own
termination_by sizeOf term
decreasing_by exact sizeOf_lt_of_mem_parts part.2

theorem collect_eq {α : Type} (own : Term → List α) (term : Term) :
    term.collect own = own term ++ term.parts.flatMap (collect own) := by
  rw [collect, List.flatMap_subtype, List.unattach_attach]
  exact fun part direct => rfl

/-- The names that a term holds itself. -/
def labels : Term → List String
  | .name label | .field _ label | .bind label _ _ => [label]
  | .record ty fields => ty :: fields.map Prod.fst
  | .variant enum label _ => [enum, label]
  | .call function _ _ => [function]
  | .typeCall _ method _ _ | .methodCall _ method _ _ => [method]
  | _ => []

/-- The text of a string literal. -/
def literalText : Term → List String
  | .literal (.str text) => [text]
  | _ => []

/-- The names in a term, those in its types included. -/
def names (term : Term) : List String :=
  term.collect fun inner => inner.labels ++ inner.types.flatMap Ty.names

/-- The texts of the string literals in a term. -/
def strings (term : Term) : List String :=
  term.collect literalText

/-- The names in a term hold something, and neither a name nor a string literal in it holds a
newline. -/
structure HasPlainTexts (term : Term) : Prop where
  names : ∀ name ∈ term.names, name ≠ "" ∧ OneLine name
  strings : ∀ text ∈ term.strings, OneLine text

namespace HasPlainTexts

variable {term part : Term}

theorem label (plain : term.HasPlainTexts) : ∀ name ∈ term.labels, name ≠ "" ∧ OneLine name := by
  intro name member
  refine plain.names name ?_
  rw [Term.names, collect_eq]
  exact List.mem_append_left _ (List.mem_append_left _ member)

theorem types (plain : term.HasPlainTexts) :
    ∀ ty ∈ term.types, ∀ name ∈ ty.names, OneLine name := by
  intro ty named name member
  refine (plain.names name ?_).2
  rw [Term.names, collect_eq]
  refine List.mem_append_left _ (List.mem_append_right _ ?_)
  exact List.mem_flatMap.mpr ⟨ty, named, member⟩

theorem literal {text : String} (plain : (Term.literal (.str text)).HasPlainTexts) :
    OneLine text := by
  refine plain.strings text ?_
  rw [Term.strings, collect_eq]
  exact List.mem_cons_self

theorem below (plain : term.HasPlainTexts) (direct : part ∈ term.parts) : part.HasPlainTexts := by
  refine ⟨fun name member => plain.names name ?_, fun text member => plain.strings text ?_⟩
  · rw [Term.names, collect_eq]
    exact List.mem_append_right _ (List.mem_flatMap.mpr ⟨part, direct, member⟩)
  · rw [Term.strings, collect_eq]
    exact List.mem_append_right _ (List.mem_flatMap.mpr ⟨part, direct, member⟩)

end HasPlainTexts

end Term

theorem Literal.newline_mem_escapeLiteral {text : List Char}
    (held : '\n' ∈ escapeLiteral text) : '\n' ∈ text := by
  rw [escapeLiteral_eq_flatMap] at held
  obtain ⟨c, member, written⟩ := List.mem_flatMap.mp held
  rw [escapeChar] at written
  split at written
  · next special => rcases special with rfl | rfl <;> simp at written
  · rwa [List.mem_singleton.mp written]

/-- A literal can stand on a line of its own, if it is no text with a newline in it. -/
theorem Literal.filled_render {value : Literal}
    (plain : ∀ text, value = .str text → OneLine text) :
    (Layout.ofText value.render).Filled := by
  cases value with
  | uint64 value =>
      have digits : OneLine (toString value.toNat) := fun member =>
        absurd (isDigit_of_mem_toString member) (by decide)
      refine .ofText _ (fun empty => ?_) (OneLine.append_iff.mpr ⟨digits, by decide⟩)
      exact absurd (String.append_eq_empty_iff.mp empty).2 (by decide)
  | str text =>
      have content : OneLine (String.ofList (escapeLiteral text.toList)) := by
        rw [OneLine, String.toList_ofList]
        exact fun member => plain text rfl (newline_mem_escapeLiteral member)
      refine .ofText _ (fun empty => ?_) (.between (by decide) (by decide) content)
      exact absurd (String.append_eq_empty_iff.mp empty).2 (by decide)
  | bool value => cases value <;> exact .ofText _

theorem Stmt.filled_layout {stmt : Stmt} (each : ∀ part ∈ stmt.parts, part.layout.Filled) :
    stmt.layout.Filled := by
  cases stmt with
  | assign target value =>
      have left := each target List.mem_cons_self
      have right := each value (List.mem_cons_of_mem _ List.mem_cons_self)
      exact ((left.followedBy " = ").append right.unbroken).followedBy ";"
  | ret value =>
      have inner := each value List.mem_cons_self
      exact ((Layout.Filled.ofText "return ").append inner.unbroken).followedBy ";"

theorem Stmt.filled_layouts {body : List Stmt}
    (each : ∀ part ∈ body.flatMap Stmt.parts, part.layout.Filled) :
    ∀ layout ∈ Stmt.layouts body, layout.Filled := by
  rw [layouts_eq_map]
  refine List.forall_mem_map.mpr fun stmt member => stmt.filled_layout fun part direct => ?_
  exact each part (List.mem_flatMap.mpr ⟨stmt, member, direct⟩)

namespace Term

theorem filled_layouts {terms : List Term} (each : ∀ term ∈ terms, term.layout.Filled) :
    ∀ layout ∈ layouts terms, layout.Filled := by
  rw [layouts_eq_map]
  exact List.forall_mem_map.mpr each

/-- What is called is followed by its types and the terms it is given. -/
theorem filled_applied {layout : Layout} {types : List Ty} {args : List Term}
    (called : layout.Filled) (named : ∀ ty ∈ types, ∀ name ∈ ty.names, OneLine name)
    (each : ∀ arg ∈ args, arg.layout.Filled) :
    (layout ++ Ty.renderTypeArgs types ++ "(" ++ Layout.intercalate ", " (layouts args) ++
      ")").Filled := by
  have typed := called.followedBy (Ty.renderTypeArgs types) (Ty.oneLine_renderTypeArgs named)
  have listed : (Layout.intercalate ", " (layouts args)).Unbroken :=
    .intercalate (by decide) fun layout member => (filled_layouts each layout member).unbroken
  exact ((typed.followedBy "(").append listed).followedBy ")"

/-- The lines of a term hold something, if its names do and its texts are plain. -/
theorem filled_layout (term : Term) (plain : term.HasPlainTexts) : term.layout.Filled := by
  induction term using partsInduction with
  | _ term below =>
  have each : ∀ part ∈ term.parts, part.layout.Filled := fun part direct =>
    below part direct (plain.below direct)
  have label {text : String} (member : text ∈ term.labels) : (Layout.ofText text).Filled :=
    .ofText text (plain.label text member).1 (plain.label text member).2
  cases term with
  | literal value => exact Literal.filled_render fun text same => (same ▸ plain).literal
  | name text => exact label List.mem_cons_self
  | field base text =>
      have inner := (each base List.mem_cons_self).parenthesize base.isCompound
      exact (inner.followedBy ".").append (label List.mem_cons_self).unbroken
  | record ty fields =>
      have lines : ∀ layout ∈ fieldLayouts fields, layout.Filled := by
        rw [fieldLayouts_eq_map]
        refine List.forall_mem_map.mpr fun field member => ?_
        have name := label (List.mem_cons_of_mem _ (List.mem_map_of_mem member))
        have value := each field.2 (List.mem_map_of_mem member)
        exact ((name.followedBy ": ").append value.unbroken).followedBy ","
      exact ((label List.mem_cons_self).followedBy " ").append (Layout.Filled.braced lines).unbroken
  | variant enum text args =>
      have path := ((label List.mem_cons_self).followedBy "::").append
        (label (List.mem_cons_of_mem _ List.mem_cons_self)).unbroken
      cases args with
      | nil => exact path
      | cons arg args =>
          have listed := fun layout member => (filled_layouts each layout member).unbroken
          exact ((path.followedBy "(").append (.intercalate (by decide) listed)).followedBy ")"
  | tuple elements => exact .parenthesized (filled_layouts each)
  | borrow operand =>
      have inner := (each operand List.mem_cons_self).parenthesize operand.isCompound
      exact (Layout.Filled.ofText "&").append inner.unbroken
  | negate operand =>
      have inner := (each operand List.mem_cons_self).parenthesize operand.isCompound
      exact (Layout.Filled.ofText "!").append inner.unbroken
  | call function types args =>
      exact filled_applied (label List.mem_cons_self) plain.types each
  | typeCall ty method types args =>
      obtain ⟨owner, others⟩ := List.forall_mem_cons.mp plain.types
      have path := Layout.Filled.ofText _ ty.renderPath_ne_empty (ty.oneLine_renderPath owner)
      have called := (path.followedBy "::").append (label List.mem_cons_self).unbroken
      exact filled_applied called others each
  | methodCall receiver method types args =>
      obtain ⟨inner, others⟩ := List.forall_mem_cons.mp each
      have path := (inner.parenthesize receiver.isCompound).followedBy "."
      exact filled_applied (path.append (label List.mem_cons_self).unbroken) plain.types others
  | ifElse condition yes no =>
      have test := each condition List.mem_cons_self
      have first := each yes (List.mem_cons_of_mem _ List.mem_cons_self)
      have second := each no (List.mem_cons_of_mem _ (List.mem_cons_of_mem _ List.mem_cons_self))
      have whenTrue := Layout.Filled.braced (List.forall_mem_singleton.mpr first)
      have whenFalse := Layout.Filled.braced (List.forall_mem_singleton.mpr second)
      have start := ((Layout.Filled.ofText "if ").append test.unbroken).followedBy " "
      exact ((start.append whenTrue.unbroken).followedBy " else ").append whenFalse.unbroken
  | add left right =>
      have first := (each left List.mem_cons_self).parenthesize left.isBraced
      have last := each right (List.mem_cons_of_mem _ List.mem_cons_self)
      exact (first.followedBy " + ").append (last.parenthesize right.isBraced).unbroken
  | bind text value body =>
      obtain ⟨bound, rest⟩ := List.forall_mem_cons.mp each
      have start := (Layout.Filled.ofText "let ").append (label List.mem_cons_self).unbroken
      have line := ((start.followedBy " = ").append bound.unbroken).followedBy ";"
      refine .braced (List.forall_mem_cons.mpr ⟨line, List.forall_mem_singleton.mpr ?_⟩)
      exact rest body List.mem_cons_self
  | block body => exact .braced (Stmt.filled_layouts each)
  | todo => exact .ofText "todo!()"

end Term

namespace Item

/-- The names that an item holds itself. -/
def labels : Item → List String
  | .struct name fields _ => name :: fields.map Prod.fst
  | .function name params _ _ _ => name :: params.map Param.name
  | .const name .. | .val name .. | .synonym name .. => [name]

/-- The names in an item, those in its types and terms included. -/
def names (item : Item) : List String :=
  item.labels ++ item.types.flatMap Ty.names ++ item.terms.flatMap Term.names

/-- The texts of the string literals in an item. -/
def strings (item : Item) : List String :=
  item.terms.flatMap Term.strings

/-- The names in an item hold something, and no name, attribute or string literal in it holds a
newline. -/
structure HasPlainTexts (item : Item) : Prop where
  names : ∀ name ∈ item.names, name ≠ "" ∧ OneLine name
  attributes : ∀ text ∈ item.attributes, OneLine text
  strings : ∀ text ∈ item.strings, OneLine text

namespace HasPlainTexts

variable {item : Item}

theorem label (plain : item.HasPlainTexts) : ∀ name ∈ item.labels, name ≠ "" ∧ OneLine name :=
  fun name member => plain.names name (List.mem_append_left _ (List.mem_append_left _ member))

theorem type (plain : item.HasPlainTexts) : ∀ ty ∈ item.types, OneLine ty.render := by
  intro ty declared
  refine ty.oneLine_render fun name member => (plain.names name ?_).2
  refine List.mem_append_left _ (List.mem_append_right _ ?_)
  exact List.mem_flatMap.mpr ⟨ty, declared, member⟩

theorem term (plain : item.HasPlainTexts) : ∀ term ∈ item.terms, term.HasPlainTexts := by
  intro term direct
  refine ⟨fun name member => plain.names name ?_, fun text member => plain.strings text ?_⟩
  · exact List.mem_append_right _ (List.mem_flatMap.mpr ⟨term, direct, member⟩)
  · exact List.mem_flatMap.mpr ⟨term, direct, member⟩

end HasPlainTexts

/-- An item with plain texts is laid out in lines that hold something. -/
theorem filled_layout {item : Item} (plain : item.HasPlainTexts) : item.layout.Filled := by
  have each : ∀ term ∈ item.terms, term.layout.Filled := fun term direct =>
    term.filled_layout (plain.term term direct)
  have label {text : String} (member : text ∈ item.labels) : (Layout.ofText text).Unbroken :=
    .ofText (plain.label text member).2
  cases item with
  | struct name fields attributes =>
      have start := (Layout.Filled.ofText "pub struct ").append (label List.mem_cons_self)
      have lines : ∀ layout ∈ fields.map fun field =>
          Layout.ofText ("pub " ++ field.1 ++ ": " ++ field.2.render ++ ","), layout.Filled := by
        refine List.forall_mem_map.mpr fun field member => ?_
        have name := label (List.mem_cons_of_mem _ (List.mem_map_of_mem member))
        have ty := plain.type field.2 (List.mem_map_of_mem member)
        have line := ((Layout.Filled.ofText "pub ").append name).followedBy ": "
        exact (line.followedBy field.2.render ty).followedBy ","
      exact (start.followedBy " ").append (Layout.Filled.braced lines).unbroken
  | function name params result body attributes =>
      have listed : OneLine (String.intercalate ", " (params.map Param.render)) := by
        refine .listed (List.forall_mem_map.mpr fun param member => ?_)
        have name := plain.label param.name (List.mem_cons_of_mem _ (List.mem_map_of_mem member))
        have ty := plain.type param.ty (List.mem_append_left _ (List.mem_map_of_mem member))
        have modifier : OneLine (if param.mutable then "mut " else "") := by
          split <;> decide
        simp only [Param.render, OneLine.append_iff]
        exact ⟨⟨⟨modifier, name.2⟩, by decide⟩, ty⟩
      have ty := plain.type result (List.mem_append_right _ List.mem_cons_self)
      have start := (Layout.Filled.ofText "pub fn ").append (label List.mem_cons_self)
      have head := ((start.followedBy "(").followedBy _ listed).followedBy ") -> "
      have body := Layout.Filled.enclosed (Stmt.filled_layouts each)
      exact ((head.followedBy result.render ty).followedBy " ").append body.unbroken
  | const name ty value =>
      have start := (Layout.Filled.ofText "pub const ").append (label List.mem_cons_self)
      have typed := (start.followedBy ": ").followedBy ty.render (plain.type ty List.mem_cons_self)
      have held := each value List.mem_cons_self
      exact ((typed.followedBy " = ").append held.unbroken).followedBy ";"
  | val name value =>
      have start := (Layout.Filled.ofText "let ").append (label List.mem_cons_self)
      have held := each value List.mem_cons_self
      exact ((start.followedBy " = ").append held.unbroken).followedBy ";"
  | synonym name ty =>
      have start := (Layout.Filled.ofText "pub type ").append (label List.mem_cons_self)
      have typed := (start.followedBy " = ").followedBy ty.render (plain.type ty List.mem_cons_self)
      exact typed.followedBy ";"

/-- The lines of an item hold something, those of its attributes included. -/
theorem hasFilledLines {item : Item} (plain : item.HasPlainTexts) (width : Nat) :
    HasFilledLines (item.render width 0) := by
  have filled := filled_layout plain
  have above : ∀ text ∈ item.attributes.map attributeLine, text ≠ "" ∧ OneLine text := by
    refine List.forall_mem_map.mpr fun text member => ⟨fun empty => ?_, ?_⟩
    · exact absurd (String.append_eq_empty_iff.mp empty).2 (by decide)
    · exact .between (by decide) (by decide) (plain.attributes text member)
  have written : item.render width 0 = Line.writeAll width 0
      (Line.stack item.layout.first item.layout.below (item.attributes.map attributeLine)).1
      (Line.stack item.layout.first item.layout.below (item.attributes.map attributeLine)).2 := by
    have outermost : margin width 0 = "" := rfl
    have laid := writeAll_attributes item.layout.first item.layout.below width 0 item.attributes
    rw [item.render_eq_layout, Layout.render, ← laid, outermost, String.empty_append]
  rw [written]
  have unbroken := filled.unbroken.stack filled.first above
  exact unbroken.hasFilledLines (Line.Unbroken.stack_first_ne filled.first above) width 0

end Item

end SpecTranspiler

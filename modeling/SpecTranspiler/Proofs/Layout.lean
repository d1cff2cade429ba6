import SpecTranspiler.Target.Render

/-!
# Layouts

A text over several lines is laid out in pieces: what stands in its first line, and for every line
below how many levels further in it starts and what stands in it. `Layout` holds the pieces of a
text whose lines at the outermost level close a brace. Layouts are put together as texts are:
written at any width and level, a layout built from others is the text built from theirs.
-/

namespace SpecTranspiler

/-- A line of a text: how many levels further in it starts, and what stands in it. -/
structure Line where
  depth : Nat
  text : String

/-- The text starts with a closing brace. -/
def StartsClosing (text : String) : Prop :=
  ∃ rest, text = "\x7d" ++ rest

/-- The text stands inside another one. -/
def StandsIn (part whole : String) : Prop :=
  ∃ before after, whole = before ++ part ++ after

theorem StandsIn.trans {part middle whole : String} (inner : StandsIn part middle)
    (outer : StandsIn middle whole) : StandsIn part whole := by
  obtain ⟨before, after, rfl⟩ := inner
  obtain ⟨first, last, rfl⟩ := outer
  exact ⟨first ++ before, after ++ last, by simp only [String.append_assoc]⟩

theorem StandsIn.refl (text : String) : StandsIn text text :=
  ⟨"", "", by simp⟩

theorem StandsIn.appendLeft {part whole : String} (inside : StandsIn part whole) (after : String) :
    StandsIn part (whole ++ after) :=
  inside.trans ⟨"", after, by simp⟩

theorem StandsIn.appendRight {part whole : String} (inside : StandsIn part whole)
    (before : String) : StandsIn part (before ++ whole) :=
  inside.trans ⟨before, "", by simp⟩

namespace Line

/-- A line with the newline and the spaces in front of it: as many for each level as the width. -/
def write (width level : Nat) (line : Line) : String :=
  "\n" ++ String.ofList (List.replicate (width * (level + line.depth)) ' ') ++ line.text

/-- The text of pieces: the first one, then every line below. -/
def writeAll (width level : Nat) (first : String) (below : List Line) : String :=
  first ++ String.join (below.map (write width level))

/-- The pieces of a text followed by another one: the last piece of the first text and the first
piece of the second one stand in one line. -/
def glue (text : String) (lines : List Line) : String → List Line → String × List Line
  | first, [] => (first ++ text, lines)
  | first, line :: below =>
      let rest := glue text lines line.text below
      (first, ⟨line.depth, rest.1⟩ :: rest.2)

variable {text first : String} {lines below : List Line}

/-- The spaces in front of a line are the margin at its level. -/
theorem write_eq_margin (width level : Nat) (line : Line) :
    line.write width level = "\n" ++ margin width (level + line.depth) ++ line.text := by
  rw [write, margin]

theorem writeAll_cons (width level : Nat) (first : String) (line : Line) (below : List Line) :
    writeAll width level first (line :: below) =
      first ++ ("\n" ++ margin width (level + line.depth) ++
        writeAll width level line.text below) := by
  simp only [writeAll, write_eq_margin, List.map_cons, String.join_cons, String.append_assoc]

theorem writeAll_glue (width level : Nat) :
    writeAll width level (glue text lines first below).1 (glue text lines first below).2 =
      writeAll width level first below ++ writeAll width level text lines := by
  induction below generalizing first with
  | nil => simp only [glue, writeAll, List.map_nil, String.join_nil, String.append_assoc,
      String.append_empty]
  | cons line below ih => simp only [glue, writeAll_cons, ih, String.append_assoc]

theorem glue_first : ∃ more, (glue text lines first below).1 = first ++ more := by
  cases below with
  | nil => exact ⟨text, rfl⟩
  | cons line below => exact ⟨"", String.append_empty.symm⟩

theorem startsClosing_glue (left : ∀ line ∈ below, line.depth = 0 → StartsClosing line.text)
    (right : ∀ line ∈ lines, line.depth = 0 → StartsClosing line.text) :
    ∀ line ∈ (glue text lines first below).2, line.depth = 0 → StartsClosing line.text := by
  induction below generalizing first with
  | nil => exact right
  | cons line below ih =>
      obtain ⟨here, others⟩ := List.forall_mem_cons.mp left
      refine List.forall_mem_cons.mpr ⟨?_, ih others⟩
      intro outermost
      obtain ⟨rest, starts⟩ := here outermost
      obtain ⟨more, glued⟩ := @glue_first text line.text lines below
      exact ⟨rest ++ more, by rw [glued, starts, String.append_assoc]⟩

theorem lastDepth_glue {depth : Nat} (left : (below.map Line.depth).getLastD depth = 0)
    (right : (lines.map Line.depth).getLastD 0 = 0) :
    ((glue text lines first below).2.map Line.depth).getLastD depth = 0 := by
  induction below generalizing first depth with
  | nil =>
      obtain rfl : depth = 0 := left
      exact right
  | cons line below ih =>
      rw [List.map_cons, List.getLastD_cons] at left
      rw [glue, List.map_cons, List.getLastD_cons]
      exact ih left

theorem standsIn_glue_left {piece : String} (member : piece ∈ first :: below.map Line.text) :
    ∃ whole ∈ (glue text lines first below).1 :: (glue text lines first below).2.map Line.text,
      StandsIn piece whole := by
  induction below generalizing first with
  | nil =>
      obtain rfl := List.mem_singleton.mp member
      exact ⟨_, List.mem_cons_self, (StandsIn.refl piece).appendLeft text⟩
  | cons line below ih =>
      rcases List.mem_cons.mp member with rfl | further
      · exact ⟨piece, List.mem_cons_self, .refl piece⟩
      · obtain ⟨whole, found, stands⟩ := ih further
        exact ⟨whole, List.mem_cons_of_mem _ found, stands⟩

theorem standsIn_glue_right {piece : String} (member : piece ∈ text :: lines.map Line.text) :
    ∃ whole ∈ (glue text lines first below).1 :: (glue text lines first below).2.map Line.text,
      StandsIn piece whole := by
  induction below generalizing first with
  | nil =>
      rcases List.mem_cons.mp member with rfl | further
      · exact ⟨_, List.mem_cons_self, (StandsIn.refl piece).appendRight first⟩
      · exact ⟨piece, List.mem_cons_of_mem _ further, .refl piece⟩
  | cons line below ih =>
      obtain ⟨whole, found, stands⟩ := @ih line.text
      exact ⟨whole, List.mem_cons_of_mem _ found, stands⟩

/-- The pieces of a text below lines that start where it starts. -/
def stack (first : String) (below : List Line) : List String → String × List Line
  | [] => (first, below)
  | text :: texts =>
      let rest := stack first below texts
      (text, ⟨0, rest.1⟩ :: rest.2)

theorem stack_first (texts : List String) : (stack first below texts).1 ∈ texts ++ [first] := by
  cases texts with
  | nil => exact List.mem_cons_self
  | cons text texts => exact List.mem_cons_self

theorem startsClosing_stack (closing : ∀ line ∈ below, line.depth = 0 → StartsClosing line.text)
    (texts : List String) :
    ∀ line ∈ (stack first below texts).2, line.depth = 0 →
      line.text ∈ texts ++ [first] ∨ StartsClosing line.text := by
  induction texts with
  | nil => exact fun line member outermost => .inr (closing line member outermost)
  | cons text texts ih =>
      refine List.forall_mem_cons.mpr ⟨fun _ => ?_, fun line member outermost => ?_⟩
      · exact .inl (List.mem_cons_of_mem _ (stack_first texts))
      · exact (ih line member outermost).imp_left (List.mem_cons_of_mem _)

theorem lastDepth_stack (ends : (below.map Line.depth).getLastD 0 = 0) (texts : List String) :
    ((stack first below texts).2.map Line.depth).getLastD 0 = 0 := by
  induction texts with
  | nil => exact ends
  | cons text texts ih =>
      rw [stack, List.map_cons, List.getLastD_cons]
      exact ih

theorem mem_stack {piece : String} (member : piece ∈ first :: below.map Line.text)
    (texts : List String) :
    piece ∈ (stack first below texts).1 :: (stack first below texts).2.map Line.text := by
  induction texts with
  | nil => exact member
  | cons text texts ih => exact List.mem_cons_of_mem _ ih

end Line

/-- The pieces of a text over several lines. A line that starts no further in than the text closes
a brace, and the last line is such a line. -/
structure Layout where
  first : String
  below : List Line
  closing : ∀ line ∈ below, line.depth = 0 → StartsClosing line.text
  ends : (below.map Line.depth).getLastD 0 = 0

namespace Layout

/-- The text that is laid out from a level. -/
def render (width level : Nat) (layout : Layout) : String :=
  Line.writeAll width level layout.first layout.below

/-- What stands in the lines. -/
def pieces (layout : Layout) : List String :=
  layout.first :: layout.below.map Line.text

/-- A text without structure is a single piece. -/
def ofText (text : String) : Layout where
  first := text
  below := []
  closing := List.forall_mem_nil _
  ends := rfl

instance : Coe String Layout := ⟨ofText⟩

/-- One text behind the other. -/
def append (left right : Layout) : Layout where
  first := (Line.glue right.first right.below left.first left.below).1
  below := (Line.glue right.first right.below left.first left.below).2
  closing := Line.startsClosing_glue left.closing right.closing
  ends := Line.lastDepth_glue left.ends right.ends

instance : Append Layout := ⟨append⟩

/-- The text as lines of their own, one level further in. -/
def indented (layout : Layout) : List Line :=
  ⟨1, layout.first⟩ :: layout.below.map fun line => ⟨line.depth + 1, line.text⟩

/-- Texts on lines of their own between braces. -/
def enclosed (lines : List Layout) : Layout where
  first := "\x7b"
  below := lines.flatMap indented ++ [⟨0, "\x7d"⟩]
  closing := by
    intro line member outermost
    rcases List.mem_append.mp member with inner | last
    · obtain ⟨layout, -, inner⟩ := List.mem_flatMap.mp inner
      rcases List.mem_cons.mp inner with rfl | inner
      · cases outermost
      · obtain ⟨line, -, rfl⟩ := List.mem_map.mp inner
        cases outermost
    · obtain rfl := List.mem_singleton.mp last
      exact ⟨"", rfl⟩
  ends := by simp

/-- Texts on lines of their own between braces, if there are any. -/
def braced : List Layout → Layout
  | [] => "\x7b\x7d"
  | lines => enclosed lines

/-- The text between parentheses if they are needed. -/
def parenthesize (needed : Bool) (layout : Layout) : Layout :=
  if needed then "(" ++ layout ++ ")" else layout

/-- Texts with a text between any two. -/
def intercalate (separator : String) : List Layout → Layout
  | [] => ""
  | [layout] => layout
  | layout :: next :: rest => layout ++ separator ++ intercalate separator (next :: rest)

/-- Texts between parentheses, where a single one is followed by a comma. -/
def parenthesized : List Layout → Layout
  | [layout] => "(" ++ layout ++ ",)"
  | layouts => "(" ++ intercalate ", " layouts ++ ")"

section Render

variable (width level : Nat)

@[simp]
theorem render_ofText (text : String) : (ofText text).render width level = text := by
  simp [render, ofText, Line.writeAll]

@[simp]
theorem render_append (left right : Layout) :
    (left ++ right).render width level = left.render width level ++ right.render width level :=
  Line.writeAll_glue width level

theorem join_indented (layout : Layout) :
    String.join (layout.indented.map (Line.write width level)) =
      "\n" ++ (margin width (level + 1) ++ layout.render width (level + 1)) := by
  have deeper : Line.write width level ∘ (fun line => ⟨line.depth + 1, line.text⟩) =
      Line.write width (level + 1) := by
    funext line
    simp only [Function.comp_apply, Line.write_eq_margin, Nat.add_assoc, Nat.add_comm 1]
  rw [indented, List.map_cons, List.map_map, String.join_cons, deeper]
  simp only [Line.write_eq_margin, render, Line.writeAll, String.append_assoc]

/-- Texts between braces are written on lines of their own, one level further in. Each line of the
layout starts with its newline and each line of the text ends with it, so that the newlines are
moved along. -/
@[simp]
theorem render_enclosed (lines : List Layout) :
    (enclosed lines).render width level =
      "\x7b\n" ++ String.join ((lines.map fun line =>
        margin width (level + 1) ++ line.render width (level + 1)).map (· ++ "\n")) ++
        margin width level ++ "\x7d" := by
  have moved : String.join ((lines.flatMap indented).map (Line.write width level)) ++ "\n" =
      "\n" ++ String.join ((lines.map fun line =>
        margin width (level + 1) ++ line.render width (level + 1)).map (· ++ "\n")) := by
    induction lines with
    | nil => rfl
    | cons line lines ih =>
        rw [List.flatMap_cons, List.map_append, String.join_append, join_indented,
          String.append_assoc, ih]
        simp only [List.map_cons, String.join_cons, String.append_assoc]
  calc (enclosed lines).render width level
      = "\x7b" ++ (String.join ((lines.flatMap indented).map (Line.write width level)) ++ "\n") ++
          margin width level ++ "\x7d" := by
        simp [enclosed, render, Line.writeAll, Line.write_eq_margin, String.append_assoc]
    _ = _ := by
        rw [moved, ← String.append_assoc]
        rfl

@[simp]
theorem render_braced (lines : List Layout) :
    (braced lines).render width level = Term.bracedLines width level (lines.map fun line =>
      margin width (level + 1) ++ line.render width (level + 1)) := by
  cases lines with
  | nil => exact render_ofText ..
  | cons line lines => exact render_enclosed ..

@[simp]
theorem render_parenthesize (needed : Bool) (layout : Layout) :
    (parenthesize needed layout).render width level =
      Term.parenthesize needed (layout.render width level) := by
  cases needed with
  | false => rfl
  | true => simp [parenthesize, Term.parenthesize]

@[simp]
theorem render_intercalate (separator : String) (layouts : List Layout) :
    (intercalate separator layouts).render width level =
      String.intercalate separator (layouts.map (render width level)) := by
  induction layouts with
  | nil => simp [intercalate]
  | cons layout layouts ih =>
      cases layouts with
      | nil => simp [intercalate]
      | cons next rest =>
          rw [List.map_cons] at ih
          simp [intercalate, ih, String.intercalate_cons_cons]

@[simp]
theorem render_parenthesized (layouts : List Layout) :
    (parenthesized layouts).render width level =
      Ty.parenthesized (layouts.map (render width level)) := by
  match layouts with
  | [] => simp [parenthesized, Ty.parenthesized]
  | [layout] => simp [parenthesized, Ty.parenthesized]
  | first :: second :: rest => simp [parenthesized, Ty.parenthesized]

end Render

/-- A text stands in a piece. -/
def Holds (layout : Layout) (text : String) : Prop :=
  ∃ piece ∈ layout.pieces, StandsIn text piece

namespace Holds

variable {left right layout : Layout} {layouts : List Layout} {text : String}

theorem ofText (text : String) : (ofText text).Holds text :=
  ⟨text, List.mem_cons_self, .refl text⟩

theorem appendLeft (holds : left.Holds text) : (left ++ right).Holds text := by
  obtain ⟨piece, member, stands⟩ := holds
  obtain ⟨whole, found, inside⟩ := Line.standsIn_glue_left member
  exact ⟨whole, found, stands.trans inside⟩

theorem appendRight (holds : right.Holds text) : (left ++ right).Holds text := by
  obtain ⟨piece, member, stands⟩ := holds
  obtain ⟨whole, found, inside⟩ := Line.standsIn_glue_right member
  exact ⟨whole, found, stands.trans inside⟩

theorem parenthesize {needed : Bool} (holds : layout.Holds text) :
    (parenthesize needed layout).Holds text := by
  cases needed with
  | false => exact holds
  | true => exact holds.appendRight.appendLeft

theorem enclosed (member : layout ∈ layouts) (holds : layout.Holds text) :
    (enclosed layouts).Holds text := by
  obtain ⟨piece, found, stands⟩ := holds
  refine ⟨piece, List.mem_cons_of_mem _ ?_, stands⟩
  rw [Layout.enclosed, List.map_append, List.map_flatMap]
  refine List.mem_append_left _ (List.mem_flatMap.mpr ⟨layout, member, ?_⟩)
  rwa [indented, List.map_cons, List.map_map]

theorem braced (member : layout ∈ layouts) (holds : layout.Holds text) :
    (braced layouts).Holds text := by
  cases layouts with
  | nil => cases member
  | cons first rest => exact holds.enclosed member

theorem intercalate {separator : String} (member : layout ∈ layouts)
    (holds : layout.Holds text) : (intercalate separator layouts).Holds text := by
  induction layouts with
  | nil => cases member
  | cons first layouts ih =>
      cases layouts with
      | nil =>
          obtain rfl := List.mem_singleton.mp member
          exact holds
      | cons next rest =>
          rcases List.mem_cons.mp member with rfl | further
          · exact holds.appendLeft.appendLeft
          · exact (ih further).appendRight

theorem parenthesized (member : layout ∈ layouts) (holds : layout.Holds text) :
    (parenthesized layouts).Holds text := by
  match layouts with
  | [] => cases member
  | [first] =>
      obtain rfl := List.mem_singleton.mp member
      exact holds.appendRight.appendLeft
  | first :: second :: rest => exact (holds.intercalate member).appendRight.appendLeft

end Holds

end Layout

end SpecTranspiler

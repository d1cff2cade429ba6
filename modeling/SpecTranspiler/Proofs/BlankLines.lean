import SpecTranspiler.Proofs.FilledLines

/-!
# Blank lines

The lines of items are filled, so the only blank lines of a program are those between its parts.
Cutting its text at pairs of newlines gives the imports and the items back
(`Program.blank_lines_separate_items`).
-/

namespace SpecTranspiler

/-- The parts of a text between pairs of newlines. A pair is looked for behind the one before it. -/
def cutAtPairs : List Char → List (List Char)
  | '\n' :: '\n' :: rest => [] :: cutAtPairs rest
  | c :: rest => (cutAtPairs rest).modifyHead (c :: ·)
  | [] => [[]]

/-- The parts of a text that blank lines separate. -/
def paragraphs (text : String) : List String :=
  (cutAtPairs text.toList).map String.ofList

theorem cutAtPairs_cons {c : Char} {rest : List Char}
    (apart : c = '\n' → rest.head? ≠ some '\n') :
    cutAtPairs (c :: rest) = (cutAtPairs rest).modifyHead (c :: ·) := by
  rw [cutAtPairs]
  rintro tail rfl rfl
  exact apart rfl rfl

/-- A text starts with a character other than a newline, if its lines hold something. -/
theorem head?_append_ne_newline {text : List Char} (filled : ∀ line ∈ text.splitOn '\n', line ≠ [])
    (rest : List Char) : (text ++ rest).head? ≠ some '\n' := by
  cases text with
  | nil => exact (filled [] List.mem_cons_self rfl).elim
  | cons c text =>
      intro starts
      obtain rfl : c = '\n' := by simpa using starts
      refine filled [] ?_ rfl
      rw [List.splitOn_cons_eq_if_modifyHead, if_pos (by rfl)]
      exact List.mem_cons_self

/-- Lines that hold something belong to one part, with what follows them. The first line may be
the rest of one that began earlier. -/
theorem cutAtPairs_append {text : List Char}
    (filled : ∀ line ∈ (text.splitOn '\n').tail, line ≠ []) (rest : List Char) :
    cutAtPairs (text ++ rest) = (cutAtPairs rest).modifyHead (text ++ ·) := by
  induction text with
  | nil => exact (congrFun List.modifyHead_id (cutAtPairs rest)).symm
  | cons c text ih =>
      rw [List.splitOn_cons_eq_if_modifyHead] at filled
      have further : ∀ line ∈ (text.splitOn '\n').tail, line ≠ [] := by
        split at filled
        · exact fun line member => filled line (List.mem_of_mem_tail member)
        · rwa [List.tail_modifyHead] at filled
      have apart : c = '\n' → (text ++ rest).head? ≠ some '\n' := by
        rintro rfl
        rw [if_pos (by rfl)] at filled
        exact head?_append_ne_newline filled rest
      rw [List.cons_append, cutAtPairs_cons apart, ih further, List.modifyHead_modifyHead]
      rfl

/-- Texts that are followed by a blank line each are the parts in front of what follows them. -/
theorem cutAtPairs_join {texts : List String} (filled : ∀ text ∈ texts, HasFilledLines text)
    (rest : List Char) :
    cutAtPairs ((String.join (texts.map (· ++ "\n\n"))).toList ++ rest) =
      texts.map String.toList ++ cutAtPairs rest := by
  rw [String.toList_join]
  induction texts with
  | nil => rfl
  | cons text texts ih =>
      obtain ⟨here, others⟩ := List.forall_mem_cons.mp filled
      have first : ∀ line ∈ (text.toList.splitOn '\n').tail, line ≠ [] :=
        fun line member => here line (List.mem_of_mem_tail member)
      have ended : (text ++ "\n\n").toList = text.toList ++ ['\n', '\n'] := String.toList_append
      rw [List.map_cons, List.flatMap_cons, List.append_assoc, ended, List.append_assoc,
        cutAtPairs_append first, List.cons_append, List.cons_append, List.nil_append, cutAtPairs,
        ih others, List.modifyHead_cons, List.append_nil]
      rfl

/-- The paragraphs of texts with a blank line between any two, where the last one may be followed
by a text that has no blank line in front of it. -/
theorem paragraphs_join {texts : List String} (filled : ∀ text ∈ texts, HasFilledLines text)
    {last : String} (lastFilled : HasFilledLines last) {rest : String}
    (single : cutAtPairs rest.toList = [rest.toList]) :
    paragraphs (String.join (texts.map (· ++ "\n\n")) ++ (last ++ rest)) =
      texts ++ [last ++ rest] := by
  have ending : ∀ line ∈ (last.toList.splitOn '\n').tail, line ≠ [] :=
    fun line member => lastFilled line (List.mem_of_mem_tail member)
  rw [paragraphs, String.toList_append, cutAtPairs_join filled, String.toList_append,
    cutAtPairs_append ending, single]
  simp [Function.comp_def]

/-- The line of an import. -/
def importLine (path : String) : String :=
  "use " ++ path ++ ";"

theorem hasFilledLines_imports {imports : List String} (some : imports ≠ [])
    (plain : ∀ path ∈ imports, path ≠ "" ∧ OneLine path) :
    HasFilledLines (String.intercalate "\n" (imports.map importLine)) := by
  refine .of_lines (by simpa using some) (List.forall_mem_map.mpr fun path member => ?_)
  refine ⟨fun empty => ?_, .between (by decide) (by decide) (plain path member).2⟩
  exact absurd (String.append_eq_empty_iff.mp empty).2 (by decide)

/-- The texts of the items that the text of a program consists of: its paragraphs without the first
one, and without the newline at its end. -/
def itemTexts (text : String) : List String :=
  (paragraphs (String.ofList text.toList.dropLast)).tail

theorem dropLast_newline (text : String) :
    String.ofList (text ++ "\n").toList.dropLast = text := by
  have ended : (text ++ "\n").toList = text.toList ++ ['\n'] := String.toList_append
  rw [ended, List.dropLast_concat, String.ofList_toList]

/-- Lines that are ended by newlines. -/
theorem join_endedLines {lines : List String} (some : lines ≠ []) :
    String.join (lines.map (· ++ "\n")) = String.intercalate "\n" lines ++ "\n" := by
  induction lines with
  | nil => exact (some rfl).elim
  | cons line lines ih =>
      cases lines with
      | nil => simp
      | cons next lines =>
          rw [List.map_cons, String.join_cons, ih (List.cons_ne_nil _ _),
            String.intercalate_cons_cons]
          simp only [String.append_assoc]

/-- Texts that are ended by newlines, with a newline between any two. -/
theorem intercalate_endedTexts (front : List String) (last : String) :
    String.intercalate "\n" ((front ++ [last]).map (· ++ "\n")) =
      String.join (front.map (· ++ "\n\n")) ++ (last ++ "\n") := by
  induction front with
  | nil => simp
  | cons text front ih =>
      have pair : "\n\n" = "\n" ++ "\n" := rfl
      obtain ⟨next, rest, same⟩ := List.exists_cons_of_ne_nil
        (List.append_ne_nil_of_right_ne_nil front (List.cons_ne_nil last []))
      rw [same, List.map_cons] at ih
      rw [List.cons_append, same, List.map_cons, List.map_cons, String.intercalate_cons_cons, ih,
        List.map_cons, String.join_cons, pair]
      simp only [String.append_assoc]

namespace Program

/-- The import paths and the names in a program hold something, and no path, name, attribute or
string literal in it holds a newline. -/
structure HasPlainTexts (program : Program) : Prop where
  imports : ∀ path ∈ program.imports, path ≠ "" ∧ OneLine path
  items : ∀ item ∈ program.items, item.HasPlainTexts

/-- The text of a program is that of its imports and of its items, with a blank line between any
two and a newline at its end. -/
theorem render_eq_join (width : Nat) {imports : List String} (some : imports ≠ [])
    (front : List Item) (last : Item) :
    render width ⟨imports, front ++ [last]⟩ =
      String.join ((String.intercalate "\n" (imports.map importLine) ::
        front.map (Item.render width 0)).map (· ++ "\n\n")) ++ (last.render width 0 ++ "\n") := by
  have lines : (imports.map fun path => "use " ++ path ++ ";\n") =
      (imports.map importLine).map (· ++ "\n") := by
    rw [List.map_map]
    refine List.map_congr_left fun path _ => ?_
    have ended : ";\n" = ";" ++ "\n" := rfl
    simp only [Function.comp_apply, importLine, ended, String.append_assoc]
  have items : ((front ++ [last]).map fun item => item.render width 0 ++ "\n") =
      (front.map (Item.render width 0) ++ [last.render width 0]).map (· ++ "\n") := by
    rw [List.map_append, List.map_append, List.map_map]
    rfl
  have pair : "\n\n" = "\n" ++ "\n" := rfl
  rw [render, lines, items, join_endedLines (by simpa using some), intercalate_endedTexts,
    List.map_cons, String.join_cons]
  simp only [pair, String.append_assoc]

/-- **Blank lines separate exactly the items.** The text of a program with imports and items, whose
names and paths hold something and whose texts hold no newline, falls at its pairs of newlines
into the import lines and the texts of the items, the last of which is followed by one newline.
So no line of an item is empty, its first and its last included, and the texts of the items are
read off the text of the program. -/
theorem blank_lines_separate_items (width : Nat) (program : Program)
    (imports : program.imports ≠ []) (items : program.items ≠ [])
    (plain : program.HasPlainTexts) :
    paragraphs (program.render width) =
        String.intercalate "\n" (program.imports.map fun path => "use " ++ path ++ ";") ::
          (program.items.dropLast.map (Item.render width 0) ++
            [(program.items.getLast items).render width 0 ++ "\n"]) ∧
      (∀ item ∈ program.items, HasFilledLines (item.render width 0)) ∧
      itemTexts (program.render width) = program.items.map (Item.render width 0) := by
  have shape := List.dropLast_append_getLast items
  have written := render_eq_join width imports program.items.dropLast (program.items.getLast items)
  rw [shape] at written
  have filled : ∀ item ∈ program.items, HasFilledLines (item.render width 0) :=
    fun item member => Item.hasFilledLines (plain.items item member) width
  have above := hasFilledLines_imports imports plain.imports
  have front : ∀ text ∈ String.intercalate "\n" (program.imports.map importLine) ::
      program.items.dropLast.map (Item.render width 0), HasFilledLines text :=
    List.forall_mem_cons.mpr ⟨above, List.forall_mem_map.mpr fun item member =>
      filled item (List.dropLast_subset _ member)⟩
  have last := filled _ (List.getLast_mem items)
  refine ⟨?_, filled, ?_⟩
  · exact (congrArg paragraphs written).trans (paragraphs_join front last rfl)
  · have shortened : String.ofList (program.render width).toList.dropLast = String.join
        ((String.intercalate "\n" (program.imports.map importLine) ::
          program.items.dropLast.map (Item.render width 0)).map (· ++ "\n\n")) ++
        ((program.items.getLast items).render width 0 ++ "") := by
      rw [written, ← String.append_assoc, dropLast_newline, String.append_empty]
    rw [itemTexts, shortened, paragraphs_join front last rfl, List.cons_append, List.tail_cons,
      String.append_empty]
    have texts := congrArg (List.map (Item.render width 0)) shape
    rwa [List.map_append, List.map_singleton] at texts

/-- A struct with an attribute, and a function that returns a record from inside a binding. -/
def samplePurse : Program where
  imports := ["std::collections::HashMap", "std::collections::HashSet"]
  items :=
    [.struct "Purse" [("coins", .map .str .uint64)] ["derive(Debug)"],
      .function "spend" [⟨"purse", .named "Purse", true⟩] (.named "Purse")
        [.ret (.bind "left" (.ifElse (.name "empty") .todo (.literal (.str "one")))
          (.record "Purse" [("coins", .name "left")]))] []]

/-- The names of the purse hold something, and no text of it holds a newline. -/
theorem samplePurse_hasPlainTexts : samplePurse.HasPlainTexts := by
  have names : samplePurse.items.flatMap Item.names =
      ["Purse", "coins", "spend", "purse", "Purse", "Purse", "left", "empty", "Purse", "coins",
        "left"] := by
    simp [samplePurse, Item.names, Item.labels, Item.types, Item.terms, Ty.names_eq, Ty.labels,
      Ty.parts, Term.names, Term.collect_eq, Term.parts, Term.types, Term.labels, Stmt.parts]
  have strings : samplePurse.items.flatMap Item.strings = ["one"] := by
    simp [samplePurse, Item.strings, Item.terms, Term.strings, Term.collect_eq, Term.parts,
      Term.literalText, Stmt.parts]
  have plainNames : ∀ name ∈ samplePurse.items.flatMap Item.names, name ≠ "" ∧ OneLine name := by
    rw [names]
    decide
  have plainStrings : ∀ text ∈ samplePurse.items.flatMap Item.strings, OneLine text := by
    rw [strings]
    decide
  have plainAttributes : ∀ text ∈ samplePurse.items.flatMap Item.attributes, OneLine text := by
    decide
  refine ⟨by decide, fun item member => ⟨?_, ?_, ?_⟩⟩
  · exact fun name inside => plainNames name (List.mem_flatMap.mpr ⟨item, member, inside⟩)
  · exact fun text above => plainAttributes text (List.mem_flatMap.mpr ⟨item, member, above⟩)
  · exact fun text inside => plainStrings text (List.mem_flatMap.mpr ⟨item, member, inside⟩)

/-- Without any indentation, the purse is cut into its imports and its two items. -/
theorem samplePurse_blank_lines_separate_items :
    paragraphs (samplePurse.render 0) =
      ["use std::collections::HashMap;\nuse std::collections::HashSet;",
        "#[derive(Debug)]\npub struct Purse \x7b\npub coins: HashMap<String, u64>,\n\x7d",
        "pub fn spend(mut purse: Purse) -> Purse \x7b\nreturn \x7b\nlet left = if empty \x7b\n" ++
          "todo!()\n\x7d else \x7b\n\"one\".to_string()\n\x7d;\nPurse \x7b\ncoins: left,\n" ++
          "\x7d\n\x7d;\n\x7d\n"] := by
  have separated := blank_lines_separate_items 0 samplePurse (by decide) (by decide)
    samplePurse_hasPlainTexts
  exact separated.1.trans rfl

end Program

end SpecTranspiler

import SpecTranspiler.Command.Run

/-!
# What a run of the command does to files

A run ends in one of four ways (`Options.Ends`): the input is refused, the tree cannot be
written, the output cannot be written, or all is done. `run_ends` says that there is no other,
and what the files are afterwards. Paths are compared by the places they lead to, so it does
not matter whether the output or the tree stands in the place of the input.
-/

namespace SpecTranspiler

namespace FileSystem

/-- The place that a path leads to, where the directories on the way exist. -/
def place? (files : FileSystem) (path : String) : Option (List String) :=
  (files.follow [] (names path)).toOption

/-- A file can be written at a path that leads to a place: no directory stands there, and the
path does not end in a slash. -/
structure WritableAt (files : FileSystem) (path : String) (place : List String) : Prop where
  leads : files.place? path = some place
  noDirectory : files.get? place ≠ some .directory
  noSlash : (names path).getLast? ≠ some ""

theorem place?_eq_some {files : FileSystem} {path : String} {place : List String} :
    files.place? path = some place ↔ files.follow [] (names path) = .ok place := by
  unfold place?
  rcases files.follow [] (names path) with error | found
  · simp [Except.toOption]
  · simp [Except.toOption]

theorem get?_put (files : FileSystem) {place : List String} (inside : place ≠ [])
    (entry : Entry) (other : List String) :
    (files.put place entry).get? other =
      if other = place then some entry else files.get? other := by
  unfold get? put
  by_cases root : other = []
  · subst root
    rw [if_pos rfl, if_pos rfl, if_neg inside.symm]
  · rw [if_neg root, if_neg root]
    by_cases same : other = place
    · subst same
      rw [if_pos rfl]
      exact Assoc.lookup_insert_self other entry files.entries
    · rw [if_neg same]
      exact Assoc.lookup_insert_of_ne same entry files.entries

/-- The working directory is a directory, so a place without one lies inside it. -/
theorem ne_nil_of_noDirectory {files : FileSystem} {place : List String}
    (noDirectory : files.get? place ≠ some .directory) : place ≠ [] := by
  rintro rfl
  exact noDirectory rfl

/-- A path that does not end in a slash is followed as a whole. -/
theorem trimmed_eq {parts : List String} (noSlash : parts.getLast? ≠ some "") :
    (parts.reverse.dropWhile (· == "")).reverse = parts := by
  rcases List.eq_nil_or_concat parts with rfl | ⟨front, last, rfl⟩
  · rfl
  · have named : last ≠ "" := by simpa using noSlash
    simp [named]

theorem length_trimmed_lt {parts : List String} (slash : parts.getLast? = some "") :
    (parts.reverse.dropWhile (· == "")).reverse.length < parts.length := by
  obtain ⟨front, rfl⟩ := List.getLast?_eq_some_iff.mp slash
  have shorter := (List.dropWhile_sublist (· == "") (l := front.reverse)).length_le
  simp at shorter ⊢
  omega

/-- A file is written exactly where one can be, and nothing else changes. -/
theorem write_eq_ok {files after : FileSystem} {path : String} {content : ByteArray} :
    files.write path content = .ok after ↔
      ∃ place, files.WritableAt path place ∧ after = files.put place (.file content) := by
  unfold write
  dsimp only
  by_cases slash : (names path).getLast? = some ""
  · have short := length_trimmed_lt slash
    constructor
    · intro written
      split at written
      · cases written
      · split at written
        · cases written
        · rw [if_pos short] at written
          cases written
    · rintro ⟨place, writable, -⟩
      exact (writable.noSlash slash).elim
  · rw [trimmed_eq slash]
    constructor
    · intro written
      split at written
      · cases written
      · next place leads =>
          split at written
          · cases written
          · next noDirectory =>
              rw [if_neg (Nat.lt_irrefl _)] at written
              cases written
              exact ⟨place, ⟨place?_eq_some.mpr leads, noDirectory, slash⟩, rfl⟩
    · rintro ⟨place, ⟨leads, noDirectory, -⟩, rfl⟩
      rw [place?_eq_some.mp leads]
      dsimp only
      split
      · next directory => exact (noDirectory directory).elim
      · rw [if_neg (Nat.lt_irrefl _)]

/-- What leads somewhere still does after a file was written, and nothing else does: the way
goes through directories only. -/
theorem follow_put_eq_ok {files : FileSystem} {target : List String} {content : ByteArray}
    (noDirectory : files.get? target ≠ some .directory) {start parts place : List String} :
    (files.put target (.file content)).follow start parts = .ok place ↔
      files.follow start parts = .ok place := by
  have inside := ne_nil_of_noDirectory noDirectory
  induction parts generalizing start with
  | nil => rfl
  | cons name rest ih =>
      rw [follow, follow, get?_put files inside]
      by_cases same : start.reverse = target
      · rw [if_pos same, same]
        rcases entry : files.get? target with _ | _ | _
        · exact iff_of_false nofun nofun
        · exact iff_of_false nofun nofun
        · exact (noDirectory entry).elim
      · rw [if_neg same]
        split
        · rfl
        · rfl
        · split
          · exact ih
          · split
            · exact ih
            · exact ih

theorem WritableAt.unique {files : FileSystem} {path : String} {first second : List String}
    (left : files.WritableAt path first) (right : files.WritableAt path second) :
    first = second :=
  Option.some.inj (left.leads.symm.trans right.leads)

/-- Where a file can be written is not changed by a file written before. -/
theorem writableAt_put {files : FileSystem} {target : List String} {content : ByteArray}
    (noDirectory : files.get? target ≠ some .directory) {path : String} {place : List String} :
    (files.put target (.file content)).WritableAt path place ↔ files.WritableAt path place := by
  have leads : (files.put target (.file content)).place? path = some place ↔
      files.place? path = some place := by
    rw [place?_eq_some, place?_eq_some, follow_put_eq_ok noDirectory]
  have entry : (files.put target (.file content)).get? place ≠ some .directory ↔
      files.get? place ≠ some .directory := by
    rw [get?_put files (ne_nil_of_noDirectory noDirectory)]
    by_cases same : place = target
    · subst same
      rw [if_pos rfl]
      exact iff_of_true nofun noDirectory
    · rw [if_neg same]
  exact ⟨fun writable => ⟨leads.mp writable.1, entry.mp writable.2, writable.3⟩,
    fun writable => ⟨leads.mpr writable.1, entry.mpr writable.2, writable.3⟩⟩

/-- Names behind names are followed from where the first ones lead. -/
theorem follow_append (files : FileSystem) (start first second : List String) :
    files.follow start (first ++ second) =
      match files.follow start first with
      | .ok place => files.follow place.reverse second
      | .error error => .error error := by
  induction first generalizing start with
  | nil =>
      rw [follow, List.nil_append]
      dsimp only
      rw [List.reverse_reverse]
  | cons name rest ih =>
      rw [List.cons_append, follow, follow]
      split
      · rfl
      · rfl
      · simp only [ih]
        split
        · rfl
        · split <;> rfl

/-- Where a name leads inside a directory, both given from the inside outwards. -/
def enter (start : List String) (name : String) : List String :=
  if name = "" ∨ name = "." then start
  else if name = ".." then start.drop 1
  else name :: start

theorem follow_name_eq_ok {files : FileSystem} {start : List String} {name : String}
    {place : List String} :
    files.follow start [name] = .ok place ↔
      files.get? start.reverse = some .directory ∧ (enter start name).reverse = place := by
  rw [follow, enter]
  rcases files.get? start.reverse with _ | _ | _
  · exact iff_of_false nofun nofun
  · exact iff_of_false nofun nofun
  · dsimp only
    rw [follow, follow, follow]
    split
    · simp
    · split <;> simp

/-- A name with a long suffix leads into a directory, and no shorter name leads there too. -/
theorem enter_append_ne {suffix : String} (long : 2 < suffix.length) (start : List String)
    (name : String) :
    enter start (name ++ suffix) = (name ++ suffix) :: start ∧
      enter start name ≠ (name ++ suffix) :: start := by
  have longer : (name ++ suffix).length = name.length + suffix.length := String.length_append ..
  have plain : ∀ special : String, special.length ≤ 2 → name ++ suffix ≠ special := by
    rintro special short rfl
    omega
  have shorter : name ≠ name ++ suffix := by
    intro same
    have := congrArg String.length same
    omega
  constructor
  · rw [enter, if_neg (not_or.mpr ⟨plain "" (by decide), plain "." (by decide)⟩),
      if_neg (plain ".." (by decide))]
  · have outside : ∀ place : List String, place.length ≤ start.length →
        place ≠ (name ++ suffix) :: start := by
      rintro place short rfl
      exact Nat.not_succ_le_self _ short
    unfold enter
    split
    · exact outside start (Nat.le_refl _)
    · split
      · exact outside (start.drop 1) (List.length_drop ▸ Nat.sub_le ..)
      · exact fun same => shorter (List.cons.inj same).1

/-- A suffix without a slash goes to the last name of a path. -/
theorem splitOn_append {suffix : List Char} (noSlash : '/' ∉ suffix) (chars : List Char) :
    ∃ front last, chars.splitOn '/' = front ++ [last] ∧
      (chars ++ suffix).splitOn '/' = front ++ [last ++ suffix] := by
  induction chars with
  | nil => exact ⟨[], [], rfl, List.splitOn_eq_singleton noSlash⟩
  | cons c chars ih =>
      obtain ⟨front, last, whole, extended⟩ := ih
      rw [List.cons_append, List.splitOn_cons_eq_if_modifyHead,
        List.splitOn_cons_eq_if_modifyHead, whole, extended]
      by_cases separates : c == '/'
      · rw [if_pos separates, if_pos separates]
        exact ⟨[] :: front, last, rfl, rfl⟩
      · rw [if_neg separates, if_neg separates]
        cases front with
        | nil => exact ⟨[], c :: last, rfl, rfl⟩
        | cons name front => exact ⟨(c :: name) :: front, last, rfl, rfl⟩

/-- A suffix without a slash belongs to the last name of a path. -/
theorem names_append {suffix : String} (noSlash : '/' ∉ suffix.toList) (path : String) :
    ∃ front last, names path = front ++ [last] ∧
      names (path ++ suffix) = front ++ [last ++ suffix] := by
  obtain ⟨front, last, whole, extended⟩ := splitOn_append noSlash path.toList
  refine ⟨front.map String.ofList, String.ofList last, ?_, ?_⟩
  · rw [names, whole, List.map_append]
    rfl
  · rw [names, String.toList_append, extended, List.map_append, List.map_singleton,
      String.ofList_append, String.ofList_toList]

/-- A path that can be followed with a suffix can be followed without it, to another place. -/
theorem place?_append {files : FileSystem} {path suffix : String} {place : List String}
    (noSlash : '/' ∉ suffix.toList) (long : 2 < suffix.length)
    (found : files.place? (path ++ suffix) = some place) :
    ∃ other, files.place? path = some other ∧ other ≠ place := by
  obtain ⟨front, last, whole, extended⟩ := names_append noSlash path
  rw [place?_eq_some, extended, follow_append] at found
  split at found
  · next directory leads =>
      obtain ⟨isDirectory, rfl⟩ := follow_name_eq_ok.mp found
      obtain ⟨entered, other⟩ := enter_append_ne long directory.reverse last
      refine ⟨(enter directory.reverse last).reverse, ?_, ?_⟩
      · rw [place?_eq_some, whole, follow_append, leads]
        exact follow_name_eq_ok.mpr ⟨isDirectory, rfl⟩
      · rw [entered]
        exact fun same => other (List.reverse_inj.mp same)
  · cases found

/-- The file at a path is a text that decodes to a document, which is lowered. -/
def Resolves (files : FileSystem) (input : String) (resolution : Resolution) : Prop :=
  ∃ bytes text document, files.read input = .ok bytes ∧ String.fromUTF8? bytes = some text ∧
    Document.ofText text = .ok document ∧ document.lower = .ok resolution

/-- The files are ready for the output of a program: its tree is written beside the output, if
it is asked for. -/
inductive Prepares (files : FileSystem) (output : String) (program : Program) :
    Bool → FileSystem → Prop where
  | plain : Prepares files output program false files
  | tree {place : List String} (writable : files.WritableAt (output ++ ".ast.json") place) :
      Prepares files output program true
        (files.put place (.file (Options.treeText program).toUTF8))

/-- The ways in which a run from an input to an output ends, with or without the tree: its
exit code, and the files it leaves. -/
inductive Ends (files : FileSystem) (input output : String) (emitTree : Bool) :
    Nat → FileSystem → Prop where
  | refused (never : ∀ resolution, ¬files.Resolves input resolution) :
      Ends files input output emitTree 1 files
  | unprepared {resolution : Resolution} (resolves : files.Resolves input resolution)
      (never : ∀ prepared, ¬files.Prepares output resolution.program emitTree prepared) :
      Ends files input output emitTree 1 files
  | unwritable {resolution : Resolution} {prepared : FileSystem}
      (resolves : files.Resolves input resolution)
      (prepares : files.Prepares output resolution.program emitTree prepared)
      (never : ∀ place, ¬prepared.WritableAt output place) :
      Ends files input output emitTree 1 prepared
  | done {resolution : Resolution} {prepared : FileSystem} {place : List String}
      (resolves : files.Resolves input resolution)
      (prepares : files.Prepares output resolution.program emitTree prepared)
      (writable : prepared.WritableAt output place) :
      Ends files input output emitTree 0
        (prepared.put place (.file (resolution.program.render 4).toUTF8))

variable {files : FileSystem} {input output : String} {emitTree : Bool}

theorem Resolves.unique {first second : Resolution} (left : files.Resolves input first)
    (right : files.Resolves input second) : first = second := by
  obtain ⟨bytes, text, document, read, isText, decoded, lowered⟩ := left
  obtain ⟨_, _, _, readToo, isTextToo, decodedToo, loweredToo⟩ := right
  cases read.symm.trans readToo
  cases isText.symm.trans isTextToo
  cases decoded.symm.trans decodedToo
  cases lowered.symm.trans loweredToo
  rfl

theorem Prepares.unique {program : Program} {first second : FileSystem}
    (left : files.Prepares output program emitTree first)
    (right : files.Prepares output program emitTree second) : first = second := by
  cases left with
  | plain =>
      cases right
      rfl
  | tree writable =>
      cases right with
      | tree writableToo => rw [writable.unique writableToo]

/-- A run ends in one way. -/
theorem Ends.unique {code other : Nat} {final last : FileSystem}
    (left : files.Ends input output emitTree code final)
    (right : files.Ends input output emitTree other last) : code = other ∧ final = last := by
  cases left with
  | refused never =>
      cases right with
      | refused => exact ⟨rfl, rfl⟩
      | unprepared resolves => exact (never _ resolves).elim
      | unwritable resolves => exact (never _ resolves).elim
      | done resolves => exact (never _ resolves).elim
  | unprepared resolves never =>
      cases right with
      | refused noInput => exact (noInput _ resolves).elim
      | unprepared => exact ⟨rfl, rfl⟩
      | unwritable again prepares =>
          obtain rfl := resolves.unique again
          exact (never _ prepares).elim
      | done again prepares =>
          obtain rfl := resolves.unique again
          exact (never _ prepares).elim
  | unwritable resolves prepares never =>
      cases right with
      | refused noInput => exact (noInput _ resolves).elim
      | unprepared again noTree =>
          obtain rfl := resolves.unique again
          exact (noTree _ prepares).elim
      | unwritable again preparesToo =>
          obtain rfl := resolves.unique again
          exact ⟨rfl, prepares.unique preparesToo⟩
      | done again preparesToo writable =>
          obtain rfl := resolves.unique again
          obtain rfl := prepares.unique preparesToo
          exact (never _ writable).elim
  | done resolves prepares writable =>
      cases right with
      | refused noInput => exact (noInput _ resolves).elim
      | unprepared again noTree =>
          obtain rfl := resolves.unique again
          exact (noTree _ prepares).elim
      | unwritable again preparesToo never =>
          obtain rfl := resolves.unique again
          obtain rfl := prepares.unique preparesToo
          exact (never _ writable).elim
      | done again preparesToo writableToo =>
          obtain rfl := resolves.unique again
          obtain rfl := prepares.unique preparesToo
          rw [writable.unique writableToo]
          exact ⟨rfl, rfl⟩

/-- Where a file can be written is not changed by the tree. -/
theorem Prepares.writableAt {program : Program} {prepared : FileSystem}
    (prepares : files.Prepares output program emitTree prepared) {path : String}
    {place : List String} : prepared.WritableAt path place ↔ files.WritableAt path place := by
  cases prepares with
  | plain => rfl
  | tree writable => exact writableAt_put writable.noDirectory

/-- The tree stands in one place, and that is not the place of the output. -/
theorem Prepares.get? {program : Program} {prepared : FileSystem}
    (prepares : files.Prepares output program emitTree prepared) :
    (∀ place, emitTree = true → files.place? (output ++ ".ast.json") = some place →
        prepared.get? place = some (.file (Options.treeText program).toUTF8)) ∧
      (∀ place, files.place? output = some place → prepared.get? place = files.get? place) ∧
      ∀ other, (emitTree = true → files.place? (output ++ ".ast.json") ≠ some other) →
        prepared.get? other = files.get? other := by
  cases prepares with
  | plain => exact ⟨nofun, fun place _ => rfl, fun other _ => rfl⟩
  | @tree treePlace writable =>
      have entries := get?_put files (ne_nil_of_noDirectory writable.noDirectory)
        (.file (Options.treeText program).toUTF8)
      refine ⟨fun place _ leads => ?_, fun place leads => ?_, fun other elsewhere => ?_⟩
      · obtain rfl := Option.some.inj (writable.leads.symm.trans leads)
        rw [entries, if_pos rfl]
      · obtain ⟨outputPlace, found, distinct⟩ :=
          place?_append (by decide) (by decide) writable.leads
        obtain rfl := Option.some.inj (found.symm.trans leads)
        rw [entries, if_neg distinct]
      · rw [entries, if_neg]
        rintro rfl
        exact elsewhere rfl writable.leads

theorem Ends.exitCode_eq_zero {code : Nat} {final : FileSystem}
    (ends : files.Ends input output emitTree code final) :
    code = 0 ↔ ∃ resolution prepared place, files.Resolves input resolution ∧
      files.Prepares output resolution.program emitTree prepared ∧
      prepared.WritableAt output place := by
  constructor
  · rintro rfl
    cases ends with
    | done resolves prepares writable => exact ⟨_, _, _, resolves, prepares, writable⟩
  · rintro ⟨resolution, prepared, place, resolves, prepares, writable⟩
    exact (ends.unique (.done resolves prepares writable)).1

/-- A run that is not done exits with one. If it came to the output, the files are those ready
for it, and otherwise they are as before. -/
theorem Ends.of_exitCode_ne_zero {code : Nat} {final : FileSystem}
    (ends : files.Ends input output emitTree code final) (failed : code ≠ 0) :
    code = 1 ∧
      (∀ resolution prepared, files.Resolves input resolution →
        files.Prepares output resolution.program emitTree prepared → final = prepared) ∧
      ((¬∃ resolution prepared, files.Resolves input resolution ∧
        files.Prepares output resolution.program emitTree prepared) → final = files) ∧
      ∀ place, files.place? output = some place → final.get? place = files.get? place := by
  cases ends with
  | refused never =>
      exact ⟨rfl, fun _ _ resolves => (never _ resolves).elim, fun _ => rfl, fun _ _ => rfl⟩
  | unprepared resolves never =>
      refine ⟨rfl, fun _ _ again prepares => ?_, fun _ => rfl, fun _ _ => rfl⟩
      obtain rfl := resolves.unique again
      exact (never _ prepares).elim
  | unwritable resolves prepares never =>
      refine ⟨rfl, fun _ _ again preparesToo => ?_, fun none => ?_, prepares.get?.2.1⟩
      · obtain rfl := resolves.unique again
        exact prepares.unique preparesToo
      · exact (none ⟨_, _, resolves, prepares⟩).elim
  | done => exact (failed rfl).elim

/-- A run that is done leaves the text of the program in the place of the output, and its tree
beside it, if it is asked for. -/
theorem Ends.of_done {code : Nat} {final : FileSystem}
    (ends : files.Ends input output emitTree code final) {resolution : Resolution}
    {prepared : FileSystem} {place : List String} (resolves : files.Resolves input resolution)
    (prepares : files.Prepares output resolution.program emitTree prepared)
    (writable : prepared.WritableAt output place) :
    final = prepared.put place (.file (resolution.program.render 4).toUTF8) ∧
      files.place? output = some place ∧
      final.get? place = some (.file (resolution.program.render 4).toUTF8) ∧
      ∀ treePlace, emitTree = true → files.place? (output ++ ".ast.json") = some treePlace →
        final.get? treePlace =
          some (.file (Options.treeText resolution.program).toUTF8) := by
  have inside := ne_nil_of_noDirectory writable.noDirectory
  have leads := (prepares.writableAt.mp writable).leads
  rw [(ends.unique (.done resolves prepares writable)).2]
  refine ⟨rfl, leads, ?_, fun treePlace asked found => ?_⟩
  · rw [get?_put _ inside, if_pos rfl]
  · obtain ⟨other, leadsToo, distinct⟩ := place?_append (by decide) (by decide) found
    obtain rfl := Option.some.inj (leads.symm.trans leadsToo)
    rw [get?_put _ inside, if_neg distinct.symm, prepares.get?.1 treePlace asked found]

/-- A run changes nothing but the places of the tree and of the output. -/
theorem Ends.get?_of_ne {code : Nat} {final : FileSystem}
    (ends : files.Ends input output emitTree code final) {other : List String}
    (notOutput : files.place? output ≠ some other)
    (notTree : emitTree = true → files.place? (output ++ ".ast.json") ≠ some other) :
    final.get? other = files.get? other := by
  cases ends with
  | refused => rfl
  | unprepared => rfl
  | unwritable _ prepares => exact prepares.get?.2.2 other notTree
  | done _ prepares writable =>
      have inside := ne_nil_of_noDirectory writable.noDirectory
      have leads := (prepares.writableAt.mp writable).leads
      rw [get?_put _ inside, if_neg, prepares.get?.2.2 other notTree]
      rintro rfl
      exact notOutput leads

end FileSystem

namespace Options

open FileSystem

theorem sourceText_eq_ok {content : Except FileError ByteArray} {text : String} :
    sourceText content = .ok text ↔
      ∃ bytes, content = .ok bytes ∧ String.fromUTF8? bytes = some text := by
  rcases content with error | bytes
  · exact iff_of_false nofun nofun
  · unfold sourceText
    dsimp only
    cases decoded : String.fromUTF8? bytes with
    | none => simp [decoded]
    | some found => simp [decoded]

variable {options : Options} {files : FileSystem} {resolution : Resolution} {report : Report}
  {final : FileSystem}

/-- The stages up to lowering succeed exactly on a file whose text decodes to a document that is
lowered. -/
theorem resolve_eq_ok :
    options.resolve (files.read options.input) = .ok resolution ↔
      files.Resolves options.input resolution := by
  constructor
  · intro resolved
    unfold resolve at resolved
    split at resolved
    · cases resolved
    · next text sourced =>
        obtain ⟨bytes, read, isText⟩ := sourceText_eq_ok.mp sourced
        split at resolved
        · cases resolved
        · next document decoded =>
            split at resolved
            · cases resolved
            · next lowered =>
                cases resolved
                exact ⟨bytes, text, document, read, isText, decoded, lowered⟩
  · rintro ⟨bytes, text, document, read, isText, decoded, lowered⟩
    have sourced := sourceText_eq_ok.mpr ⟨bytes, read, isText⟩
    simp only [resolve, sourced, decoded, lowered]

theorem readFile_run {α : Type} (path : String)
    (next : Except FileError ByteArray → StateM FileSystem α) :
    (MonadFiles.readFile path >>= next).run files = (next (files.read path)).run files :=
  rfl

theorem writeFile_run (path : String) (content : ByteArray) (files : FileSystem) :
    (MonadFiles.writeFile path content : StateM FileSystem _).run files =
      match files.write path content with
      | .ok after => (.ok (), after)
      | .error error => (.error error, files) :=
  rfl

/-- Writing the text of a program ends the run. -/
theorem writeProgram_ends {prepared : FileSystem}
    (resolves : files.Resolves options.input resolution)
    (prepares : files.Prepares options.output resolution.program options.emitTree prepared)
    (lines : List String)
    (run : (options.writeProgram resolution.program lines : StateM FileSystem Report).run
      prepared = (report, final)) :
    files.Ends options.input options.output options.emitTree report.exitCode final := by
  rw [writeProgram, StateT.run_bind, writeFile_run] at run
  rcases written : prepared.write options.output (programText resolution.program).toUTF8 with
    error | after
  · rw [written] at run
    cases run
    refine .unwritable resolves prepares fun place writable => ?_
    cases written.symm.trans (write_eq_ok.mpr ⟨place, writable, rfl⟩)
  · rw [written] at run
    cases run
    obtain ⟨place, writable, rfl⟩ := write_eq_ok.mp written
    exact .done resolves prepares writable

/-- Once a document is lowered, the run ends in one of the ways listed, by what becomes of the tree
and of the output. -/
theorem writeResult_ends (resolves : files.Resolves options.input resolution)
    (lines : List String)
    (run : (options.writeResult resolution.program lines : StateM FileSystem Report).run files =
      (report, final)) :
    files.Ends options.input options.output options.emitTree report.exitCode final := by
  rw [writeResult] at run
  cases asked : options.emitTree with
  | false =>
      rw [asked] at run
      have prepares : files.Prepares options.output resolution.program false files := .plain
      rw [← asked] at prepares ⊢
      exact writeProgram_ends resolves prepares lines run
  | true =>
      rw [asked, if_pos rfl, StateT.run_bind, writeFile_run] at run
      rcases written : files.write options.treePath (treeText resolution.program).toUTF8 with
        error | after
      · rw [written] at run
        cases run
        refine .unprepared resolves fun prepared prepares => ?_
        cases prepares with
        | tree writable => cases written.symm.trans (write_eq_ok.mpr ⟨_, writable, rfl⟩)
      · rw [written] at run
        obtain ⟨place, writable, rfl⟩ := write_eq_ok.mp written
        have prepares : files.Prepares options.output resolution.program true _ := .tree writable
        rw [← asked] at prepares ⊢
        exact writeProgram_ends resolves prepares _ run

/-- A run ends in one of the ways. -/
theorem run_ends
    (run : (options.run : StateM FileSystem Report).run files = (report, final)) :
    files.Ends options.input options.output options.emitTree report.exitCode final := by
  rw [Options.run, readFile_run] at run
  rcases resolved : options.resolve (files.read options.input) with ⟨lines, message⟩ | resolution
  · rw [resolved] at run
    cases run
    refine .refused fun resolution resolves => ?_
    cases resolved.symm.trans (resolve_eq_ok.mpr resolves)
  · rw [resolved] at run
    exact writeResult_ends (resolve_eq_ok.mp resolved) _ run

end Options

/-- What a run of the command on files reports, and the files it leaves. -/
def runOn (arguments : List String) (files : FileSystem) : Report × FileSystem :=
  (runCommand arguments : StateM FileSystem Report).run files

theorem runOn_ends {arguments : List String} {options : Options}
    (invoked : Arguments.invocation arguments = .run options) (files : FileSystem) :
    files.Ends options.input options.output options.emitTree (runOn arguments files).1.exitCode
      (runOn arguments files).2 := by
  have run : runOn arguments files = (options.run : StateM FileSystem Report).run files := by
    unfold runOn runCommand
    rw [invoked]
  rw [run]
  exact Options.run_ends rfl

/-- **Effects on files.** A run past its arguments exits with zero exactly when the input
reads as a text that decodes and is lowered, the tree can be written where it is asked for, and
then the output can be written. It leaves the files with the tree and then the text of the
program in their places, whether or not one of them is the place of the input. Any other run
exits with one and changes nothing, except that the tree was written where it was asked for and
only the output could not be written. No other place changes, and the options for diagnostics
change neither the exit code nor a file. -/
theorem runCommand_file_effects {arguments : List String} {options : Options}
    (invoked : Arguments.invocation arguments = .run options) {files final : FileSystem}
    {report : Report} (run : runOn arguments files = (report, final)) :
    (report.exitCode = 0 ↔
        ∃ resolution prepared place, files.Resolves options.input resolution ∧
          files.Prepares options.output resolution.program options.emitTree prepared ∧
          prepared.WritableAt options.output place) ∧
      (∀ resolution prepared place, files.Resolves options.input resolution →
        files.Prepares options.output resolution.program options.emitTree prepared →
        prepared.WritableAt options.output place →
          final = prepared.put place (.file (resolution.program.render 4).toUTF8) ∧
            files.place? options.output = some place ∧
            final.get? place = some (.file (resolution.program.render 4).toUTF8) ∧
            ∀ treePlace, options.emitTree = true →
              files.place? (options.output ++ ".ast.json") = some treePlace →
              final.get? treePlace =
                some (.file (Options.treeText resolution.program).toUTF8)) ∧
      (report.exitCode ≠ 0 →
        report.exitCode = 1 ∧
          (∀ resolution prepared, files.Resolves options.input resolution →
            files.Prepares options.output resolution.program options.emitTree prepared →
            final = prepared) ∧
          ((¬∃ resolution prepared, files.Resolves options.input resolution ∧
            files.Prepares options.output resolution.program options.emitTree prepared) →
            final = files) ∧
          ∀ place, files.place? options.output = some place →
            final.get? place = files.get? place) ∧
      (∀ other, files.place? options.output ≠ some other →
        (options.emitTree = true → files.place? (options.output ++ ".ast.json") ≠ some other) →
        final.get? other = files.get? other) ∧
      ∀ (otherArguments : List String) (others : Options),
        Arguments.invocation otherArguments = .run others →
        others.input = options.input → others.output = options.output →
        others.emitTree = options.emitTree →
          (runOn otherArguments files).1.exitCode = report.exitCode ∧
            (runOn otherArguments files).2 = final := by
  have ends := runOn_ends invoked files
  rw [run] at ends
  refine ⟨ends.exitCode_eq_zero, ?_, ends.of_exitCode_ne_zero, ?_, ?_⟩
  · intro resolution prepared place resolves prepares writable
    exact ends.of_done resolves prepares writable
  · intro other notOutput notTree
    exact ends.get?_of_ne notOutput notTree
  · intro otherArguments others invokedToo sameInput sameOutput sameTree
    have endsToo := runOn_ends invokedToo files
    rw [sameInput, sameOutput, sameTree] at endsToo
    exact endsToo.unique ends

/-- A document without declarations, in a file. -/
def FileSystem.emptyDocument : FileSystem :=
  ⟨[(["ir"], .file "\x7b\"modules\":[]\x7d".toUTF8)]⟩

/-- A run that writes its output in the place of its input, with the tree beside it. -/
theorem emptyDocument_file_effects :
    Arguments.invocation ["ir", "ir", "--emit-ast"] =
        .run ⟨"ir", "ir", false, false, false, true⟩ ∧
      (runOn ["ir", "ir", "--emit-ast"] .emptyDocument).1.exitCode = 0 ∧
      (runOn ["ir", "ir", "--emit-ast"] .emptyDocument).2.get? ["ir"] =
        some (.file (Program.render 4 ⟨Program.fixedImports, []⟩).toUTF8) ∧
      (runOn ["ir", "ir", "--emit-ast"] .emptyDocument).2.get? ["ir.ast.json"] =
        some (.file (Options.treeText ⟨Program.fixedImports, []⟩).toUTF8) := by
  have invoked : Arguments.invocation ["ir", "ir", "--emit-ast"] =
      .run ⟨"ir", "ir", false, false, false, true⟩ := by decide
  have resolves : FileSystem.emptyDocument.Resolves "ir"
      ⟨⟨Program.fixedImports, []⟩, [], []⟩ :=
    ⟨_, "\x7b\"modules\":[]\x7d", ⟨[], []⟩, rfl, by decide, by with_unfolding_all rfl, rfl⟩
  have writable : FileSystem.emptyDocument.WritableAt "ir.ast.json" ["ir.ast.json"] :=
    ⟨rfl, by rintro ⟨⟩, by decide⟩
  have prepares : FileSystem.emptyDocument.Prepares "ir" ⟨Program.fixedImports, []⟩ true _ :=
    .tree writable
  have output := prepares.writableAt.mpr (⟨rfl, by rintro ⟨⟩, by decide⟩ :
    FileSystem.emptyDocument.WritableAt "ir" ["ir"])
  obtain ⟨succeeds, done, -⟩ := runCommand_file_effects invoked rfl
  obtain ⟨-, -, text, tree⟩ := done _ _ _ resolves prepares output
  exact ⟨invoked, succeeds.mpr ⟨_, _, _, resolves, prepares, output⟩, text, tree _ rfl rfl⟩

end SpecTranspiler

import SpecTranspiler.Proofs.CharOffsets
import SpecTranspiler.Proofs.FileEffects
import SpecTranspiler.Proofs.PrintedJson

/-!
# The stream of diagnostics

With the option for it, a run tells what happened in lines of JSON. `Options.Tells` says which
messages a run has to give, stage by stage, and `Diagnostic.CarriedBy` what it means that a line
carries a diagnostic: it is one line, and parsing it gives the diagnostic back, whatever
characters the texts and paths in it hold.
-/

namespace SpecTranspiler

/-- What a run tells on a line of its own: a diagnostic, or that a file was written. -/
inductive Message where
  | diagnostic (diagnostic : Diagnostic)
  | status (text : String)

/-- The message at the end of a run that failed. -/
def Message.failure (text : String) : Message :=
  .diagnostic ⟨"C0001", .error, text, []⟩

namespace Diagnostic

/-- A line carries a diagnostic on a file: no character of it is below the space, and it is
parsed as the object with the parts of the diagnostic. -/
structure CarriedBy (file line : String) (diagnostic : Diagnostic) : Prop where
  visible : ∀ c ∈ line.toList, 32 ≤ c.toNat
  parsed : Json.parse line = .ok (.obj [
    ("code", .str diagnostic.code),
    ("file", .str file),
    ("fix", .null),
    ("message", .str diagnostic.message),
    ("severity", .str diagnostic.severity.name),
    ("spans", .arr (diagnostic.spans.map fun span => .obj [
      ("end", .num (.int span.stop)),
      ("label", .str span.label),
      ("start", .num (.int span.start))]))])

end Diagnostic

/-- A line shows a message about a file. -/
def Message.ShownBy (file line : String) : Message → Prop
  | .diagnostic told => told.CarriedBy file line
  | .status text => line = text

namespace Options

/-- What is told about the tree, and the files after it. -/
inductive TellsTree (options : Options) (files : FileSystem) (program : Program) :
    List Message → FileSystem → Prop where
  | plain (notAsked : options.emitTree = false) : TellsTree options files program [] files
  | tree {prepared : FileSystem} (asked : options.emitTree = true)
      (written : files.write (options.output ++ ".ast.json") (treeText program).toUTF8 =
        .ok prepared) :
      TellsTree options files program [.status ("  AST: " ++ (options.output ++ ".ast.json"))]
        prepared

/-- What is told about the files of a program. There is a failure at the end exactly when one of
them could not be written. -/
inductive TellsFiles (options : Options) (files : FileSystem) (program : Program) :
    List Message → Prop where
  | treeFailed {error : FileError} (asked : options.emitTree = true)
      (failed : files.write (options.output ++ ".ast.json") (treeText program).toUTF8 =
        .error error) :
      TellsFiles options files program
        [.failure ("Failed to write '" ++ (options.output ++ ".ast.json") ++ "': " ++
          error.message)]
  | outputFailed {messages : List Message} {prepared : FileSystem} {error : FileError}
      (tree : options.TellsTree files program messages prepared)
      (failed : prepared.write options.output (program.render 4).toUTF8 = .error error) :
      TellsFiles options files program
        (messages ++ [.failure ("Failed to write '" ++ options.output ++ "': " ++ error.message)])
  | done {messages : List Message} {prepared after : FileSystem}
      (tree : options.TellsTree files program messages prepared)
      (written : prepared.write options.output (program.render 4).toUTF8 = .ok after) :
      TellsFiles options files program
        (messages ++ [.status ("  Transpiled: " ++ options.output)])

/-- The messages of a run, by the stage that it reaches. -/
inductive Tells (options : Options) (files : FileSystem) : List Message → Prop where
  | unreadable {error : FileError} (failed : files.read options.input = .error error) :
      Tells options files
        [.failure ("Failed to read '" ++ options.input ++ "': " ++ error.message)]
  | noText {bytes : ByteArray} (read : files.read options.input = .ok bytes)
      (invalid : String.fromUTF8? bytes = none) :
      Tells options files
        [.failure ("Failed to read '" ++ options.input ++ "': " ++
          "stream did not contain valid UTF-8")]
  | undecoded {bytes : ByteArray} {source : String} {error : Json.DecodeError} {start : Nat}
      (read : files.read options.input = .ok bytes)
      (text : String.fromUTF8? bytes = some source)
      (failed : Document.ofText source = .error error)
      (place : start = Text.charOffset source error.line error.column) :
      Tells options files
        [.diagnostic ⟨"D0001", .error, "Decode error: " ++ error.message,
            [⟨start, start + 1, error.message⟩]⟩,
          .failure "Failed to decode the IR document due to errors above."]
  | unlowered {bytes : ByteArray} {source : String} {document : Document} {fault : Fault}
      (read : files.read options.input = .ok bytes)
      (text : String.fromUTF8? bytes = some source)
      (decoded : Document.ofText source = .ok document)
      (failed : document.lower = .error fault) :
      Tells options files
        [.diagnostic ⟨fault.code, .error, fault.message, []⟩,
          .failure "Transpilation failed due to errors above."]
  | lowered {bytes : ByteArray} {source : String} {document : Document}
      {resolution : Resolution} {messages : List Message}
      (read : files.read options.input = .ok bytes)
      (text : String.fromUTF8? bytes = some source)
      (decoded : Document.ofText source = .ok document)
      (lowered : document.lower = .ok resolution)
      (rest : options.TellsFiles files resolution.program messages) :
      Tells options files
        (resolution.warnings.map (fun warning =>
          .diagnostic ⟨warning.code, .warning, warning.message, []⟩) ++ messages)

end Options

namespace Span

theorem hasNaturals_toJson {span : Span} (start : span.start < UInt64.size)
    (stop : span.stop < UInt64.size) : span.toJson.HasNaturals := by
  refine .obj (List.forall_mem_cons.mpr ⟨.natural stop, ?_⟩)
  exact List.forall_mem_cons.mpr ⟨.str _, List.forall_mem_singleton.mpr (.natural start)⟩

end Span

namespace Diagnostic

/-- The spans of the diagnostic are given by naturals of 64 bits. -/
def HasShortSpans (diagnostic : Diagnostic) : Prop :=
  ∀ span ∈ diagnostic.spans, span.start < UInt64.size ∧ span.stop < UInt64.size

theorem hasNaturals_toJson {diagnostic : Diagnostic} (short : diagnostic.HasShortSpans)
    (file : String) : (diagnostic.toJson file).HasNaturals := by
  have spans : Json.HasNaturals (.arr (diagnostic.spans.map Span.toJson)) :=
    .arr (List.forall_mem_map.mpr fun span member =>
      Span.hasNaturals_toJson (short span member).1 (short span member).2)
  refine .obj ?_
  simp only [List.forall_mem_cons]
  exact ⟨.str _, .str _, .null, .str _, .str _, spans, nofun⟩

theorem nesting_toJson (file : String) (diagnostic : Diagnostic) :
    (diagnostic.toJson file).nesting ≤ 3 := by
  have spans : Json.nestingAll (diagnostic.spans.map Span.toJson) ≤ 1 :=
    Json.nestingAll_le.mpr (List.forall_mem_map.mpr fun span _ => Nat.le_refl 1)
  simp only [toJson, Json.nesting, Json.nestingMembers]
  omega

/-- The members of a diagnostic are sorted. -/
theorem sorted_toJson (file : String) (diagnostic : Diagnostic) :
    (diagnostic.toJson file).sorted = diagnostic.toJson file := by
  have spans : Json.sortedAll (diagnostic.spans.map Span.toJson) =
      diagnostic.spans.map Span.toJson := by
    rw [Json.sortedAll_eq_map, List.map_map]
    rfl
  have members : (diagnostic.toJson file).sorted = .obj [
      ("code", .str diagnostic.code), ("file", .str file), ("fix", .null),
      ("message", .str diagnostic.message), ("severity", .str diagnostic.severity.name),
      ("spans", .arr (Json.sortedAll (diagnostic.spans.map Span.toJson)))] := rfl
  rw [members, spans]
  rfl

/-- The line of a diagnostic carries it. -/
theorem jsonLine_carriedBy {diagnostic : Diagnostic} (short : diagnostic.HasShortSpans)
    (file : String) : diagnostic.CarriedBy file (diagnostic.jsonLine file) := by
  have naturals := diagnostic.hasNaturals_toJson short file
  refine ⟨naturals.isVisible_compress, ?_⟩
  have deep : (diagnostic.toJson file).nesting ≤ Json.maxDepth :=
    Nat.le_trans (nesting_toJson file diagnostic) (by decide)
  have noBlanks : Json.AreBlank "".toList := nofun
  have parsed := (naturals.printsValue_compress deep).parseWithin noBlanks
  rw [String.append_empty, sorted_toJson] at parsed
  exact parsed

end Diagnostic

namespace Message

/-- The line of a message about a file. -/
def line (file : String) : Message → String
  | .diagnostic told => told.jsonLine file
  | .status text => text

/-- The spans of the diagnostic, if it is one, are given by naturals of 64 bits. -/
def HasShortSpans : Message → Prop
  | .diagnostic told => told.HasShortSpans
  | .status _ => True

theorem line_shownBy {message : Message} (short : message.HasShortSpans) (file : String) :
    message.ShownBy file (message.line file) := by
  cases message with
  | diagnostic told => exact told.jsonLine_carriedBy short file
  | status text => exact rfl

theorem hasShortSpans_of_noSpans (code text : String) (severity : Severity) :
    (Message.diagnostic ⟨code, severity, text, []⟩).HasShortSpans :=
  nofun

end Message

namespace Text

theorem length_le_utf8ByteSize (chars : List Char) :
    chars.length ≤ (String.ofList chars).utf8ByteSize := by
  induction chars with
  | nil => exact Nat.zero_le _
  | cons c rest ih =>
      have positive := c.utf8Size_pos
      rw [String.ofList_cons, String.utf8ByteSize_append, String.utf8ByteSize_singleton,
        List.length_cons]
      omega

/-- The index of a character does not exceed the number of bytes. -/
theorem charOffset_le_size {bytes : ByteArray} {source : String}
    (text : String.fromUTF8? bytes = some source) (line column : Nat) :
    charOffset source line column ≤ bytes.size := by
  have whole : source.toByteArray = bytes := by
    unfold String.fromUTF8? at text
    split at text
    · cases text
      rfl
    · cases text
  have longer := length_le_utf8ByteSize source.toList
  rw [String.ofList_toList, String.length_toList, ← String.size_toByteArray, whole] at longer
  exact Nat.le_trans (charOffset_le_length source line column) longer

end Text

namespace Options

variable {options : Options} {files : FileSystem}

/-- The messages about written files have no spans at all. -/
theorem TellsFiles.hasShortSpans {program : Program} {messages : List Message}
    (tells : options.TellsFiles files program messages) :
    ∀ message ∈ messages, message.HasShortSpans := by
  have tree {messages : List Message} {prepared : FileSystem}
      (tells : options.TellsTree files program messages prepared) :
      ∀ message ∈ messages, message.HasShortSpans := by
    cases tells with
    | plain => exact nofun
    | tree => exact List.forall_mem_singleton.mpr trivial
  cases tells with
  | treeFailed => exact List.forall_mem_singleton.mpr (Message.hasShortSpans_of_noSpans _ _ _)
  | outputFailed told =>
      refine List.forall_mem_append.mpr ⟨tree told, List.forall_mem_singleton.mpr ?_⟩
      exact Message.hasShortSpans_of_noSpans _ _ _
  | done told =>
      exact List.forall_mem_append.mpr ⟨tree told, List.forall_mem_singleton.mpr trivial⟩

/-- The spans of an input that fits in memory are short. -/
theorem Tells.hasShortSpans {messages : List Message} (tells : options.Tells files messages)
    (small : ∀ bytes, files.read options.input = .ok bytes → bytes.size < 2 ^ 63) :
    ∀ message ∈ messages, message.HasShortSpans := by
  have plain := Message.hasShortSpans_of_noSpans
  cases tells with
  | unreadable | noText => exact List.forall_mem_singleton.mpr (plain _ _ _)
  | @undecoded bytes source error _ read text _ place =>
      subst place
      have within := Text.charOffset_le_size text error.line error.column
      have size := small bytes read
      have limit : 2 ^ 63 < UInt64.size := by decide
      refine List.forall_mem_cons.mpr ⟨?_, List.forall_mem_singleton.mpr (plain _ _ _)⟩
      intro span member
      obtain rfl := List.mem_singleton.mp member
      dsimp only
      omega
  | unlowered =>
      exact List.forall_mem_cons.mpr ⟨plain _ _ _, List.forall_mem_singleton.mpr (plain _ _ _)⟩
  | lowered _ _ _ _ rest =>
      refine List.forall_mem_append.mpr ⟨?_, rest.hasShortSpans⟩
      exact List.forall_mem_map.mpr fun warning _ => plain _ _ _

/-- Every way to write the files has its messages. -/
theorem exists_tellsFiles (options : Options) (files : FileSystem) (program : Program) :
    ∃ messages, options.TellsFiles files program messages := by
  have output {messages : List Message} {prepared : FileSystem}
      (tree : options.TellsTree files program messages prepared) :
      ∃ messages, options.TellsFiles files program messages := by
    rcases written : prepared.write options.output (program.render 4).toUTF8 with error | after
    · exact ⟨_, .outputFailed tree written⟩
    · exact ⟨_, .done tree written⟩
  cases asked : options.emitTree with
  | false => exact output (.plain asked)
  | true =>
      rcases written : files.write (options.output ++ ".ast.json") (treeText program).toUTF8 with
        error | prepared
      · exact ⟨_, .treeFailed asked written⟩
      · exact output (.tree asked written)

/-- Every run has its messages. -/
theorem exists_tells (options : Options) (files : FileSystem) :
    ∃ messages, options.Tells files messages := by
  rcases read : files.read options.input with error | bytes
  · exact ⟨_, .unreadable read⟩
  · cases text : String.fromUTF8? bytes with
    | none => exact ⟨_, .noText read text⟩
    | some source =>
        rcases decoded : Document.ofText source with error | document
        · exact ⟨_, .undecoded read text decoded rfl⟩
        · rcases lowered : document.lower with fault | resolution
          · exact ⟨_, .unlowered read text decoded lowered⟩
          · obtain ⟨messages, rest⟩ := exists_tellsFiles options files resolution.program
            exact ⟨_, .lowered read text decoded lowered rest⟩

variable {messages : List Message} {program : Program}

/-- The lines of messages. -/
def messageLines (options : Options) (messages : List Message) : List String :=
  messages.map (Message.line options.input)

theorem failureLine_of_json (json : options.json = true) (text : String) :
    options.failureLine text = (Message.failure text).line options.input := by
  rw [failureLine, json]
  rfl

theorem writeProgram_stderr (json : options.json = true) {prepared : FileSystem}
    (lines : List String) :
    ((options.writeProgram program lines : StateM FileSystem Report).run prepared).1.stderr =
      unlines (lines ++ match prepared.write options.output (program.render 4).toUTF8 with
        | .error error => [(Message.failure ("Failed to write '" ++ options.output ++ "': " ++
            error.message)).line options.input]
        | .ok _ => ["  Transpiled: " ++ options.output]) := by
  rw [writeProgram, StateT.run_bind, writeFile_run, programText]
  rcases prepared.write options.output (program.render 4).toUTF8 with error | after
  · change unlines (lines ++ [options.failureLine _]) = _
    rw [failureLine_of_json json]
    rfl
  · rfl

/-- Writing the files tells the messages about them, after the lines before. -/
theorem TellsFiles.writeResult_stderr (json : options.json = true)
    (tells : options.TellsFiles files program messages) (lines : List String) :
    ((options.writeResult program lines : StateM FileSystem Report).run files).1.stderr =
      unlines (lines ++ options.messageLines messages) := by
  have tree {told : List Message} {prepared : FileSystem}
      (tells : options.TellsTree files program told prepared) :
      (options.writeResult program lines : StateM FileSystem Report).run files =
        (options.writeProgram program (lines ++ options.messageLines told) :
          StateM FileSystem Report).run prepared := by
    cases tells with
    | plain notAsked =>
        rw [writeResult, notAsked, messageLines, List.map_nil, List.append_nil]
        rfl
    | tree asked written =>
        rw [writeResult, if_pos asked, StateT.run_bind, writeFile_run, treePath, written]
        rfl
  cases tells with
  | treeFailed asked failed =>
      rw [writeResult, if_pos asked, StateT.run_bind, writeFile_run, treePath, failed]
      change unlines (lines ++ [options.failureLine _]) = _
      rw [failureLine_of_json json]
      rfl
  | outputFailed told failed =>
      rw [tree told, writeProgram_stderr json, failed, messageLines, messageLines, List.map_append,
        List.append_assoc]
      rfl
  | done told written =>
      rw [tree told, writeProgram_stderr json, written, messageLines, messageLines,
        List.map_append, List.append_assoc]
      rfl

/-- A run writes the lines of its messages. -/
theorem Tells.run_stderr (json : options.json = true) (tells : options.Tells files messages) :
    ((options.run : StateM FileSystem Report).run files).1.stderr =
      unlines (options.messageLines messages) := by
  have failed {lines : List String} {text : String}
      (resolved : options.resolve (files.read options.input) = .error (lines, text)) :
      ((options.run : StateM FileSystem Report).run files).1.stderr =
        unlines (lines ++ [(Message.failure text).line options.input]) := by
    rw [Options.run, readFile_run, resolved, ← failureLine_of_json json]
    rfl
  cases tells with
  | @unreadable error unread =>
      have resolved : options.resolve (files.read options.input) =
          .error ([], readMessage options.input error) := by
        simp only [resolve, sourceText, unread]
      rw [failed resolved]
      rfl
  | noText read invalid =>
      have resolved : options.resolve (files.read options.input) =
          .error ([], readMessage options.input .invalidText) := by
        simp only [resolve, sourceText, read, invalid]
      rw [failed resolved]
      rfl
  | @undecoded bytes source error _ read text undecoded place =>
      have resolved : options.resolve (files.read options.input) =
          .error (options.decodeLines source error,
            "Failed to decode the IR document due to errors above.") := by
        simp only [resolve, sourceText, read, text, undecoded]
      rw [failed resolved, decodeLines, if_pos json, place]
      rfl
  | @unlowered bytes source document fault read text decoded unlowered =>
      have resolved : options.resolve (files.read options.input) =
          .error (options.codeLines (.ofFault fault),
            "Transpilation failed due to errors above.") := by
        simp only [resolve, sourceText, read, text, decoded, unlowered]
      rw [failed resolved, codeLines, if_pos json]
      rfl
  | @lowered bytes source document resolution told read text decoded lowered rest =>
      have resolved : options.resolve (files.read options.input) = .ok resolution := by
        simp only [resolve, sourceText, read, text, decoded, lowered]
      have quiet : options.verboseLines resolution = [] := by simp [verboseLines, json]
      have warned : (resolution.warnings.flatMap fun warning =>
          options.codeLines (.ofWarning warning)) =
            resolution.warnings.map fun warning =>
              (Diagnostic.ofWarning warning).jsonLine options.input := by
        simp only [codeLines, if_pos json]
        exact List.flatMap_pure_eq_map _ _
      rw [Options.run, readFile_run, resolved]
      change ((options.writeResult resolution.program _ : StateM FileSystem Report).run
        files).1.stderr = _
      rw [rest.writeResult_stderr json, quiet, List.append_nil, warned, messageLines, messageLines,
        List.map_append, List.map_map]
      rfl

end Options

/-- **The stream of diagnostics is faithful.** A run that is asked for JSON has messages by the
stage it reaches, and writes each of them on a line of its own, in order. The line of a
diagnostic holds no control character, and is parsed as an object with exactly its parts. The
input is one that fits in memory, so that places in it are numbers of 64 bits. -/
theorem runCommand_tells_faithfully {arguments : List String} {options : Options}
    (invoked : Arguments.invocation arguments = .run options) (json : options.json = true)
    {files : FileSystem}
    (small : ∀ bytes, files.read options.input = .ok bytes → bytes.size < 2 ^ 63) :
    (∃ messages, options.Tells files messages) ∧
      ∀ messages, options.Tells files messages →
        ∃ lines, (runOn arguments files).1.stderr = String.join (lines.map (· ++ "\n")) ∧
          List.Forall₂ (Message.ShownBy options.input) lines messages := by
  refine ⟨options.exists_tells files, fun messages tells => ?_⟩
  refine ⟨options.messageLines messages, ?_, ?_⟩
  · rw [← Options.unlines, ← tells.run_stderr json, runOn, runCommand, invoked]
  · rw [Options.messageLines, List.forall₂_map_left_iff, List.forall₂_same]
    exact fun message member => Message.line_shownBy (tells.hasShortSpans small message member) _

/-- A file whose modules are a string, under a path with a line break. -/
def FileSystem.misshapenDocument : FileSystem :=
  ⟨[(["i\nr"], .file "\x7b\"modules\":\"\\n\"\x7d".toUTF8)]⟩

/-- The report on the misshapen document, which quotes the string. -/
def Json.DecodeError.misshapen : Json.DecodeError :=
  ⟨.mismatch (.invalidType (.str "\n") "a sequence"), some ⟨1, 15⟩⟩

/-- The run over the misshapen document tells of the place of the string, and of the failure. -/
theorem misshapenDocument_tells_faithfully :
    ∃ first second, (runOn ["i\nr", "out", "--json"] .misshapenDocument).1.stderr =
        String.join ([first, second].map (· ++ "\n")) ∧
      Diagnostic.CarriedBy "i\nr" first ⟨"D0001", .error,
        "Decode error: " ++ Json.DecodeError.misshapen.message,
        [⟨14, 15, Json.DecodeError.misshapen.message⟩]⟩ ∧
      Diagnostic.CarriedBy "i\nr" second
        ⟨"C0001", .error, "Failed to decode the IR document due to errors above.", []⟩ := by
  have invoked : Arguments.invocation ["i\nr", "out", "--json"] =
      .run ⟨"i\nr", "out", true, false, false, false⟩ := by decide
  have small : ∀ bytes, FileSystem.misshapenDocument.read "i\nr" = .ok bytes →
      bytes.size < 2 ^ 63 := by
    intro bytes read
    cases read
    decide
  have refused : Document.ofText "\x7b\"modules\":\"\\n\"\x7d" =
      .error Json.DecodeError.misshapen := by
    with_unfolding_all rfl
  have tells : Options.Tells ⟨"i\nr", "out", true, false, false, false⟩ .misshapenDocument _ :=
    .undecoded rfl (by decide) refused rfl
  obtain ⟨lines, written, shown⟩ := (runCommand_tells_faithfully invoked rfl small).2 _ tells
  obtain ⟨first, _, decodeShown, rest, rfl⟩ := List.forall₂_cons_right_iff.mp shown
  obtain ⟨second, _, failureShown, done, rfl⟩ := List.forall₂_cons_right_iff.mp rest
  obtain rfl := List.forall₂_nil_right_iff.mp done
  exact ⟨first, second, written, decodeShown, failureShown⟩

end SpecTranspiler

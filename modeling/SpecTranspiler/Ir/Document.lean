import SpecTranspiler.Ir.Issue
import SpecTranspiler.Json.Decoder

/-!
# Documents

A document holds a table of types and a list of modules. Only this outer shape is decoded;
the declarations of a module stay JSON values. `TypeNames.index` lists the named entries of
the type table by their numeric ids.
-/

namespace SpecTranspiler

/-- A module: its name and its declarations as they were written. -/
structure Module where
  name : String
  declarations : List Json

/-- The types of a document: under each key the name of the type, if it has one. -/
abbrev TypeTable := Assoc String (Option String)

/-- A document. -/
structure Document where
  types : TypeTable
  modules : List Module

namespace Document

open Json (Decoder Record Slot)

/-- The described type of a table entry, of which the name is read. -/
def typeRecord : Record (Option (Option String)) (Option String) where
  name := "TypeEntryType"
  start := none
  slots := [.of "name" (.nullable .string) id (fun _ name => some name) (some none)]
  finish := id

/-- An entry of the type table. -/
def entryRecord : Record (Option (Option String)) (Option String) where
  name := "TypeEntry"
  start := none
  slots := [.of "type" typeRecord.decoder id (fun _ name => some name) none]
  finish := id

/-- A module. -/
def moduleRecord : Record (Option String × Option (List Json)) Module where
  name := "Module"
  start := (none, none)
  slots :=
    [.of "name" .string Prod.fst (fun draft name => (some name, draft.2)) none,
      .of "declarations" (.list .value) Prod.snd
        (fun draft declarations => (draft.1, some declarations)) none]
  finish
    | (some name, some declarations) => some ⟨name, declarations⟩
    | _ => none

/-- A document. The type table may be left out. -/
def documentRecord : Record (Option TypeTable × Option (List Module)) Document where
  name := "Document"
  start := (none, none)
  slots :=
    [.of "types" (.table entryRecord.decoder) Prod.fst
        (fun draft types => (some types, draft.2)) (some []),
      .of "modules" (.list moduleRecord.decoder) Prod.snd
        (fun draft modules => (draft.1, some modules)) none]
  finish
    | (some types, some modules) => some ⟨types, modules⟩
    | _ => none

/-- Decode a document from a text. -/
def ofText (text : String) : Except Json.DecodeError Document :=
  documentRecord.decoder.decodeText text

/-- Decode a document from a value. -/
def ofValue (value : Json) : Except Json.DecodeError Document :=
  documentRecord.decoder.decodeValue value

end Document

/-- The names of types by ascending id. -/
abbrev TypeNames := Assoc UInt64 String

namespace TypeNames

/-- The digits of a key, of which a plus sign in front is not one. -/
def idDigits (key : String) : List Char :=
  match key.toList with
  | '+' :: digits => digits
  | digits => digits

/-- The number that decimal digits denote. -/
def ofDigits (digits : List Char) : Nat :=
  digits.foldl (fun value c => value * 10 + (c.toNat - '0'.toNat)) 0

/-- The id that a key of the type table denotes, if it denotes one. -/
def id? (key : String) : Option UInt64 :=
  let digits := idDigits key
  if digits ≠ [] ∧ digits.all Char.isDigit ∧ ofDigits digits < UInt64.size then
    some (UInt64.ofNat (ofDigits digits))
  else none

/-- Add an entry of the type table to the index. An entry without a name adds nothing. -/
def add (names : TypeNames) (entry : String × Option String) : Except Fault TypeNames :=
  match entry with
  | (_, none) => .ok names
  | (key, some name) =>
      match id? key with
      | some id => .ok (names.insert id name)
      | none => .error (.invalidTypeId key)

/-- Index the named entries of a type table. -/
def index (types : TypeTable) : Except Fault TypeNames :=
  types.foldlM add []

end TypeNames

end SpecTranspiler

import SpecTranspiler.Json.Parse
import SpecTranspiler.Json.Skip

/-!
# Decoders

A `Decoder` describes data inside a JSON input and reads it in two ways: from the text
itself, with a position for every failure, and from a value that was read before. The two
readings of each combinator below ask for the same shape; they differ in the order in
which faults are found, and in that a text may repeat a key and skips what is not asked
for without looking at it closely.

A record may be written as an object or as the array of its fields in order. Its fields are
collected in a draft; a `Slot` is one of them.
-/

namespace SpecTranspiler

namespace Json

/-- Data that can be read from a text, whose brackets may still nest to a depth, and from
a value. -/
structure Decoder (α : Type) where
  ofText : Nat → List Char → Scan α
  ofValue : Json → Except Mismatch α

/-- Refuse a value in a text because something else is expected. A scalar is read to its
end first and has to be well formed; a bracket is refused where it opens. -/
def typeFailure (expected : String) (chars : List Char) : Failure :=
  let refuse (found : Found) (rest : List Char) : Failure :=
    .before (.mismatch (.invalidType found expected)) rest
  match chars with
  | '[' :: rest => refuse .sequence ('[' :: rest)
  | '{' :: rest => refuse .map ('{' :: rest)
  | _ =>
      match scanValue 0 chars with
      | .ok (value, rest) => refuse value.found rest
      | .error failure => failure

namespace Decoder

variable {α : Type}

/-- Any value. -/
def value : Decoder Json where
  ofText := scanValue
  ofValue := .ok

/-- A string. -/
def string : Decoder String where
  ofText _ chars :=
    match skipBlanks chars with
    | '"' :: rest => scanString rest
    | rest => .error (typeFailure "a string" rest)
  ofValue
    | .str text => .ok text
    | other => .error (.invalidType other.found "a string")

/-- Data that may be null instead. -/
def nullable (decoder : Decoder α) : Decoder (Option α) where
  ofText depth chars :=
    match skipBlanks chars with
    | 'n' :: rest => (scanWord ['u', 'l', 'l'] rest).map (none, ·)
    | rest => (decoder.ofText depth rest).map fun (result, rest) => (some result, rest)
  ofValue
    | .null => .ok none
    | other => (decoder.ofValue other).map some

/-- An array of data. -/
def list (decoder : Decoder α) : Decoder (List α) where
  ofText depth chars :=
    match skipBlanks chars with
    | '[' :: rest =>
        match depth with
        | 0 => .error (.within .nestingLimit ('[' :: rest))
        | depth + 1 => scanArray (decoder.ofText depth) rest
    | rest => .error (typeFailure "a sequence" rest)
  ofValue
    | .arr elements => elements.mapM decoder.ofValue
    | other => .error (.invalidType other.found "a sequence")

/-- Insert a member into a table while it is read from a text. -/
def tableMember (decoder : Decoder α) (depth : Nat) (table : Assoc String α) (key : String)
    (chars : List Char) : Scan (Assoc String α) :=
  match scanColon chars with
  | .error failure => .error failure
  | .ok rest =>
      (decoder.ofText depth rest).map fun (result, rest) => (table.insert key result, rest)

/-- An object of data under arbitrary keys. The last of equal keys counts. -/
def table (decoder : Decoder α) : Decoder (Assoc String α) where
  ofText depth chars :=
    match skipBlanks chars with
    | '{' :: rest =>
        match depth with
        | 0 => .error (.within .nestingLimit ('{' :: rest))
        | depth + 1 => scanObject (decoder.tableMember depth) [] rest
    | rest => .error (typeFailure "a map" rest)
  ofValue
    | .obj members =>
        members.foldlM
          (fun table (key, value) => (decoder.ofValue value).map (table.insert key ·)) []
    | other => .error (.invalidType other.found "a map")

end Decoder

/-- A field of a record whose fields are collected in a draft. -/
structure Slot (σ : Type) where
  /-- The key of the field in an object. -/
  key : String
  /-- The field was read already. -/
  filled : σ → Bool
  /-- Read the field from a text. -/
  ofText : Nat → σ → List Char → Scan σ
  /-- Read the field from a value. -/
  ofValue : σ → Json → Except Mismatch σ
  /-- The draft without the field, where it may be left out. -/
  absent : σ → Option σ

/-- A field that fills one place of a draft, with what stands for it when it is left out. -/
def Slot.of {α σ : Type} (key : String) (decoder : Decoder α) (get : σ → Option α)
    (set : σ → α → σ) (default : Option α) : Slot σ where
  key := key
  filled draft := (get draft).isSome
  ofText depth draft chars :=
    (decoder.ofText depth chars).map fun (result, rest) => (set draft result, rest)
  ofValue draft value := (decoder.ofValue value).map (set draft ·)
  absent draft := default.map (set draft ·)

/-- A record: its name, its fields in order, and the result of a draft in which all are
filled. -/
structure Record (σ α : Type) where
  name : String
  start : σ
  slots : List (Slot σ)
  finish : σ → Option α

namespace Record

variable {σ α : Type}

/-- The field under a key. -/
def slot? (record : Record σ α) (key : String) : Option (Slot σ) :=
  record.slots.find? (·.key == key)

/-- The words for a record with all its fields. -/
def describeLength (record : Record σ α) : String :=
  let count := record.slots.length
  "struct " ++ record.name ++ " with " ++ toString count ++
    (if count = 1 then " element" else " elements")

/-- Complete a draft: every field that was not filled may be left out, or is missing. -/
def complete (record : Record σ α) (draft : σ) : Except Mismatch α :=
  let fill (draft : σ) (slot : Slot σ) : Except Mismatch σ :=
    if slot.filled draft then .ok draft
    else
      match slot.absent draft with
      | some draft => .ok draft
      | none => .error (.missingField slot.key)
  match record.slots.foldlM fill draft with
  | .error detail => .error detail
  | .ok draft =>
      match record.finish draft with
      | some result => .ok result
      | none => .error (.missingField record.name)

/-- Where a repeated key shows: behind it, or behind the brace that follows at once. -/
def duplicateFailure (key : String) (chars : List Char) : Failure :=
  let cause := Cause.mismatch (.duplicateField key)
  match skipBlanks chars with
  | '}' :: rest => .before cause rest
  | rest => .before cause rest

/-- Read a member of an object in a text, after its key. -/
def textMember (record : Record σ α) (depth : Nat) (draft : σ) (key : String)
    (chars : List Char) : Scan σ :=
  match record.slot? key with
  | some slot =>
      if slot.filled draft then .error (duplicateFailure key chars)
      else
        match scanColon chars with
        | .ok rest => slot.ofText depth draft rest
        | .error failure => .error failure
  | none =>
      match scanColon chars with
      | .ok rest => (skipValue rest).map (draft, ·)
      | .error failure => .error failure

/-- Read the record from an object in a text, after the opening brace. -/
def textObject (record : Record σ α) (depth : Nat) (chars : List Char) : Scan α :=
  match scanObject (record.textMember depth) record.start chars with
  | .error failure => .error failure
  | .ok (draft, rest) =>
      match record.complete draft with
      | .ok result => .ok (result, rest)
      | .error detail => .error (.before (.mismatch detail) rest)

/-- Find the next element of an array in a text: the characters from it on, or none at the
closing bracket. -/
def nextElement (first : Bool) (chars : List Char) : Except Failure (Option (List Char)) :=
  match skipBlanks chars with
  | [] => .error (.within .eofInList [])
  | ']' :: _ => .ok none
  | c :: rest =>
      if first then .ok (some (c :: rest))
      else if c = ',' then
        match skipBlanks rest with
        | [] => .error (.within .eofInValue [])
        | ']' :: rest => .error (.within .trailingComma (']' :: rest))
        | rest => .ok (some rest)
      else .error (.within .expectedListEnd (c :: rest))

/-- Close an array in a text after the last element that is asked for. -/
def closeArray (chars : List Char) : Except Failure (List Char) :=
  match skipBlanks chars with
  | ']' :: rest => .ok rest
  | [] => .error (.within .eofInList [])
  | ',' :: rest =>
      match skipBlanks rest with
      | ']' :: rest => .error (.within .trailingComma (']' :: rest))
      | rest => .error (.within .trailingCharacters rest)
  | rest => .error (.within .trailingCharacters rest)

/-- Read the fields in order from an array in a text. -/
def textElements (record : Record σ α) (depth : Nat) :
    List (Slot σ) → Nat → σ → List Char → Scan σ
  | [], _, draft, chars => .ok (draft, chars)
  | slot :: slots, index, draft, chars =>
      match nextElement (index == 0) chars with
      | .error failure => .error failure
      | .ok (some rest) =>
          match slot.ofText depth draft rest with
          | .ok (draft, rest) => record.textElements depth slots (index + 1) draft rest
          | .error failure => .error failure
      | .ok none =>
          match slot.absent draft with
          | some draft => record.textElements depth slots (index + 1) draft chars
          | none =>
              .error (.before (.mismatch (.invalidLength index record.describeLength))
                ((skipBlanks chars).drop 1))

/-- Read the record from an array in a text, after the opening bracket. -/
def textArray (record : Record σ α) (depth : Nat) (chars : List Char) : Scan α :=
  match record.textElements depth record.slots 0 record.start chars with
  | .error failure => .error failure
  | .ok (draft, rest) =>
      match closeArray rest with
      | .error failure => .error failure
      | .ok rest =>
          match record.complete draft with
          | .ok result => .ok (result, rest)
          | .error detail => .error (.before (.mismatch detail) rest)

/-- Read a member of an object given as a value. -/
def valueMember (record : Record σ α) (draft : σ) (member : String × Json) :
    Except Mismatch σ :=
  match record.slot? member.1 with
  | some slot =>
      if slot.filled draft then .error (.duplicateField member.1)
      else slot.ofValue draft member.2
  | none => .ok draft

/-- Read the fields in order from an array given as a value. Gives the draft and the
elements that are left over. -/
def valueElements (record : Record σ α) :
    List (Slot σ) → Nat → σ → List Json → Except Mismatch (σ × List Json)
  | [], _, draft, elements => .ok (draft, elements)
  | slot :: slots, index, draft, element :: elements =>
      match slot.ofValue draft element with
      | .ok draft => record.valueElements slots (index + 1) draft elements
      | .error detail => .error detail
  | slot :: slots, index, draft, [] =>
      match slot.absent draft with
      | some draft => record.valueElements slots (index + 1) draft []
      | none => .error (.invalidLength index record.describeLength)

/-- Read the record from a value. -/
def ofValue (record : Record σ α) : Json → Except Mismatch α
  | .obj members => members.foldlM record.valueMember record.start >>= record.complete
  | .arr elements =>
      match record.valueElements record.slots 0 record.start elements with
      | .error detail => .error detail
      | .ok (draft, []) => record.complete draft
      | .ok (_, _ :: _) =>
          .error (.invalidLength elements.length "fewer elements in array")
  | other => .error (.invalidType other.found ("struct " ++ record.name))

/-- The decoder of a record. -/
def decoder (record : Record σ α) : Decoder α where
  ofText depth chars :=
    match skipBlanks chars with
    | '[' :: rest =>
        match depth with
        | 0 => .error (.within .nestingLimit ('[' :: rest))
        | depth + 1 => record.textArray depth rest
    | '{' :: rest =>
        match depth with
        | 0 => .error (.within .nestingLimit ('{' :: rest))
        | depth + 1 => record.textObject depth rest
    | rest => .error (typeFailure ("struct " ++ record.name) rest)
  ofValue := record.ofValue

end Record

namespace Decoder

variable {α : Type}

/-- Read a whole text. -/
def decodeText (decoder : Decoder α) (text : String) : Except DecodeError α :=
  scanAll (decoder.ofText maxDepth) text

/-- Read a value. -/
def decodeValue (decoder : Decoder α) (value : Json) : Except DecodeError α :=
  (decoder.ofValue value).mapError .ofMismatch

end Decoder

end Json

end SpecTranspiler

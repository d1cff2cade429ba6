/-!
# Places in a text

Text is read as a list of characters, and a place in it is a number of bytes of its
UTF-8 form. `Position.after` names such a place by line and column, and `charOffset`
goes the other way, from a line and a column in bytes to an index in characters.
-/

namespace SpecTranspiler

namespace Text

/-- The number of bytes of the UTF-8 form of a text. -/
def byteSize : List Char → Nat
  | [] => 0
  | c :: rest => c.utf8Size + byteSize rest

/-- The lines of a text, each with the newline that ends it. -/
def lines : List Char → List (List Char)
  | [] => []
  | c :: rest =>
      if c = '\n' then [c] :: lines rest
      else
        match lines rest with
        | [] => [[c]]
        | line :: more => (c :: line) :: more

/-- The bytes of the first `count` lines. -/
def linesSize (chars : List Char) (count : Nat) : Nat :=
  ((lines chars).take count).foldl (fun size line => size + byteSize line) 0

/-- The first `bytes` bytes of a text, unless they end inside a character or beyond the text. -/
def takeBytes? : List Char → Nat → Option (List Char)
  | _, 0 => some []
  | [], _ + 1 => none
  | c :: rest, bytes + 1 =>
      if c.utf8Size ≤ bytes + 1 then
        (takeBytes? rest (bytes + 1 - c.utf8Size)).map (c :: ·)
      else none

/-- The text can be cut at the byte. -/
def isBoundary (chars : List Char) (byte : Nat) : Bool :=
  (takeBytes? chars byte).isSome

/-- Go back from a byte, one byte at a time, to where the text can be cut. There is no way back
from the first byte. -/
def lastBoundary? (chars : List Char) (byte : Nat) : Option Nat :=
  if isBoundary chars byte then some byte
  else
    match byte with
    | 0 => none
    | previous + 1 => lastBoundary? chars previous

/-- The byte at a line and a column, both counted from one and the column in bytes. A place
beyond the text is its end. -/
def byteOffset (chars : List Char) (line column : Nat) : Nat :=
  let place := linesSize chars (line - 1) + (column - 1)
  if place ≤ byteSize chars then place else byteSize chars

/-- The number of characters before a line and a column. There is none if the way back to where
the text can be cut passed its beginning, or if a character was cut after all. -/
def charOffset? (source : String) (line column : Nat) : Option Nat := do
  let byte ← lastBoundary? source.toList (byteOffset source.toList line column)
  let front ← takeBytes? source.toList byte
  return front.length

theorem takeBytes?_zero (chars : List Char) : takeBytes? chars 0 = some [] := by
  cases chars <;> rfl

/-- The way back ends where the text can be cut, at the latest at its beginning. -/
theorem exists_lastBoundary? (chars : List Char) (byte : Nat) :
    ∃ boundary front, lastBoundary? chars byte = some boundary ∧
      takeBytes? chars boundary = some front := by
  induction byte with
  | zero =>
      have found : lastBoundary? chars 0 = some 0 := by
        rw [lastBoundary?, isBoundary, takeBytes?_zero]
        rfl
      exact ⟨0, [], found, takeBytes?_zero chars⟩
  | succ previous ih =>
      rw [lastBoundary?, isBoundary]
      cases cut : takeBytes? chars (previous + 1) with
      | some front => exact ⟨previous + 1, front, rfl, cut⟩
      | none => exact ih

theorem isSome_charOffset? (source : String) (line column : Nat) :
    (charOffset? source line column).isSome = true := by
  obtain ⟨boundary, front, found, cut⟩ :=
    exists_lastBoundary? source.toList (byteOffset source.toList line column)
  rw [charOffset?, found, Option.bind_eq_bind, Option.bind_some, cut]
  rfl

/-- The index of the character at a line and a column, both counted from one and the
column in bytes. A place beyond the text is its end. -/
def charOffset (source : String) (line column : Nat) : Nat :=
  (charOffset? source line column).get (isSome_charOffset? source line column)

end Text

/-- A place in a text: the line counted from one, and the bytes of it that lie before. -/
structure Position where
  line : Nat
  column : Nat
  deriving DecidableEq, Repr

namespace Position

/-- Move over the first `bytes` bytes of a text. -/
def advance (position : Position) : List Char → Nat → Position
  | [], _ => position
  | c :: rest, bytes =>
      if bytes < c.utf8Size then { position with column := position.column + bytes }
      else if c = '\n' then advance ⟨position.line + 1, 0⟩ rest (bytes - 1)
      else
        advance { position with column := position.column + c.utf8Size } rest
          (bytes - c.utf8Size)

/-- The place after the first `bytes` bytes of a text. -/
def after (chars : List Char) (bytes : Nat) : Position :=
  advance ⟨1, 0⟩ chars bytes

end Position

end SpecTranspiler

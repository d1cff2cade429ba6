import Mathlib.Data.List.DropRight
import SpecTranspiler.Json.Parse
import SpecTranspiler.Json.Skip

/-!
# Values as they are written

`Json.scanWritten` reads a value and lists the members of its objects as they stand in the
text, repeated keys included. Sorting them gives the value that `Json.scanValue` reads, so the
two accept the same texts. The written value tells whether an object repeats a key.
-/

namespace SpecTranspiler

namespace Json

/-- Read a member of an object, after its key, behind the members read so far. -/
def scanMember (scan : List Char → Scan Json) (members : List (String × Json)) (key : String)
    (chars : List Char) : Scan (List (String × Json)) :=
  match scanColon chars with
  | .ok rest => (scan rest).map fun (value, rest) => (members ++ [(key, value)], rest)
  | .error failure => .error failure

/-- Read a value whose brackets nest no deeper than a depth, with the members of objects in
the order of the text. -/
def scanWritten (depth : Nat) (chars : List Char) : Scan Json :=
  match skipBlanks chars with
  | [] => .error (.within .eofInValue [])
  | 'n' :: rest => (scanWord ['u', 'l', 'l'] rest).map (.null, ·)
  | 't' :: rest => (scanWord ['r', 'u', 'e'] rest).map (.bool true, ·)
  | 'f' :: rest => (scanWord ['a', 'l', 's', 'e'] rest).map (.bool false, ·)
  | '"' :: rest => (scanString rest).map fun (text, rest) => (.str text, rest)
  | '-' :: rest => (scanNumber true rest).map fun (value, rest) => (.num value, rest)
  | '[' :: rest =>
      match depth with
      | 0 => .error (.within .nestingLimit ('[' :: rest))
      | depth + 1 =>
          (scanArray (scanWritten depth) rest).map fun (elements, rest) => (.arr elements, rest)
  | '{' :: rest =>
      match depth with
      | 0 => .error (.within .nestingLimit ('{' :: rest))
      | depth + 1 =>
          (scanObject (scanMember (scanWritten depth)) [] rest).map fun (members, rest) =>
            (.obj members, rest)
  | c :: rest =>
      if c.isDigit then (scanNumber false (c :: rest)).map fun (value, rest) => (.num value, rest)
      else .error (.within .expectedValue (c :: rest))

/-- The value that a text holds, as it is written. -/
def parseWritten (text : String) : Except DecodeError Json :=
  scanAll (scanWritten maxDepth) text

mutual

/-- The value with the members of all objects by ascending key, of which the last one counts
among equal keys. -/
def sorted : Json → Json
  | .arr elements => .arr (sortedAll elements)
  | .obj members => .obj (sortedMembers [] members)
  | .null => .null
  | .bool value => .bool value
  | .num value => .num value
  | .str value => .str value

/-- Sort the members in all values. -/
def sortedAll : List Json → List Json
  | [] => []
  | value :: rest => value.sorted :: sortedAll rest

/-- Sort members into those sorted so far. -/
def sortedMembers (table : Assoc String Json) : List (String × Json) → Assoc String Json
  | [] => table
  | (key, value) :: rest => sortedMembers (table.insert key value.sorted) rest

end

mutual

/-- No object in the value repeats a key. -/
def hasDistinctKeys : Json → Bool
  | .arr elements => haveDistinctKeys elements
  | .obj members => decide (members.map Prod.fst).Nodup && membersHaveDistinctKeys members
  | .null => true
  | .bool _ => true
  | .num _ => true
  | .str _ => true

/-- No object in the values repeats a key. -/
def haveDistinctKeys : List Json → Bool
  | [] => true
  | value :: rest => value.hasDistinctKeys && haveDistinctKeys rest

/-- No object in the values of the members repeats a key. -/
def membersHaveDistinctKeys : List (String × Json) → Bool
  | [] => true
  | (_, value) :: rest => value.hasDistinctKeys && membersHaveDistinctKeys rest

end

theorem sortedAll_eq_map (values : List Json) : sortedAll values = values.map sorted := by
  induction values with
  | nil => rw [sortedAll, List.map_nil]
  | cons value rest ih => rw [sortedAll, ih, List.map_cons]

theorem sortedMembers_append (table : Assoc String Json) (first second : List (String × Json)) :
    sortedMembers table (first ++ second) = sortedMembers (sortedMembers table first) second := by
  induction first generalizing table with
  | nil => rw [List.nil_append, sortedMembers]
  | cons member rest ih => rw [List.cons_append, sortedMembers, ih, sortedMembers]

/-- A member with its value sorted. -/
def sortedMember (member : String × Json) : String × Json :=
  (member.1, member.2.sorted)

/-- Sorting members with distinct keys only changes their order. -/
theorem sortedMembers_perm {table : Assoc String Json} {members : List (String × Json)}
    (distinct : (table.map Prod.fst ++ members.map Prod.fst).Nodup) :
    (sortedMembers table members).Perm (table ++ members.map sortedMember) := by
  induction members generalizing table with
  | nil =>
      rw [sortedMembers, List.map_nil, List.append_nil]
  | cons member rest ih =>
      obtain ⟨key, value⟩ := member
      have fresh : key ∉ table.map Prod.fst := by
        have apart := (List.nodup_append.mp distinct).2.2
        exact fun held => apart key held key (by simp) rfl
      have stored := Assoc.insert_perm fresh value.sorted
      have keys : ((table.insert key value.sorted).map Prod.fst ++ rest.map Prod.fst).Perm
          (table.map Prod.fst ++ ((key, value) :: rest).map Prod.fst) :=
        ((stored.map Prod.fst).append_right _).trans List.perm_middle.symm
      rw [sortedMembers]
      calc
        List.Perm _ (table.insert key value.sorted ++ rest.map sortedMember) :=
          ih (keys.nodup_iff.mpr distinct)
        List.Perm _ ((key, value.sorted) :: table ++ rest.map sortedMember) :=
          stored.append_right _
        List.Perm _ (table ++ ((key, value) :: rest).map sortedMember) := List.perm_middle.symm

section Loops

variable {α β σ τ : Type}

/-- A loop over elements gives the images of the results, if reading an element does. -/
theorem scanElements_map {item : List Char → Scan α} {image : List Char → Scan β} {f : α → β}
    (same : ∀ chars, image chars = (item chars).map fun (a, rest) => (f a, rest))
    (steps : List Char) (read : List α) (chars : List Char) :
    scanElements image steps (read.map f) chars =
      (scanElements item steps read chars).map fun (results, rest) => (results.map f, rest) := by
  induction steps generalizing read chars with
  | nil => rfl
  | cons step steps ih =>
      rw [scanElements, scanElements, same]
      rcases item chars with failure | ⟨a, rest⟩
      · rfl
      · dsimp only [Except.map]
        split
        · simp
        · split
          · rfl
          · rfl
          · rw [← List.map_cons, ih]
            rfl
        · rfl
        · rfl

theorem scanArray_map {item : List Char → Scan α} {image : List Char → Scan β} {f : α → β}
    (same : ∀ chars, image chars = (item chars).map fun (a, rest) => (f a, rest))
    (chars : List Char) :
    scanArray image chars =
      (scanArray item chars).map fun (results, rest) => (results.map f, rest) := by
  unfold scanArray
  split
  · rfl
  · rfl
  · exact scanElements_map same _ [] _

/-- A loop over members gives the images of the states, if reading a member does. -/
theorem scanMembers_map {member : σ → String → List Char → Scan σ}
    {image : τ → String → List Char → Scan τ} {f : σ → τ}
    (same : ∀ state key chars, image (f state) key chars =
      (member state key chars).map fun (state, rest) => (f state, rest))
    (steps : List Char) (state : σ) (chars : List Char) :
    scanMembers image steps (f state) chars =
      (scanMembers member steps state chars).map fun (state, rest) => (f state, rest) := by
  induction steps generalizing state chars with
  | nil => rfl
  | cons step steps ih =>
      unfold scanMembers
      split
      · next rest =>
          rcases scanString rest with failure | ⟨key, rest⟩
          · rfl
          · dsimp only
            rw [same]
            rcases member state key rest with failure | ⟨state, rest⟩
            · rfl
            · dsimp only [Except.map]
              split
              · rfl
              · split
                · rfl
                · rfl
                · exact ih ..
              · rfl
              · rfl
      · rfl

theorem scanObject_map {member : σ → String → List Char → Scan σ}
    {image : τ → String → List Char → Scan τ} {f : σ → τ}
    (same : ∀ state key chars, image (f state) key chars =
      (member state key chars).map fun (state, rest) => (f state, rest))
    (start : σ) (chars : List Char) :
    scanObject image (f start) chars =
      (scanObject member start chars).map fun (state, rest) => (f state, rest) := by
  unfold scanObject
  split
  · rfl
  · rfl
  · exact scanMembers_map same _ start _

end Loops

/-- Read a member of an object, after its key, into the members sorted so far. -/
def scanSortedMember (scan : List Char → Scan Json) (table : Assoc String Json) (key : String)
    (chars : List Char) : Scan (Assoc String Json) :=
  match scanColon chars with
  | .ok rest => (scan rest).map fun (value, rest) => (table.insert key value, rest)
  | .error failure => .error failure

theorem scanSortedMember_eq_map {scan image : List Char → Scan Json}
    (same : ∀ chars, image chars = (scan chars).map fun (value, rest) => (value.sorted, rest))
    (members : List (String × Json)) (key : String) (chars : List Char) :
    scanSortedMember image (sortedMembers [] members) key chars =
      (scanMember scan members key chars).map fun (members, rest) =>
        (sortedMembers [] members, rest) := by
  unfold scanSortedMember scanMember
  rcases scanColon chars with failure | rest
  · rfl
  · dsimp only
    rw [same]
    rcases scan rest with failure | ⟨value, rest⟩
    · rfl
    · simp only [Except.map, sortedMembers_append, sortedMembers]

/-- Reading a value is reading it as it is written, and sorting. -/
theorem scanValue_eq_map (depth : Nat) (chars : List Char) :
    scanValue depth chars =
      (scanWritten depth chars).map fun (value, rest) => (value.sorted, rest) := by
  rw [scanValue.eq_def, scanWritten.eq_def]
  generalize skipBlanks chars = opened
  -- Splitting decides the first character on the left, and `simp only []` then on the right.
  split
  · rfl
  · next rest =>
      simp only []
      rcases scanWord ['u', 'l', 'l'] rest with failure | rest <;> rfl
  · next rest =>
      simp only []
      rcases scanWord ['r', 'u', 'e'] rest with failure | rest <;> rfl
  · next rest =>
      simp only []
      rcases scanWord ['a', 'l', 's', 'e'] rest with failure | rest <;> rfl
  · next rest =>
      simp only []
      rcases scanString rest with failure | ⟨text, rest⟩ <;> rfl
  · next rest =>
      simp only []
      rcases scanNumber true rest with failure | ⟨number, rest⟩ <;> rfl
  · next rest =>
      cases depth with
      | zero => rfl
      | succ depth =>
          simp only []
          rw [scanArray_map (scanValue_eq_map depth)]
          rcases scanArray (scanWritten depth) rest with failure | ⟨elements, rest⟩
          · rfl
          · simp only [Except.map, sorted, sortedAll_eq_map]
  · next rest =>
      cases depth with
      | zero => rfl
      | succ depth =>
          simp only []
          have read := scanObject_map (scanSortedMember_eq_map (scanValue_eq_map depth)) [] rest
          change (scanObject (scanSortedMember (scanValue depth)) (sortedMembers [] [])
            rest).map _ = _
          rw [read]
          rcases scanObject (scanMember (scanWritten depth)) [] rest with failure | ⟨members, rest⟩
          · rfl
          · rfl
  · next c rest _ _ _ _ _ _ _ =>
      simp only []
      split
      · rcases scanNumber false (c :: rest) with failure | ⟨number, rest⟩ <;> rfl
      · rfl
termination_by depth

theorem scanAll_map {α β : Type} {scan : List Char → Scan α} {image : List Char → Scan β}
    {f : α → β} (same : ∀ chars, image chars = (scan chars).map fun (a, rest) => (f a, rest))
    (text : String) : scanAll image text = (scanAll scan text).map f := by
  unfold scanAll
  rw [same]
  rcases scan text.toList with failure | ⟨a, rest⟩
  · rfl
  · dsimp only [Except.map]
    split <;> rfl

/-- A whole text is read exactly if nothing but blanks follows what is read from its start. -/
theorem scanAll_eq_ok {α : Type} {scan : List Char → Scan α} {text : String} {result : α} :
    scanAll scan text = .ok result ↔
      ∃ rest, scan text.toList = .ok (result, rest) ∧ skipBlanks rest = [] := by
  unfold scanAll
  cases scan text.toList with
  | error failure => simp
  | ok found =>
      obtain ⟨found, rest⟩ := found
      dsimp only
      split
      · next blank => simp [blank]
      · next more =>
          constructor
          · intro refused
            cases refused
          · rintro ⟨_, same, blank⟩
            cases same
            exact absurd blank more

/-- Parsing a text is reading the value as it is written, and sorting. -/
theorem parse_eq_map (text : String) : parse text = (parseWritten text).map sorted :=
  scanAll_map (scanValue_eq_map maxDepth) text

/-- The text holds a value in which no object repeats a key. -/
def RepeatsNoKey (text : String) : Prop :=
  ∃ written, parseWritten text = .ok written ∧ written.hasDistinctKeys

section Items

variable {α : Type}

theorem map_eq_ok {ε β : Type} {f : α → β} {result : Except ε α} {b : β}
    (mapped : result.map f = .ok b) : ∃ a, result = .ok a ∧ f a = b := by
  cases result with
  | error failure => cases mapped
  | ok a => exact ⟨a, rfl, Except.ok.inj mapped⟩

/-- The items of a bracket up to its end, from the opening or from the end of an item on. -/
inductive Items (bracket : Bracket) (Item : List Char → α → List Char → Prop) :
    Bool → List Char → List α → List Char → Prop where
  | closed {first chars rest} (closing : skipBlanks chars = bracket.closing :: rest) :
      Items bracket Item first chars [] rest
  | first {chars c more item after items rest} (opens : skipBlanks chars = c :: more)
      (inside : c ≠ bracket.closing) (read : Item (c :: more) item after)
      (others : Items bracket Item false after items rest) :
      Items bracket Item true chars (item :: items) rest
  | later {chars next c more item after items rest} (comma : skipBlanks chars = ',' :: next)
      (opens : skipBlanks next = c :: more) (inside : c ≠ bracket.closing)
      (read : Item (c :: more) item after)
      (others : Items bracket Item false after items rest) :
      Items bracket Item false chars (item :: items) rest

/-- An element of an array. -/
def Element (scan : List Char → Scan α) (chars : List Char) (element : α) (rest : List Char) :
    Prop :=
  scan chars = .ok (element, rest)

/-- A member of an object. -/
inductive Member (scan : List Char → Scan α) :
    List Char → String × α → List Char → Prop where
  | mk {chars key afterKey inside value rest} (name : scanString chars = .ok (key, afterKey))
      (colon : scanColon afterKey = .ok inside) (read : scan inside = .ok (value, rest)) :
      Member scan ('"' :: chars) (key, value) rest

theorem exists_cons {closing : Char} {chars : List Char}
    (inside : ∀ rest, chars = closing :: rest → False) (empty : chars = [] → False) :
    ∃ c more, chars = c :: more ∧ c ≠ closing := by
  cases chars with
  | nil => exact absurd rfl empty
  | cons c more => exact ⟨c, more, rfl, fun same => inside more (by rw [same])⟩

/-- Elements that the loop reads are written up to the end of an array, behind those read before. -/
theorem items_of_scanElements {scan : List Char → Scan α} {steps chars rest : List Char}
    {before results : List α}
    (read : scanElements scan steps before chars = .ok (results, rest)) :
    ∃ element after elements, results = before.reverse ++ element :: elements ∧
      scan chars = .ok (element, after) ∧ Items .list (Element scan) false after elements rest := by
  induction steps generalizing before chars with
  | nil => cases read
  | cons step steps ih =>
      rw [scanElements] at read
      split at read
      · cases read
      · next element after first =>
          refine ⟨element, after, ?_⟩
          split at read
          · next closing =>
              cases read
              exact ⟨[], by simp, first, .closed closing⟩
          · next comma =>
              split at read
              · cases read
              · cases read
              · next inside empty =>
                  obtain ⟨c, more, opens, apart⟩ := exists_cons inside empty
                  rw [opens] at read
                  obtain ⟨second, last, elements, rfl, readSecond, others⟩ := ih read
                  exact ⟨second :: elements, by simp, first,
                    .later comma opens apart readSecond others⟩
          · cases read
          · cases read

theorem items_of_scanArray {scan : List Char → Scan α} {chars rest : List Char}
    {elements : List α} (read : scanArray scan chars = .ok (elements, rest)) :
    Items .list (Element scan) true chars elements rest := by
  unfold scanArray at read
  split at read
  · next closing =>
      cases read
      exact .closed closing
  · cases read
  · next inside empty =>
      obtain ⟨c, more, opens, apart⟩ := exists_cons inside empty
      rw [opens] at read
      obtain ⟨element, after, elements, rfl, first, others⟩ := items_of_scanElements read
      exact .first opens apart first others

theorem scanMember_eq_ok {scan : List Char → Scan Json} {before members : List (String × Json)}
    {key : String} {chars rest : List Char}
    (read : scanMember scan before key chars = .ok (members, rest)) :
    ∃ inside value, scanColon chars = .ok inside ∧ scan inside = .ok (value, rest) ∧
      members = before ++ [(key, value)] := by
  unfold scanMember at read
  split at read
  · next inside colon =>
      obtain ⟨⟨value, after⟩, value_read, same⟩ := map_eq_ok read
      cases same
      exact ⟨inside, value, colon, value_read, rfl⟩
  · cases read

/-- Members that the loop reads are written up to the end of an object, behind those read before. -/
theorem items_of_scanMembers {scan : List Char → Scan Json} {steps chars rest : List Char}
    {before results : List (String × Json)}
    (read : scanMembers (scanMember scan) steps before chars = .ok (results, rest)) :
    ∃ member after members, results = before ++ member :: members ∧
      Member scan chars member after ∧ Items .object (Member scan) false after members rest := by
  induction steps generalizing before chars with
  | nil => cases read
  | cons step steps ih =>
      unfold scanMembers at read
      split at read
      · split at read
        · cases read
        · next key afterKey name =>
            split at read
            · cases read
            · next state after pair =>
                obtain ⟨inside, value, colon, valueRead, rfl⟩ := scanMember_eq_ok pair
                have first := Member.mk name colon valueRead
                refine ⟨(key, value), after, ?_⟩
                split at read
                · next closing =>
                    cases read
                    exact ⟨[], by simp, first, .closed closing⟩
                · next comma =>
                    split at read
                    · cases read
                    · cases read
                    · next inside empty =>
                        obtain ⟨c, more, opens, apart⟩ := exists_cons inside empty
                        rw [opens] at read
                        obtain ⟨second, last, members, rfl, readSecond, others⟩ := ih read
                        exact ⟨second :: members, by simp, first,
                          .later comma opens apart readSecond others⟩
                · cases read
                · cases read
      · cases read

theorem items_of_scanObject {scan : List Char → Scan Json} {chars rest : List Char}
    {members : List (String × Json)}
    (read : scanObject (scanMember scan) [] chars = .ok (members, rest)) :
    Items .object (Member scan) true chars members rest := by
  unfold scanObject at read
  split at read
  · next closing =>
      cases read
      exact .closed closing
  · cases read
  · next inside empty =>
      obtain ⟨c, more, opens, apart⟩ := exists_cons inside empty
      rw [opens] at read
      obtain ⟨member, after, members, rfl, first, others⟩ := items_of_scanMembers read
      exact .first opens apart first others

end Items

/-- How a value is written, from its first character on. -/
inductive Opens : Nat → List Char → Json → List Char → Prop where
  | null {depth chars rest} (word : scanWord ['u', 'l', 'l'] chars = .ok rest) :
      Opens depth ('n' :: chars) .null rest
  | yes {depth chars rest} (word : scanWord ['r', 'u', 'e'] chars = .ok rest) :
      Opens depth ('t' :: chars) (.bool true) rest
  | no {depth chars rest} (word : scanWord ['a', 'l', 's', 'e'] chars = .ok rest) :
      Opens depth ('f' :: chars) (.bool false) rest
  | str {depth chars text rest} (read : scanString chars = .ok (text, rest)) :
      Opens depth ('"' :: chars) (.str text) rest
  | negative {depth chars number rest} (read : scanNumber true chars = .ok (number, rest)) :
      Opens depth ('-' :: chars) (.num number) rest
  | positive {depth c chars number rest} (digit : c.isDigit)
      (read : scanNumber false (c :: chars) = .ok (number, rest)) :
      Opens depth (c :: chars) (.num number) rest
  | arr {depth chars elements rest}
      (items : Items .list (Element (scanWritten depth)) true chars elements rest) :
      Opens (depth + 1) ('[' :: chars) (.arr elements) rest
  | obj {depth chars members rest}
      (items : Items .object (Member (scanWritten depth)) true chars members rest) :
      Opens (depth + 1) ('{' :: chars) (.obj members) rest

/-- A value that is read is written in one of the ways listed, by its first character. -/
theorem opens_of_scanWritten {depth : Nat} {chars rest : List Char} {written : Json}
    (read : scanWritten depth chars = .ok (written, rest)) :
    Opens depth (skipBlanks chars) written rest := by
  rw [scanWritten.eq_def] at read
  generalize skipBlanks chars = opened at read
  split at read
  · cases read
  · obtain ⟨_, word, same⟩ := map_eq_ok read
    cases same
    exact .null word
  · obtain ⟨_, word, same⟩ := map_eq_ok read
    cases same
    exact .yes word
  · obtain ⟨_, word, same⟩ := map_eq_ok read
    cases same
    exact .no word
  · obtain ⟨_, text, same⟩ := map_eq_ok read
    cases same
    exact .str text
  · obtain ⟨_, number, same⟩ := map_eq_ok read
    cases same
    exact .negative number
  · split at read
    · cases read
    · obtain ⟨_, elements, same⟩ := map_eq_ok read
      cases same
      exact .arr (items_of_scanArray elements)
  · split at read
    · cases read
    · obtain ⟨_, members, same⟩ := map_eq_ok read
      cases same
      exact .obj (items_of_scanObject members)
  · split at read
    · next digit =>
        obtain ⟨_, number, same⟩ := map_eq_ok read
        cases same
        exact .positive digit number
    · cases read

theorem skipBlanks_skipBlanks (chars : List Char) :
    skipBlanks (skipBlanks chars) = skipBlanks chars :=
  List.dropWhile_idempotent isBlank chars

theorem scanWritten_skipBlanks (depth : Nat) (chars : List Char) :
    scanWritten depth (skipBlanks chars) = scanWritten depth chars := by
  rw [scanWritten.eq_def, skipBlanks_skipBlanks, ← scanWritten.eq_def]

end Json

end SpecTranspiler

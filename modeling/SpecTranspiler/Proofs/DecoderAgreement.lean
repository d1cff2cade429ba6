import Mathlib
import SpecTranspiler.Ir.Document
import SpecTranspiler.Proofs.Skipping

/-!
# The two readings of a decoder agree

A decoder reads data from a text and from the value that the text holds. Where no object repeats
a key, both accept together and with the same result. The text is read in its own order and the
value by ascending key, so that a reading of members has to be independent of their order.
-/

namespace SpecTranspiler

namespace Json

section Agreement

variable {α β : Type} {rest : List Char}

/-- A reading of a text that ends at the given characters and one of a value accept together,
with the same result, or refuse together. -/
def Agree (rest : List Char) (scan : Scan α) (reading : Except Mismatch α) : Prop :=
  scan.toOption = reading.toOption.map (·, rest)

theorem Agree.accepted (result : α) : Agree rest (.ok (result, rest)) (.ok result) :=
  rfl

theorem Agree.refused (failure : Failure) (mismatch : Mismatch) :
    Agree rest (.error failure : Scan α) (.error mismatch) :=
  rfl

theorem Agree.cases {scan : Scan α} {reading : Except Mismatch α}
    (agree : Agree rest scan reading) :
    (∃ result, scan = .ok (result, rest) ∧ reading = .ok result) ∨
      ∃ failure mismatch, scan = .error failure ∧ reading = .error mismatch := by
  cases scan with
  | error failure =>
      cases reading with
      | error mismatch => exact .inr ⟨failure, mismatch, rfl, rfl⟩
      | ok result => cases agree
  | ok found =>
      cases reading with
      | error mismatch => cases agree
      | ok result =>
          have same : found = (result, rest) := Option.some.inj agree
          exact .inl ⟨result, by rw [same], rfl⟩

theorem Agree.map {scan : Scan α} {reading : Except Mismatch α} (agree : Agree rest scan reading)
    (f : α → β) : Agree rest (scan.map fun (a, rest) => (f a, rest)) (reading.map f) := by
  obtain ⟨result, rfl, rfl⟩ | ⟨failure, mismatch, rfl, rfl⟩ := agree.cases
  · exact .accepted (f result)
  · exact .refused failure mismatch

theorem toOption_map {ε : Type} (f : α → β) (reading : Except ε α) :
    (reading.map f).toOption = reading.toOption.map f := by
  cases reading <;> rfl

theorem toOption_bind {ε : Type} (reading : Except ε α) (next : α → Except ε β) :
    (reading >>= next).toOption = reading.toOption.bind fun a => (next a).toOption := by
  cases reading <;> rfl

theorem Agree.congr {scan : Scan α} {reading other : Except Mismatch α}
    (agree : Agree rest scan reading) (same : reading.toOption = other.toOption) :
    Agree rest scan other := by
  rw [Agree, ← same]
  exact agree

end Agreement

/-- The decoder reads the same from a text as from its value, sorted, where no object repeats a
key. -/
def Decoder.Agrees {α : Type} (decoder : Decoder α) : Prop :=
  ∀ ⦃depth : Nat⦄ ⦃chars rest : List Char⦄ ⦃written : Json⦄,
    scanWritten depth chars = .ok (written, rest) → written.hasDistinctKeys →
      Agree rest (decoder.ofText depth chars) (decoder.ofValue written.sorted)

section Elements

variable {α : Type} {decoder : Decoder α} {depth : Nat} {rest : List Char}

theorem mapM_cons_of_ok {f : Json → Except Mismatch α} {element : Json} {result : α}
    (read : f element = .ok result) (elements : List Json) :
    (element :: elements).mapM f = (elements.mapM f).map (result :: ·) := by
  rw [List.mapM_cons, read]
  rfl

theorem mapM_cons_of_error {f : Json → Except Mismatch α} {element : Json} {mismatch : Mismatch}
    (read : f element = .error mismatch) (elements : List Json) :
    (element :: elements).mapM f = .error mismatch := by
  rw [List.mapM_cons, read]
  rfl

theorem length_after_comma {after next : List Char} (comma : skipBlanks after = ',' :: next) :
    (skipBlanks next).length < after.length := by
  have first := length_skipBlanks after
  have second := length_skipBlanks next
  rw [comma, List.length_cons] at first
  omega

section Steps

variable {item : List Char → Scan α} {step : Char} {steps chars after : List Char}
  {before : List α} {element : α}

theorem scanElements_error {failure : Failure} (read : item chars = .error failure) :
    scanElements item (step :: steps) before chars = .error failure := by
  rw [scanElements, read]

theorem scanElements_closed (read : item chars = .ok (element, after))
    (closing : skipBlanks after = ']' :: rest) :
    scanElements item (step :: steps) before chars = .ok ((element :: before).reverse, rest) := by
  simp only [scanElements, read, closing]

theorem scanElements_comma {next more : List Char} {c : Char}
    (read : item chars = .ok (element, after)) (comma : skipBlanks after = ',' :: next)
    (opens : skipBlanks next = c :: more) (inside : c ≠ ']') :
    scanElements item (step :: steps) before chars =
      scanElements item steps (element :: before) (c :: more) := by
  simp [scanElements, read, comma, opens, inside]

end Steps

/-- The loop over elements agrees with reading their values one after the other. -/
theorem Decoder.Agrees.scanElements (agrees : decoder.Agrees) {steps chars after : List Char}
    {element : Json} {elements : List Json} (before : List α)
    (read : scanWritten depth chars = .ok (element, after))
    (others : Items .list (Element (scanWritten depth)) false after elements rest)
    (distinct : haveDistinctKeys (element :: elements)) (enough : chars.length ≤ steps.length) :
    Agree rest (scanElements (decoder.ofText depth) steps before chars)
      ((((element :: elements).map sorted).mapM decoder.ofValue).map (before.reverse ++ ·)) := by
  -- The steps allowed never run out, since every element shortens the text.
  induction steps generalizing chars after element elements before with
  | nil =>
      have shorter := length_of_scanWritten read
      exact absurd (Nat.lt_of_lt_of_le shorter enough) (Nat.not_lt_zero _)
  | cons step steps ih =>
      obtain ⟨here, there⟩ : element.hasDistinctKeys ∧ haveDistinctKeys elements := by
        simpa [haveDistinctKeys] using distinct
      rw [List.map_cons]
      obtain ⟨result, text, value⟩ | ⟨failure, mismatch, text, value⟩ := (agrees read here).cases
      · rw [mapM_cons_of_ok value]
        cases others with
        | closed closing =>
            rw [scanElements_closed text closing, List.reverse_cons]
            exact .accepted _
        | later comma opens inside readSecond others =>
            have shorter := length_of_scanWritten read
            have nearer := length_after_comma comma
            rw [opens] at nearer
            rw [List.length_cons] at enough
            rw [scanElements_comma text comma opens inside]
            refine (ih (result :: before) readSecond others there (by omega)).congr ?_
            rw [toOption_map, toOption_map, toOption_map]
            simp [Function.comp_def]
      · rw [scanElements_error text, mapM_cons_of_error value]
        exact .refused ..

/-- An array of a text is read as the elements of its value. -/
theorem Decoder.Agrees.scanArray (agrees : decoder.Agrees) {chars : List Char}
    {elements : List Json}
    (items : Items .list (Element (scanWritten depth)) true chars elements rest)
    (distinct : haveDistinctKeys elements) :
    Agree rest (scanArray (decoder.ofText depth) chars)
      ((elements.map sorted).mapM decoder.ofValue) := by
  cases items with
  | closed closing =>
      have closed : Json.scanArray (decoder.ofText depth) chars = .ok ([], rest) := by
        simp only [Json.scanArray, closing, Bracket.closing]
      rw [closed]
      exact .accepted []
  | @first _ c more _ _ _ _ opens inside read others =>
      have here : Json.scanArray (decoder.ofText depth) chars =
          Json.scanElements (decoder.ofText depth) (c :: more) [] (c :: more) := by
        have apart : c ≠ ']' := inside
        simp [Json.scanArray, opens, apart]
      rw [here]
      refine (agrees.scanElements [] read others distinct (Nat.le_refl _)).congr ?_
      simp [toOption_map]

end Elements

section Members

variable {σ : Type} {depth : Nat} {rest : List Char}

/-- Reading a member from a text agrees with a step over the member of the value. -/
def MemberAgrees (depth : Nat) (member : σ → String → List Char → Scan σ)
    (step : σ → String × Json → Except Mismatch σ) : Prop :=
  ∀ ⦃key : String⦄ ⦃chars inside rest : List Char⦄ ⦃value : Json⦄ (state : σ),
    scanColon chars = .ok inside → scanWritten depth inside = .ok (value, rest) →
      value.hasDistinctKeys → Agree rest (member state key chars) (step state (key, value.sorted))

theorem Member.length_lt {chars : List Char} {entry : String × Json}
    (read : Member (scanWritten depth) chars entry rest) : rest.length < chars.length := by
  obtain ⟨name, colon, value⟩ := read
  have afterKey := length_of_skipStringItems (skipString_of_scanString name)
  have afterColon := length_of_scanColon colon
  have afterValue := length_of_scanWritten value
  rw [List.length_cons]
  omega

section Steps

variable {member : σ → String → List Char → Scan σ} {step : Char}
  {steps chars afterKey after : List Char} {state next : σ} {key : String}

theorem scanMembers_error {failure : Failure} (name : scanString chars = .ok (key, afterKey))
    (read : member state key afterKey = .error failure) :
    scanMembers member (step :: steps) state ('"' :: chars) = .error failure := by
  simp only [scanMembers, name, read]

theorem scanMembers_closed (name : scanString chars = .ok (key, afterKey))
    (read : member state key afterKey = .ok (next, after))
    (closing : skipBlanks after = '}' :: rest) :
    scanMembers member (step :: steps) state ('"' :: chars) = .ok (next, rest) := by
  simp only [scanMembers, name, read, closing]

theorem scanMembers_comma {following more : List Char} {c : Char}
    (name : scanString chars = .ok (key, afterKey))
    (read : member state key afterKey = .ok (next, after))
    (comma : skipBlanks after = ',' :: following) (opens : skipBlanks following = c :: more)
    (inside : c ≠ '}') :
    scanMembers member (step :: steps) state ('"' :: chars) =
      scanMembers member steps next (c :: more) := by
  rw [scanMembers]
  simp [name, read, comma, opens, inside]

end Steps

/-- The loop over members agrees with a fold over the members of the value. -/
theorem MemberAgrees.scanMembers {member : σ → String → List Char → Scan σ}
    {step : σ → String × Json → Except Mismatch σ} (agrees : MemberAgrees depth member step)
    {steps chars after : List Char} {entry : String × Json} {entries : List (String × Json)}
    (state : σ) (read : Member (scanWritten depth) chars entry after)
    (others : Items .object (Member (scanWritten depth)) false after entries rest)
    (distinct : membersHaveDistinctKeys (entry :: entries))
    (enough : chars.length ≤ steps.length) :
    Agree rest (scanMembers member steps state chars)
      (((entry :: entries).map sortedMember).foldlM step state) := by
  induction steps generalizing chars after entry entries state with
  | nil => exact absurd (Nat.lt_of_lt_of_le read.length_lt enough) (Nat.not_lt_zero _)
  | cons _ steps ih =>
      have shorter := read.length_lt
      obtain ⟨here, there⟩ : entry.2.hasDistinctKeys ∧ membersHaveDistinctKeys entries := by
        simpa [membersHaveDistinctKeys] using distinct
      obtain ⟨name, colon, value⟩ := read
      rw [List.map_cons, List.foldlM_cons]
      obtain ⟨result, text, stepped⟩ | ⟨failure, mismatch, text, stepped⟩ :=
        (agrees state colon value here).cases
      · rw [sortedMember, stepped]
        cases others with
        | closed closing =>
            rw [scanMembers_closed name text closing]
            exact .accepted result
        | later comma opens inside readSecond others =>
            have nearer := length_after_comma comma
            rw [opens] at nearer
            simp only [List.length_cons] at enough shorter nearer
            rw [scanMembers_comma name text comma opens inside]
            exact ih result readSecond others there (by simp only [List.length_cons]; omega)
      · rw [scanMembers_error name text, sortedMember, stepped]
        exact .refused ..

/-- Steps over members with different keys may be taken in either order. -/
def Independent (step : σ → String × Json → Except Mismatch σ) : Prop :=
  ∀ (state : σ) {first second : String × Json}, first.1 ≠ second.1 →
    (step state first >>= (step · second)).toOption =
      (step state second >>= (step · first)).toOption

theorem foldl_bind_none (step : σ → String × Json → Option σ) (members : List (String × Json)) :
    members.foldl (fun reached member => reached.bind fun state => step state member) none =
      none := by
  induction members with
  | nil => rfl
  | cons _ _ ih => exact ih

theorem toOption_foldlM (step : σ → String × Json → Except Mismatch σ) (state : σ)
    (members : List (String × Json)) :
    (members.foldlM step state).toOption =
      members.foldl (fun reached member => reached.bind fun state => (step state member).toOption)
        (some state) := by
  induction members generalizing state with
  | nil => rfl
  | cons member rest ih =>
      rw [List.foldlM_cons, toOption_bind, List.foldl_cons, Option.bind_some]
      cases step state member with
      | error mismatch => exact (foldl_bind_none _ rest).symm
      | ok next => exact ih next

/-- Independent steps take members with distinct keys in any order. -/
theorem Independent.foldlM_perm {step : σ → String × Json → Except Mismatch σ}
    (independent : Independent step) {members others : List (String × Json)}
    (perm : members.Perm others) (distinct : (members.map Prod.fst).Nodup) (state : σ) :
    (members.foldlM step state).toOption = (others.foldlM step state).toOption := by
  rw [toOption_foldlM, toOption_foldlM]
  refine perm.foldl_eq' (fun first firstIn second secondIn reached => ?_) (some state)
  by_cases same : first.1 = second.1
  -- Members with one key are the same member, whose order with itself does not matter.
  · rw [List.inj_on_of_nodup_map distinct firstIn secondIn same]
  · cases reached with
    | none => rfl
    | some state =>
        simpa only [toOption_bind, Option.bind_some] using independent state same

/-- An object of a text is read as the members of its value, which are visited by ascending key. -/
theorem MemberAgrees.scanObject {member : σ → String → List Char → Scan σ}
    {step : σ → String × Json → Except Mismatch σ} (agrees : MemberAgrees depth member step)
    (independent : Independent step) {chars : List Char} {members : List (String × Json)}
    (items : Items .object (Member (scanWritten depth)) true chars members rest)
    (distinct : (Json.obj members).hasDistinctKeys) (start : σ) :
    Agree rest (scanObject member start chars)
      ((sortedMembers [] members).foldlM step start) := by
  obtain ⟨keys, inner⟩ : (members.map Prod.fst).Nodup ∧ membersHaveDistinctKeys members := by
    simpa [hasDistinctKeys] using distinct
  have sameKeys : (members.map sortedMember).map Prod.fst = members.map Prod.fst := by
    simp [sortedMember, Function.comp_def]
  have perm : (sortedMembers [] members).Perm ([] ++ members.map sortedMember) :=
    sortedMembers_perm keys
  have order := independent.foldlM_perm perm.symm (sameKeys ▸ keys) start
  refine Agree.congr ?_ order
  cases items with
  | closed closing =>
      have closed : Json.scanObject member start chars = .ok (start, rest) := by
        simp only [Json.scanObject, closing, Bracket.closing]
      rw [closed]
      exact .accepted start
  | @first _ c more _ _ _ _ opens inside read others =>
      have here : Json.scanObject member start chars =
          Json.scanMembers member (c :: more) start (c :: more) := by
        have apart : c ≠ '}' := inside
        simp [Json.scanObject, opens, apart]
      rw [here]
      exact agrees.scanMembers start read others inner (Nat.le_refl _)

end Members

namespace Decoder

variable {α : Type} {decoder : Decoder α}

theorem value_agrees : Decoder.value.Agrees := by
  intro depth chars rest written read _
  have text : value.ofText depth chars = .ok (written.sorted, rest) := by
    change scanValue depth chars = _
    rw [scanValue_eq_map, read]
    rfl
  rw [text]
  exact .accepted _

/-- A string is read alike from a text and from its value. -/
theorem string_agrees : Decoder.string.Agrees := by
  intro depth chars rest written read _
  have opens := opens_of_scanWritten read
  unfold string
  dsimp only
  split
  · next quoted =>
      rw [quoted] at opens
      cases opens with
      | str text =>
          rw [text]
          exact .accepted _
      | positive digit => exact absurd digit (by decide)
  · next unquoted =>
      generalize skipBlanks chars = opened at opens unquoted
      cases opens with
      | str text => exact absurd rfl (unquoted _)
      | _ => exact .refused ..

/-- Data that may be null is read alike if the data is. A value that starts with the letter of the
word is null, since nothing else starts with it. -/
theorem nullable_agrees (agrees : decoder.Agrees) : decoder.nullable.Agrees := by
  intro depth chars rest written read distinct
  have opens := opens_of_scanWritten read
  unfold nullable
  dsimp only
  split
  · next named =>
      rw [named] at opens
      cases opens with
      | null word =>
          rw [word]
          exact .accepted none
      | positive digit => exact absurd digit (by decide)
  · next unnamed =>
      rw [← scanWritten_skipBlanks] at read
      have agree := (agrees read distinct).map some
      generalize skipBlanks chars = opened at opens unnamed agree
      cases opens with
      | null word => exact absurd rfl (unnamed _)
      | _ => exact agree

/-- An array is read alike if its elements are. -/
theorem list_agrees (agrees : decoder.Agrees) : decoder.list.Agrees := by
  intro depth chars rest written read distinct
  have opens := opens_of_scanWritten read
  unfold list
  dsimp only
  split
  · next bracket =>
      rw [bracket] at opens
      cases opens with
      | arr items =>
          have agree := agrees.scanArray items (by simpa [hasDistinctKeys] using distinct)
          simpa only [sorted, sortedAll_eq_map] using agree
      | positive digit => exact absurd digit (by decide)
  · next other =>
      generalize skipBlanks chars = opened at opens other
      cases opens with
      | arr items => exact absurd rfl (other _)
      | _ => exact .refused ..

theorem tableMember_agrees (agrees : decoder.Agrees) (depth : Nat) :
    MemberAgrees depth (decoder.tableMember depth)
      fun table (key, value) => (decoder.ofValue value).map (table.insert key ·) := by
  intro key chars inside rest value table colon read distinct
  unfold tableMember
  rw [colon]
  exact (agrees read distinct).map (table.insert key ·)

theorem tableStep_independent (decoder : Decoder α) :
    Independent fun (table : Assoc String α) (key, value) =>
      (decoder.ofValue value).map (table.insert key ·) := by
  rintro table ⟨first, firstValue⟩ ⟨second, secondValue⟩ distinct
  dsimp only
  cases decoder.ofValue firstValue with
  | error mismatch => cases decoder.ofValue secondValue <;> rfl
  | ok a =>
      cases decoder.ofValue secondValue with
      | error mismatch => rfl
      | ok b => exact congrArg some (Assoc.insert_comm distinct a b table)

/-- A table is read alike if its values are. -/
theorem table_agrees (agrees : decoder.Agrees) : decoder.table.Agrees := by
  intro depth chars rest written read distinct
  have opens := opens_of_scanWritten read
  unfold table
  dsimp only
  split
  · next brace =>
      rw [brace] at opens
      cases opens with
      | obj items =>
          have agree := (tableMember_agrees agrees _).scanObject
            (tableStep_independent decoder) items distinct []
          simpa only [sorted] using agree
      | positive digit => exact absurd digit (by decide)
  · next other =>
      generalize skipBlanks chars = opened at opens other
      cases opens with
      | obj items => exact absurd rfl (other _)
      | _ => exact .refused ..

end Decoder

namespace Slot

variable {α β σ : Type}

/-- The field reads the same from a text as from its value. -/
def Agrees (slot : Slot σ) : Prop :=
  ∀ ⦃depth : Nat⦄ ⦃chars rest : List Char⦄ ⦃written : Json⦄ (draft : σ),
    scanWritten depth chars = .ok (written, rest) → written.hasDistinctKeys →
      Agree rest (slot.ofText depth draft chars) (slot.ofValue draft written.sorted)

/-- Reading one field neither fills the other nor changes what is read of it. -/
structure Apart (first second : Slot σ) : Prop where
  filled : ∀ {draft next : σ} {value : Json}, first.ofValue draft value = .ok next →
    second.filled next = second.filled draft
  commutes : ∀ (draft : σ) (value other : Json),
    (first.ofValue draft value >>= (second.ofValue · other)).toOption =
      (second.ofValue draft other >>= (first.ofValue · value)).toOption

theorem of_agrees {key : String} {decoder : Decoder α} {get : σ → Option α} {set : σ → α → σ}
    {default : Option α} (agrees : decoder.Agrees) :
    (Slot.of key decoder get set default).Agrees :=
  fun _ _ _ _ draft read distinct => (agrees read distinct).map (set draft ·)

/-- Fields that fill different places of a draft are apart. -/
theorem of_apart {key key' : String} {decoder : Decoder α} {decoder' : Decoder β}
    {get : σ → Option α} {get' : σ → Option β} {set : σ → α → σ} {set' : σ → β → σ}
    {default : Option α} {default' : Option β} (keeps : ∀ draft a, get' (set draft a) = get' draft)
    (commutes : ∀ draft a b, set' (set draft a) b = set (set' draft b) a) :
    (Slot.of key decoder get set default).Apart (Slot.of key' decoder' get' set' default') where
  filled {draft next value} read := by
    obtain ⟨a, -, rfl⟩ := map_eq_ok read
    exact congrArg Option.isSome (keeps draft a)
  commutes draft value other := by
    dsimp only [Slot.of]
    cases decoder.ofValue value with
    | error mismatch => cases decoder'.ofValue other <;> rfl
    | ok a =>
        cases decoder'.ofValue other with
        | error mismatch => rfl
        | ok b => exact congrArg some (commutes draft a b)

end Slot

namespace Record

variable {σ α : Type} {record : Record σ α}

/-- The fields of the record read the same from a text as from a value, and those with
different keys do not touch each other. -/
structure Lawful (record : Record σ α) : Prop where
  agrees : ∀ slot ∈ record.slots, slot.Agrees
  apart : ∀ first ∈ record.slots, ∀ second ∈ record.slots, first.key ≠ second.key →
    first.Apart second

theorem slot?_eq_some {key : String} {slot : Slot σ} (found : record.slot? key = some slot) :
    slot ∈ record.slots ∧ slot.key = key := by
  refine ⟨List.mem_of_find?_eq_some found, ?_⟩
  simpa using List.find?_some found

theorem textMember_agrees (lawful : record.Lawful) (depth : Nat) :
    MemberAgrees depth (record.textMember depth) record.valueMember := by
  intro key chars inside rest value draft colon read distinct
  unfold textMember valueMember
  dsimp only
  split
  · next slot found =>
      split
      · exact .refused ..
      · rw [colon]
        exact lawful.agrees slot (slot?_eq_some found).1 draft read distinct
  · simp only [colon, skipValue_of_scanWritten read]
    exact .accepted draft

section Order

variable {draft : σ} {first second : String × Json} {slot other : Slot σ}

theorem valueMember_of_unknown {member : String × Json} (unknown : record.slot? member.1 = none)
    (draft : σ) : record.valueMember draft member = .ok draft := by
  rw [valueMember, unknown]

theorem valueMember_of_filled (found : record.slot? first.1 = some slot)
    (filled : slot.filled draft) :
    record.valueMember draft first = .error (.duplicateField first.1) := by
  rw [valueMember, found]
  exact if_pos filled

theorem valueMember_of_empty (found : record.slot? first.1 = some slot)
    (empty : ¬slot.filled draft) :
    record.valueMember draft first = slot.ofValue draft first.2 := by
  rw [valueMember, found]
  exact if_neg empty

/-- A field that is filled stays filled while another is read, so that reading it again is
refused. -/
theorem valueMember_then_filled (found : record.slot? first.1 = some slot)
    (foundOther : record.slot? second.1 = some other) (apart : other.Apart slot)
    (filled : slot.filled draft) :
    (record.valueMember draft second >>= (record.valueMember · first)).toOption = none := by
  by_cases full : other.filled draft
  · rw [valueMember_of_filled foundOther full]
    rfl
  · rw [valueMember_of_empty foundOther full]
    cases read : other.ofValue draft second.2 with
    | error mismatch => rfl
    | ok next =>
        have still : slot.filled next := by rw [apart.filled read, filled]
        change (record.valueMember next first).toOption = none
        rw [valueMember_of_filled found still]
        rfl

theorem valueMember_then_empty (found : record.slot? first.1 = some slot)
    (foundOther : record.slot? second.1 = some other) (apart : slot.Apart other)
    (empty : ¬slot.filled draft) (emptyOther : ¬other.filled draft) :
    (record.valueMember draft first >>= (record.valueMember · second)) =
      (slot.ofValue draft first.2 >>= (other.ofValue · second.2)) := by
  rw [valueMember_of_empty found empty]
  cases read : slot.ofValue draft first.2 with
  | error mismatch => rfl
  | ok next =>
      have still : ¬other.filled next := by rwa [apart.filled read]
      exact valueMember_of_empty foundOther still

end Order

/-- The members of a record may be read in either order. A member that nobody asks for changes
nothing, and of two fields neither fills the other. -/
theorem valueMember_independent (lawful : record.Lawful) : Independent record.valueMember := by
  intro draft first second distinct
  cases found : record.slot? first.1 with
  | none =>
      simp only [valueMember_of_unknown found]
      exact congrArg Except.toOption (bind_pure (record.valueMember draft second)).symm
  | some slot =>
      cases foundOther : record.slot? second.1 with
      | none =>
          simp only [valueMember_of_unknown foundOther]
          exact congrArg Except.toOption (bind_pure (record.valueMember draft first))
      | some other =>
          obtain ⟨slotIn, slotKey⟩ := slot?_eq_some found
          obtain ⟨otherIn, otherKey⟩ := slot?_eq_some foundOther
          have keys : slot.key ≠ other.key := by rwa [slotKey, otherKey]
          have apart := lawful.apart slot slotIn other otherIn keys
          have apart' := lawful.apart other otherIn slot slotIn keys.symm
          by_cases filled : slot.filled draft
          · rw [valueMember_then_filled found foundOther apart' filled,
              valueMember_of_filled found filled]
            rfl
          · by_cases full : other.filled draft
            · rw [valueMember_then_filled foundOther found apart full,
                valueMember_of_filled foundOther full]
              rfl
            · rw [valueMember_then_empty found foundOther apart filled full,
                valueMember_then_empty foundOther found apart' full filled]
              exact apart.commutes draft first.2 second.2

theorem complete_agrees (record : Record σ α) (draft : σ) (rest : List Char) :
    Agree rest
      (match record.complete draft with
        | .ok result => .ok (result, rest)
        | .error detail => .error (.before (.mismatch detail) rest))
      (record.complete draft) := by
  cases record.complete draft with
  | error detail => exact .refused ..
  | ok result => exact .accepted result

theorem textObject_agrees (lawful : record.Lawful) {depth : Nat} {chars rest : List Char}
    {members : List (String × Json)}
    (items : Items .object (Member (scanWritten depth)) true chars members rest)
    (distinct : (Json.obj members).hasDistinctKeys) :
    Agree rest (record.textObject depth chars)
      (record.ofValue (.obj (sortedMembers [] members))) := by
  have agree := (textMember_agrees lawful depth).scanObject (valueMember_independent lawful)
    items distinct record.start
  rw [textObject, ofValue]
  obtain ⟨draft, text, value⟩ | ⟨failure, mismatch, text, value⟩ := agree.cases
  · rw [text, value]
    exact record.complete_agrees draft rest
  · rw [text, value]
    exact .refused ..

section Elements

variable {depth : Nat} {chars rest : List Char} {elements : List Json}

theorem nextElement_of_items {element : Json} {first : Bool}
    (items : Items .list (Element (scanWritten depth)) first chars (element :: elements) rest) :
    ∃ next after, nextElement first chars = .ok (some next) ∧
      scanWritten depth next = .ok (element, after) ∧
        Items .list (Element (scanWritten depth)) false after elements rest := by
  cases items with
  | first opens inside read others =>
      refine ⟨_, _, ?_, read, others⟩
      have apart : _ ≠ ']' := inside
      simp [nextElement, opens]
  | later comma opens inside read others =>
      refine ⟨_, _, ?_, read, others⟩
      have apart : _ ≠ ']' := inside
      simp [nextElement, comma, opens, apart]

theorem closing_of_items {first : Bool}
    (items : Items .list (Element (scanWritten depth)) first chars [] rest) :
    skipBlanks chars = ']' :: rest := by
  cases items with
  | closed closing => exact closing

theorem nextElement_closed (closing : skipBlanks chars = ']' :: rest) (first : Bool) :
    nextElement first chars = .ok none := by
  simp only [nextElement, closing]

theorem closeArray_closed (closing : skipBlanks chars = ']' :: rest) :
    closeArray chars = .ok rest := by
  simp only [closeArray, closing]

/-- An array does not close in front of an element. -/
theorem closeArray_of_items {element : Json} {first : Bool}
    (items : Items .list (Element (scanWritten depth)) first chars (element :: elements) rest) :
    ∃ failure, closeArray chars = .error failure := by
  have open' : ∀ more, skipBlanks chars ≠ ']' :: more := by
    intro more closing
    cases items with
    | first opens inside => exact inside (List.cons.inj (opens.symm.trans closing)).1
    | later comma => exact absurd (List.cons.inj (comma.symm.trans closing)).1 (by decide)
  unfold closeArray
  split
  · next closing => exact absurd closing (open' _)
  · exact ⟨_, rfl⟩
  · split <;> exact ⟨_, rfl⟩
  · exact ⟨_, rfl⟩

/-- Reading the fields in order refuses a text and its value together, or takes the same
elements from both, so that those left are what stands at the place reached. -/
theorem textElements_agrees (record : Record σ α) {slots : List (Slot σ)}
    (agrees : ∀ slot ∈ slots, slot.Agrees) (index : Nat) (draft : σ)
    (items : Items .list (Element (scanWritten depth)) (index == 0) chars elements rest)
    (distinct : haveDistinctKeys elements) :
    (∃ failure mismatch, record.textElements depth slots index draft chars = .error failure ∧
      record.valueElements slots index draft (elements.map sorted) = .error mismatch) ∨
    ∃ result reached first left,
      record.textElements depth slots index draft chars = .ok (result, reached) ∧
        record.valueElements slots index draft (elements.map sorted) =
          .ok (result, left.map sorted) ∧
        Items .list (Element (scanWritten depth)) first reached left rest := by
  induction slots generalizing index draft chars elements with
  | nil =>
      refine .inr ⟨draft, chars, index == 0, elements, rfl, ?_, items⟩
      rw [valueElements]
  | cons slot slots ih =>
      have others : ∀ slot ∈ slots, slot.Agrees :=
        fun slot held => agrees slot (List.mem_cons_of_mem _ held)
      cases elements with
      | nil =>
          have closing := closing_of_items items
          rw [textElements, nextElement_closed closing, List.map_nil, valueElements]
          cases slot.absent draft with
          | none => exact .inl ⟨_, _, rfl, rfl⟩
          | some filled => exact ih others (index + 1) filled (.closed closing) distinct
      | cons element elements =>
          obtain ⟨here, there⟩ : element.hasDistinctKeys ∧ haveDistinctKeys elements := by
            simpa [haveDistinctKeys] using distinct
          obtain ⟨next, after, found, read, items⟩ := nextElement_of_items items
          rw [textElements, found, List.map_cons, valueElements]
          obtain ⟨filled, text, value⟩ | ⟨failure, mismatch, text, value⟩ :=
            (agrees slot List.mem_cons_self draft read here).cases
          · simp only [text, value]
            exact ih others (index + 1) filled items there
          · simp only [text, value]
            exact .inl ⟨_, _, rfl, rfl⟩

/-- A record that is written as an array is read alike, and refused alike when elements are left
over. -/
theorem textArray_agrees (lawful : record.Lawful)
    (items : Items .list (Element (scanWritten depth)) true chars elements rest)
    (distinct : haveDistinctKeys elements) :
    Agree rest (record.textArray depth chars) (record.ofValue (.arr (elements.map sorted))) := by
  rw [textArray, ofValue]
  obtain ⟨failure, mismatch, text, value⟩ | ⟨draft, reached, first, left, text, value, items⟩ :=
    record.textElements_agrees lawful.agrees 0 record.start items distinct
  · rw [text, value]
    exact .refused ..
  · rw [text, value]
    cases left with
    | nil =>
        simp only [closeArray_closed (closing_of_items items)]
        exact record.complete_agrees draft rest
    | cons element left =>
        obtain ⟨failure, refused⟩ := closeArray_of_items items
        simp only [refused]
        exact .refused ..

end Elements

/-- A record whose fields are read alike is read alike itself, in either way of writing it. -/
theorem decoder_agrees (lawful : record.Lawful) : record.decoder.Agrees := by
  intro depth chars rest written read distinct
  have opens := opens_of_scanWritten read
  unfold decoder
  dsimp only
  split
  · next bracket =>
      rw [bracket] at opens
      cases opens with
      | arr items =>
          have agree := textArray_agrees lawful items (by simpa [hasDistinctKeys] using distinct)
          simpa only [sorted, sortedAll_eq_map] using agree
      | positive digit => exact absurd digit (by decide)
  · next brace =>
      rw [brace] at opens
      cases opens with
      | obj items => exact textObject_agrees lawful items distinct
      | positive digit => exact absurd digit (by decide)
  · next noBracket noBrace =>
      generalize skipBlanks chars = opened at opens noBracket noBrace
      cases opens with
      -- Scalars are refused on both sides, whatever they are.
      | arr items => exact absurd rfl (noBracket _)
      | obj items => exact absurd rfl (noBrace _)
      | _ => exact .refused ..

theorem Lawful.single {slot : Slot σ} (slots : record.slots = [slot]) (agrees : slot.Agrees) :
    record.Lawful where
  agrees := by
    rw [slots]
    exact List.forall_mem_singleton.mpr agrees
  apart := by
    intro first firstIn second secondIn distinct
    rw [slots, List.mem_singleton] at firstIn secondIn
    exact absurd (by rw [firstIn, secondIn]) distinct

theorem Lawful.pair {one two : Slot σ} (slots : record.slots = [one, two]) (agrees : one.Agrees)
    (agrees' : two.Agrees) (apart : one.Apart two) (apart' : two.Apart one) :
    record.Lawful where
  agrees := by
    rw [slots]
    exact List.forall_mem_cons.mpr ⟨agrees, List.forall_mem_singleton.mpr agrees'⟩
  apart := by
    intro first firstIn second secondIn distinct
    rw [slots, List.mem_pair] at firstIn secondIn
    obtain rfl | rfl := firstIn <;> obtain rfl | rfl := secondIn
    · exact absurd rfl distinct
    · exact apart
    · exact apart'
    · exact absurd rfl distinct

end Record

/-- The two readings of a decoder give the same results. -/
theorem Decoder.Agrees.decode {α : Type} {decoder : Decoder α} (agrees : decoder.Agrees)
    {text : String} {value : Json} (parsed : parse text = .ok value)
    (distinct : RepeatsNoKey text) (result : α) :
    decoder.decodeText text = .ok result ↔ decoder.decodeValue value = .ok result := by
  obtain ⟨written, whole, keys⟩ := distinct
  have sorted : value = written.sorted := by
    rw [parse_eq_map, whole] at parsed
    exact (Except.ok.inj parsed).symm
  obtain ⟨rest, read, blank⟩ := scanAll_eq_ok.mp whole
  subst sorted
  rw [decodeText, decodeValue, scanAll_eq_ok]
  obtain ⟨found, text, value⟩ | ⟨failure, mismatch, text, value⟩ := (agrees read keys).cases
  · rw [text, value]
    constructor
    · rintro ⟨_, same, -⟩
      cases same
      rfl
    · intro same
      cases same
      exact ⟨rest, rfl, blank⟩
  · rw [text, value]
    constructor
    · rintro ⟨_, same, -⟩
      cases same
    · intro same
      cases same

end Json

namespace Document

open Json (Decoder Record Slot)

theorem typeRecord_lawful : typeRecord.Lawful :=
  .single rfl (Slot.of_agrees (Decoder.nullable_agrees Decoder.string_agrees))

theorem entryRecord_lawful : entryRecord.Lawful :=
  .single rfl (Slot.of_agrees (Record.decoder_agrees typeRecord_lawful))

theorem moduleRecord_lawful : moduleRecord.Lawful :=
  .pair rfl (Slot.of_agrees Decoder.string_agrees)
    (Slot.of_agrees (Decoder.list_agrees Decoder.value_agrees))
    (Slot.of_apart (fun _ _ => rfl) (fun _ _ _ => rfl))
    (Slot.of_apart (fun _ _ => rfl) (fun _ _ _ => rfl))

theorem documentRecord_lawful : documentRecord.Lawful :=
  .pair rfl
    (Slot.of_agrees (Decoder.table_agrees (Record.decoder_agrees entryRecord_lawful)))
    (Slot.of_agrees (Decoder.list_agrees (Record.decoder_agrees moduleRecord_lawful)))
    (Slot.of_apart (fun _ _ => rfl) (fun _ _ _ => rfl))
    (Slot.of_apart (fun _ _ => rfl) (fun _ _ _ => rfl))

/-- A document is decoded from a text exactly as from the value that the text holds, if no object
of the text repeats a key. -/
theorem ofText_eq_ok_iff_ofValue {text : String} {value : Json}
    (parsed : Json.parse text = .ok value) (distinct : Json.RepeatsNoKey text)
    (document : Document) :
    ofText text = .ok document ↔ ofValue value = .ok document :=
  (Record.decoder_agrees documentRecord_lawful).decode parsed distinct document

/-- A text that spells records as objects and as arrays, in an order of its own, with members
that nobody asks for. -/
def mixedText : String :=
  "\x7b\"id\":[1,\"\\ud83d\\ude00\"]," ++
    "\"modules\":[[\"M\",[\x7b\x7d]],\x7b\"id\":0,\"name\":\"N\",\"declarations\":[]\x7d]," ++
    "\"types\":\x7b\"2\":\x7b\"type\":\x7b\"name\":null\x7d\x7d," ++
    "\"1\":[\x7b\"id\":0,\"name\":\"T\"\x7d],\"3\":\x7b\"type\":[]\x7d\x7d\x7d"

/-- The value of `mixedText`. -/
def mixedValue : Json :=
  .obj [
    ("id", .arr [.num (.int 1), .str "😀"]),
    ("modules", .arr [
      .arr [.str "M", .arr [.obj []]],
      .obj [("declarations", .arr []), ("id", .num (.int 0)), ("name", .str "N")]]),
    ("types", .obj [
      ("1", .arr [.obj [("id", .num (.int 0)), ("name", .str "T")]]),
      ("2", .obj [("type", .obj [("name", .null)])]),
      ("3", .obj [("type", .arr [])])])]

/-- The document of `mixedText`. -/
def mixedDocument : Document where
  types := [("1", some "T"), ("2", none), ("3", none)]
  modules := [⟨"M", [.obj []]⟩, ⟨"N", []⟩]

theorem mixedText_decodes_alike :
    Json.parse mixedText = .ok mixedValue ∧ Json.RepeatsNoKey mixedText ∧
      ofValue mixedValue = .ok mixedDocument ∧ ofText mixedText = .ok mixedDocument := by
  have parsed : Json.parse mixedText = .ok mixedValue := by cbv
  have distinct : Json.RepeatsNoKey mixedText := ⟨_, by cbv, by cbv⟩
  have value : ofValue mixedValue = .ok mixedDocument := by cbv
  exact ⟨parsed, distinct, value,
    (ofText_eq_ok_iff_ofValue parsed distinct mixedDocument).mpr value⟩

-- A repeated key is refused in the text, and cannot be seen in the value.
example :
    (ofText "\x7b\"modules\":[],\"modules\":[]\x7d").toOption.isSome = false ∧
      ((Json.parse "\x7b\"modules\":[],\"modules\":[]\x7d").toOption.bind
        fun value => (ofValue value).toOption).isSome = true := by
  cbv

end Document

end SpecTranspiler

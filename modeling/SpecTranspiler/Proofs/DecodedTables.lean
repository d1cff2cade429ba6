import SpecTranspiler.Proofs.DecoderAgreement

/-!
# The type table of a decoded document is sorted

The index of named types needs a table whose keys ascend. A table is decoded by storing one entry
after the other, so that its keys do, whatever the order in which they were written, and also where
a text repeats them. `Decoder.Gives` is a property of everything that a decoder reads, from a text
or from a value. A record has it if its fields keep a property of the draft from which the record is
put together.
-/

namespace SpecTranspiler

namespace Json

section Loops

variable {σ : Type} {Kept : σ → Prop}

/-- What the steps keep is kept by a fold that does not fail. -/
theorem foldlM_keeps {α ε : Type} {step : σ → α → Except ε σ} {inputs : List α}
    (keeps : ∀ a ∈ inputs, ∀ ⦃state next : σ⦄, Kept state → step state a = .ok next → Kept next)
    {state final : σ} (holds : Kept state) (folded : inputs.foldlM step state = .ok final) :
    Kept final := by
  induction inputs generalizing state with
  | nil =>
      cases folded
      exact holds
  | cons a inputs ih =>
      rw [List.foldlM_cons] at folded
      cases stepped : step state a with
      | error failure =>
          rw [stepped] at folded
          cases folded
      | ok next =>
          rw [stepped] at folded
          refine ih (fun b member => ?_) (keeps a List.mem_cons_self holds stepped) folded
          exact keeps b (List.mem_cons_of_mem a member)

variable {member : σ → String → List Char → Scan σ} {state final : σ} {chars rest : List Char}

/-- What reading a member keeps is kept by the loop over members. -/
theorem scanMembers_keeps
    (keeps : ∀ {state next : σ} {key : String} {chars rest : List Char},
      Kept state → member state key chars = .ok (next, rest) → Kept next)
    {steps : List Char} (holds : Kept state)
    (read : scanMembers member steps state chars = .ok (final, rest)) : Kept final := by
  induction steps generalizing state chars with
  | nil => cases read
  | cons step steps ih =>
      unfold scanMembers at read
      split at read
      · split at read
        · cases read
        · split at read
          · cases read
          · next stepped =>
              have kept := keeps holds stepped
              split at read
              · cases read
                exact kept
              · split at read
                · cases read
                · cases read
                · exact ih kept read
              · cases read
              · cases read
      · cases read

theorem scanObject_keeps
    (keeps : ∀ {state next : σ} {key : String} {chars rest : List Char},
      Kept state → member state key chars = .ok (next, rest) → Kept next)
    (holds : Kept state) (read : scanObject member state chars = .ok (final, rest)) :
    Kept final := by
  unfold scanObject at read
  split at read
  · cases read
    exact holds
  · cases read
  · exact scanMembers_keeps keeps holds read

end Loops

/-- Every result of the decoder has a property. -/
structure Decoder.Gives {α : Type} (decoder : Decoder α) (Good : α → Prop) : Prop where
  ofText : ∀ {depth : Nat} {chars rest : List Char} {result : α},
    decoder.ofText depth chars = .ok (result, rest) → Good result
  ofValue : ∀ {value : Json} {result : α}, decoder.ofValue value = .ok result → Good result

namespace Decoder

variable {α : Type}

theorem any_gives (decoder : Decoder α) : decoder.Gives fun _ => True :=
  ⟨fun _ => trivial, fun _ => trivial⟩

theorem tableMember_keeps_sorted (decoder : Decoder α) {depth : Nat} {table next : Assoc String α}
    {key : String} {chars rest : List Char} (sorted : table.Sorted)
    (read : decoder.tableMember depth table key chars = .ok (next, rest)) : next.Sorted := by
  unfold tableMember at read
  split at read
  · cases read
  · obtain ⟨⟨result, after⟩, -, same⟩ := map_eq_ok read
    cases same
    exact Assoc.sorted_insert sorted key result

/-- The keys of a decoded table ascend. -/
theorem table_gives_sorted (decoder : Decoder α) : decoder.table.Gives Assoc.Sorted where
  ofText {depth chars rest result} read := by
    dsimp only [table] at read
    split at read
    · split at read
      · cases read
      · exact scanObject_keeps decoder.tableMember_keeps_sorted .nil read
    · cases read
  ofValue {value result} read := by
    dsimp only [table] at read
    split at read
    · refine foldlM_keeps (fun member _ _ _ sorted stepped => ?_) List.Pairwise.nil read
      obtain ⟨a, -, rfl⟩ := map_eq_ok stepped
      exact Assoc.sorted_insert sorted _ a
    · cases read

/-- What holds of every result of a decoder holds of what it decodes from a whole text. -/
theorem Gives.decodeText {decoder : Decoder α} {Good : α → Prop} (gives : decoder.Gives Good)
    {text : String} {result : α} (read : decoder.decodeText text = .ok result) : Good result := by
  obtain ⟨rest, scanned, -⟩ := scanAll_eq_ok.mp read
  exact gives.ofText scanned

theorem Gives.decodeValue {decoder : Decoder α} {Good : α → Prop} (gives : decoder.Gives Good)
    {value : Json} {result : α} (read : decoder.decodeValue value = .ok result) :
    Good result := by
  unfold Decoder.decodeValue at read
  cases found : decoder.ofValue value with
  | error mismatch =>
      rw [found] at read
      cases read
  | ok other =>
      rw [found] at read
      cases read
      exact gives.ofValue found

end Decoder

/-- The field keeps a property of the draft, whether it is read or left out. -/
structure Slot.Keeps {σ : Type} (slot : Slot σ) (Kept : σ → Prop) : Prop where
  ofText : ∀ {depth : Nat} {draft next : σ} {chars rest : List Char}, Kept draft →
    slot.ofText depth draft chars = .ok (next, rest) → Kept next
  ofValue : ∀ {draft next : σ} {value : Json}, Kept draft →
    slot.ofValue draft value = .ok next → Kept next
  absent : ∀ {draft next : σ}, Kept draft → slot.absent draft = some next → Kept next

/-- A field keeps what is kept by filling its place with any result of its decoder, and with what
stands for it when it is left out. -/
theorem Slot.of_keeps {α σ : Type} {key : String} {decoder : Decoder α} {get : σ → Option α}
    {set : σ → α → σ} {default : Option α} {Good : α → Prop} {Kept : σ → Prop}
    (gives : decoder.Gives Good) (otherwise : ∀ a ∈ default, Good a)
    (filled : ∀ {draft : σ} {a : α}, Kept draft → Good a → Kept (set draft a)) :
    (Slot.of key decoder get set default).Keeps Kept where
  ofText holds read := by
    obtain ⟨⟨a, rest⟩, scanned, same⟩ := map_eq_ok read
    cases same
    exact filled holds (gives.ofText scanned)
  ofValue holds read := by
    obtain ⟨a, found, rfl⟩ := map_eq_ok read
    exact filled holds (gives.ofValue found)
  absent holds left := by
    obtain ⟨a, given, rfl⟩ := Option.map_eq_some_iff.mp left
    exact filled holds (otherwise a given)

namespace Record

variable {σ α : Type} {record : Record σ α} {Kept : σ → Prop} {Good : α → Prop}
  {draft : σ} {depth : Nat} {chars rest : List Char} {result : α}

/-- A property of drafts that holds at the start, is kept by every field, and becomes one of the
finished record. -/
structure Preserves (record : Record σ α) (Kept : σ → Prop) (Good : α → Prop) : Prop where
  start : Kept record.start
  slots : ∀ slot ∈ record.slots, slot.Keeps Kept
  finish : ∀ {draft : σ} {result : α}, Kept draft → record.finish draft = some result →
    Good result

/-- Completing a draft fills the fields that were left out, each of which keeps the property. -/
theorem Preserves.complete (preserves : record.Preserves Kept Good) (holds : Kept draft)
    (completed : record.complete draft = .ok result) : Good result := by
  unfold Record.complete at completed
  dsimp only at completed
  split at completed
  · cases completed
  · next final folded =>
      have kept : Kept final := by
        refine foldlM_keeps (fun slot member draft next holds filled => ?_) holds folded
        split at filled
        · cases filled
          exact holds
        · split at filled
          · next left =>
              cases filled
              exact (preserves.slots slot member).absent holds left
          · cases filled
      split at completed
      · next finished =>
          cases completed
          exact preserves.finish kept finished
      · cases completed

/-- Reading a member of an object keeps the property, also where nobody asks for the member. -/
theorem Preserves.textMember (preserves : record.Preserves Kept Good) {next : σ} {key : String}
    (holds : Kept draft) (read : record.textMember depth draft key chars = .ok (next, rest)) :
    Kept next := by
  unfold Record.textMember at read
  split at read
  · next slot found =>
      split at read
      · cases read
      · split at read
        · exact (preserves.slots slot (slot?_eq_some found).1).ofText holds read
        · cases read
  · split at read
    · obtain ⟨after, -, same⟩ := map_eq_ok read
      cases same
      exact holds
    · cases read

/-- Reading the fields in order from a text keeps the property. -/
theorem Preserves.textElements (preserves : record.Preserves Kept Good) {slots : List (Slot σ)}
    (fields : slots ⊆ record.slots) {index : Nat} {final : σ} (holds : Kept draft)
    (read : record.textElements depth slots index draft chars = .ok (final, rest)) :
    Kept final := by
  induction slots generalizing index draft chars with
  | nil =>
      cases read
      exact holds
  | cons slot slots ih =>
      obtain ⟨here, others⟩ := List.cons_subset.mp fields
      have keeps := preserves.slots slot here
      unfold Record.textElements at read
      split at read
      · cases read
      · split at read
        · next scanned => exact ih others (keeps.ofText holds scanned) read
        · cases read
      · split at read
        · next left => exact ih others (keeps.absent holds left) read
        · cases read

theorem Preserves.valueMember (preserves : record.Preserves Kept Good) {next : σ}
    {member : String × Json} (holds : Kept draft)
    (read : record.valueMember draft member = .ok next) : Kept next := by
  unfold Record.valueMember at read
  split at read
  · next slot found =>
      split at read
      · cases read
      · exact (preserves.slots slot (slot?_eq_some found).1).ofValue holds read
  · cases read
    exact holds

/-- Reading the fields in order from a value keeps the property. -/
theorem Preserves.valueElements (preserves : record.Preserves Kept Good) {slots : List (Slot σ)}
    (fields : slots ⊆ record.slots) {index : Nat} {elements left : List Json} {final : σ}
    (holds : Kept draft)
    (read : record.valueElements slots index draft elements = .ok (final, left)) :
    Kept final := by
  induction slots generalizing index draft elements with
  | nil =>
      rw [Record.valueElements] at read
      cases read
      exact holds
  | cons slot slots ih =>
      obtain ⟨here, others⟩ := List.cons_subset.mp fields
      have keeps := preserves.slots slot here
      cases elements with
      | nil =>
          rw [Record.valueElements] at read
          split at read
          · next left => exact ih others (keeps.absent holds left) read
          · cases read
      | cons element elements =>
          rw [Record.valueElements] at read
          split at read
          · next found => exact ih others (keeps.ofValue holds found) read
          · cases read

theorem Preserves.textObject (preserves : record.Preserves Kept Good)
    (read : record.textObject depth chars = .ok (result, rest)) : Good result := by
  unfold Record.textObject at read
  split at read
  · cases read
  · next scanned =>
      have kept := scanObject_keeps preserves.textMember preserves.start scanned
      split at read
      · next completed =>
          cases read
          exact preserves.complete kept completed
      · cases read

theorem Preserves.textArray (preserves : record.Preserves Kept Good)
    (read : record.textArray depth chars = .ok (result, rest)) : Good result := by
  unfold Record.textArray at read
  split at read
  · cases read
  · next scanned =>
      have kept := preserves.textElements (List.Subset.refl _) preserves.start scanned
      split at read
      · cases read
      · split at read
        · next completed =>
            cases read
            exact preserves.complete kept completed
        · cases read

/-- A record that is read from a value has the property, whether it is an object or an array. -/
theorem Preserves.ofValue (preserves : record.Preserves Kept Good) {value : Json}
    (read : record.ofValue value = .ok result) : Good result := by
  unfold Record.ofValue at read
  split at read
  · next members =>
      cases folded : members.foldlM record.valueMember record.start with
      | error mismatch =>
          rw [folded] at read
          cases read
      | ok draft =>
          rw [folded] at read
          have kept : Kept draft :=
            foldlM_keeps (fun _ _ _ _ => preserves.valueMember) preserves.start folded
          exact preserves.complete kept read
  · split at read
    · cases read
    · next found =>
        have kept := preserves.valueElements (List.Subset.refl _) preserves.start found
        exact preserves.complete kept read
    · cases read
  · cases read

/-- Every record that is read has the property. -/
theorem Preserves.decoder_gives (preserves : record.Preserves Kept Good) :
    record.decoder.Gives Good where
  ofText {depth chars rest result} read := by
    dsimp only [decoder] at read
    split at read
    · split at read
      · cases read
      · exact preserves.textArray read
    · split at read
      · cases read
      · exact preserves.textObject read
    · cases read
  ofValue read := preserves.ofValue read

end Record

end Json

namespace Document

open Json (Decoder Record Slot)

/-- The types of a draft, once they are read, are sorted, and those of the document then are. -/
theorem documentRecord_preserves_sorted :
    documentRecord.Preserves (fun draft => ∀ types ∈ draft.1, types.Sorted)
      fun document => document.types.Sorted where
  start := nofun
  slots := by
    refine List.forall_mem_cons.mpr ⟨?_, List.forall_mem_singleton.mpr ?_⟩
    · refine Slot.of_keeps entryRecord.decoder.table_gives_sorted ?_ ?_
      · intro types given
        cases given
        exact List.Pairwise.nil
      · intro draft types _ sorted other filled
        cases filled
        exact sorted
    · exact Slot.of_keeps (Decoder.any_gives _) (fun _ _ => trivial) fun holds _ => holds
  finish {draft document} holds finished := by
    match draft with
    | (some types, some modules) =>
        cases finished
        exact holds types rfl
    | (some _, none) | (none, _) => cases finished

/-- The type table of a document that is decoded from a text is sorted, also where the text repeats
a key. -/
theorem types_sorted_of_ofText {text : String} {document : Document}
    (decoded : ofText text = .ok document) : document.types.Sorted :=
  documentRecord_preserves_sorted.decoder_gives.decodeText decoded

/-- The type table of a document that is decoded from a value is sorted. -/
theorem types_sorted_of_ofValue {value : Json} {document : Document}
    (decoded : ofValue value = .ok document) : document.types.Sorted :=
  documentRecord_preserves_sorted.decoder_gives.decodeValue decoded

end Document

end SpecTranspiler

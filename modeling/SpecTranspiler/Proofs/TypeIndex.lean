import Mathlib.Data.Nat.Digits.Defs
import Mathlib.Data.Set.Card
import Mathlib.Data.Set.List
import SpecTranspiler.Ir.Document
import SpecTranspiler.Proofs.ByteOrder

/-!
# The index of named types

The keys of a type table are texts and are visited in the order of texts, while the index is in the
order of the numbers that keys denote. Several keys may denote one number, and the last of them
names it. A named entry whose key denotes no number stops the index at the first such key.
`TypeNames.Indexes` says what the entries visited so far have left in the index, and one more entry
keeps it, since its key comes behind all others.
-/

namespace SpecTranspiler

namespace TypeNames

/-- The key denotes the number: it is one or more decimal digits of that value, with a plus sign in
front of them or none, and the value is one of an id. Zeros may lead. -/
def Denotes (key : String) (n : Nat) : Prop :=
  ∃ digits : List (Fin 10), digits ≠ [] ∧
    (key.toList = digits.map (Nat.digitChar ∘ Fin.val) ∨
      key.toList = '+' :: digits.map (Nat.digitChar ∘ Fin.val)) ∧
    Nat.ofDigits 10 (digits.reverse.map Fin.val) = n ∧ n < 2 ^ 64

theorem toNat_digitChar : ∀ digit : Fin 10, digit.val.digitChar.toNat = '0'.toNat + digit.val := by
  decide

/-- The decimal digits are the characters of the ten numbers below ten. -/
theorem isDigit_iff_digitChar {c : Char} :
    c.isDigit ↔ c ∈ Set.range (Nat.digitChar ∘ (Fin.val : Fin 10 → Nat)) := by
  have bounds : c.isDigit ↔ '0'.toNat ≤ c.toNat ∧ c.toNat ≤ '9'.toNat := by
    rw [Char.isDigit, Bool.and_eq_true, decide_eq_true_iff, decide_eq_true_iff]
    rfl
  rw [bounds]
  constructor
  · rintro ⟨low, high⟩
    have small : c.toNat - '0'.toNat < 10 := Nat.sub_lt_left_of_lt_add low (Nat.lt_succ_of_le high)
    refine ⟨⟨c.toNat - '0'.toNat, small⟩, Char.toNat_inj.mp ?_⟩
    exact (toNat_digitChar _).trans (Nat.add_sub_cancel' low)
  · rintro ⟨digit, rfl⟩
    have code := toNat_digitChar digit
    have zero : '0'.toNat = 48 := rfl
    have nine : '9'.toNat = 57 := rfl
    simp only [Function.comp_apply]
    omega

/-- Digits are read from the first one on, and the last one counts once. -/
theorem ofDigits_digitChar (digits : List (Fin 10)) :
    ofDigits (digits.map (Nat.digitChar ∘ Fin.val)) =
      Nat.ofDigits 10 (digits.reverse.map Fin.val) := by
  rw [ofDigits, Nat.ofDigits_eq_foldr, List.map_reverse, List.foldr_reverse, List.foldl_map,
    List.foldl_map]
  congr
  funext value digit
  rw [Function.comp_apply, toNat_digitChar, Nat.add_sub_cancel_left, Nat.cast_id]
  omega

/-- Only a plus sign in front is left out, and no digit is one. -/
theorem idDigits_eq_iff {key : String} {digits : List (Fin 10)} :
    idDigits key = digits.map (Nat.digitChar ∘ Fin.val) ↔
      key.toList = digits.map (Nat.digitChar ∘ Fin.val) ∨
        key.toList = '+' :: digits.map (Nat.digitChar ∘ Fin.val) := by
  have noSign (rest : List Char) : '+' :: rest ≠ digits.map (Nat.digitChar ∘ Fin.val) := by
    intro same
    have member : '+' ∈ digits.map (Nat.digitChar ∘ Fin.val) := same ▸ List.mem_cons_self
    obtain ⟨digit, -, sign⟩ := List.mem_map.mp member
    exact absurd (isDigit_iff_digitChar.mpr ⟨digit, sign⟩) (by decide)
  unfold idDigits
  split
  · next rest shape =>
      rw [shape, List.cons_inj_right, or_iff_right (noSign rest)]
  · next shape =>
      refine (or_iff_left fun signed => shape _ signed).symm

/-- The id of a key is the number that it denotes. -/
theorem id?_eq_some {key : String} {id : UInt64} : id? key = some id ↔ Denotes key id.toNat := by
  rw [id?, Option.ite_none_right_eq_some, Option.some.injEq]
  constructor
  · rintro ⟨⟨nonempty, digitsOnly, small⟩, rfl⟩
    have spelled : idDigits key ∈
        Set.range (List.map (Nat.digitChar ∘ (Fin.val : Fin 10 → Nat))) := by
      rw [Set.range_list_map]
      exact fun c member => isDigit_iff_digitChar.mp (List.all_eq_true.mp digitsOnly c member)
    obtain ⟨digits, spelled⟩ := spelled
    rw [UInt64.toNat_ofNat_of_lt' small]
    rw [← spelled] at nonempty small ⊢
    exact ⟨digits, mt List.map_eq_nil_iff.mpr nonempty, idDigits_eq_iff.mp spelled.symm,
      (ofDigits_digitChar digits).symm, small⟩
  · rintro ⟨digits, nonempty, spelled, value, small⟩
    rw [idDigits_eq_iff.mpr spelled, ofDigits_digitChar, value]
    refine ⟨⟨mt List.map_eq_nil_iff.mp nonempty, ?_, small⟩, UInt64.ofNat_toNat⟩
    refine List.all_eq_true.mpr (List.forall_mem_map.mpr fun digit _ => ?_)
    exact isDigit_iff_digitChar.mpr ⟨digit, rfl⟩

theorem Denotes.lt {key : String} {n : Nat} (denotes : Denotes key n) : n < UInt64.size := by
  obtain ⟨-, -, -, -, small⟩ := denotes
  exact small

theorem Denotes.id? {key : String} {n : Nat} (denotes : Denotes key n) :
    id? key = some (UInt64.ofNat n) := by
  rw [id?_eq_some, UInt64.toNat_ofNat_of_lt' denotes.lt]
  exact denotes

/-- The number that a key denotes, if it denotes one. -/
def number (key : String) : Nat :=
  ((id? key).getD 0).toNat

theorem Denotes.number_eq {key : String} {n : Nat} (denotes : Denotes key n) : number key = n := by
  rw [number, denotes.id?, Option.getD_some, UInt64.toNat_ofNat_of_lt' denotes.lt]

theorem Denotes.unique {key : String} {m n : Nat} (first : Denotes key m) (second : Denotes key n) :
    m = n :=
  first.number_eq.symm.trans second.number_eq

theorem id?_eq_none {key : String} : id? key = none ↔ ∀ n, ¬ Denotes key n := by
  constructor
  · intro missing n denotes
    cases missing.symm.trans denotes.id?
  · intro none
    cases found : TypeNames.id? key with
    | none => rfl
    | some id => exact (none _ (id?_eq_some.mp found)).elim

/-- The numbers that the keys of named entries denote. -/
def denoted (types : TypeTable) : Set Nat :=
  {n | ∃ key name, (key, some name) ∈ types ∧ Denotes key n}

/-- Of the named entries whose keys denote the number, the one with the greatest key has the
name. -/
def LastName (types : TypeTable) (n : Nat) (name : String) : Prop :=
  ∃ key, (key, some name) ∈ types ∧ Denotes key n ∧
    ∀ other label, (other, some label) ∈ types → Denotes other n → utf8Bytes other ≤ utf8Bytes key

/-- Of the named entries whose keys denote no number, the one with the least key has this key. -/
structure FirstUndenoted (types : TypeTable) (key : String) : Prop where
  named : ∃ name, (key, some name) ∈ types
  undenoted : ∀ n, ¬ Denotes key n
  least : ∀ other label, (other, some label) ∈ types → (∀ n, ¬ Denotes other n) →
    utf8Bytes key ≤ utf8Bytes other

/-- The index holds what the entries of a type table say. -/
structure Indexes (types : TypeTable) (names : TypeNames) : Prop where
  denoting : ∀ key name, (key, some name) ∈ types → ∃ n, Denotes key n
  sorted : names.Sorted
  occurs : ∀ id, (∃ name, (id, name) ∈ names) ↔ id.toNat ∈ denoted types
  named : ∀ id name, (id, name) ∈ names ↔ LastName types id.toNat name

variable {types : TypeTable} {names : TypeNames} {key name : String}

/-- An entry without a name changes nothing. -/
theorem Indexes.anonymous (indexes : Indexes types names) (key : String) :
    Indexes (types ++ [(key, none)]) names := by
  have same (other label : String) :
      (other, some label) ∈ types ++ [(key, none)] ↔ (other, some label) ∈ types := by
    simp
  obtain ⟨denoting, sorted, occurs, named⟩ := indexes
  constructor
  · simpa only [same] using denoting
  · exact sorted
  · simpa only [denoted, same] using occurs
  · simpa only [LastName, same] using named

theorem mem_append_named {other label : String} :
    (other, some label) ∈ types ++ [(key, some name)] ↔
      (other, some label) ∈ types ∨ other = key ∧ label = name := by
  simp

/-- An entry whose key denotes another number does not matter to a number. -/
theorem mem_append_of_apart {n : Nat} (apart : ¬ Denotes key n) {other label : String} :
    (other, some label) ∈ types ++ [(key, some name)] ∧ Denotes other n ↔
      (other, some label) ∈ types ∧ Denotes other n := by
  refine and_congr_left fun denotes => ?_
  rw [mem_append_named, or_iff_left]
  rintro ⟨rfl, -⟩
  exact apart denotes

theorem lastName_append_of_apart {n : Nat} {label : String} (apart : ¬ Denotes key n) :
    LastName (types ++ [(key, some name)]) n label ↔ LastName types n label := by
  simp only [LastName, ← and_imp, ← and_assoc, mem_append_of_apart apart]

/-- An entry behind all others is the last one for the number that its key denotes. -/
theorem lastName_append_of_denotes {n : Nat} {label : String}
    (behind : ∀ entry ∈ types, entry.1 < key) (denotes : Denotes key n) :
    LastName (types ++ [(key, some name)]) n label ↔ label = name := by
  constructor
  · rintro ⟨last, member, -, greatest⟩
    rcases mem_append_named.mp member with member | ⟨-, same⟩
    · have notBehind := greatest key name (mem_append_named.mpr (.inr ⟨rfl, rfl⟩)) denotes
      exact absurd (behind _ member) (not_lt.mpr (utf8Bytes_le_iff.mp notBehind))
    · exact same
  · rintro rfl
    refine ⟨key, mem_append_named.mpr (.inr ⟨rfl, rfl⟩), denotes, ?_⟩
    intro other name member _
    rcases mem_append_named.mp member with member | ⟨rfl, -⟩
    · exact utf8Bytes_le_iff.mpr (behind _ member).le
    · exact List.le_refl _

/-- A named entry behind all others names the number that its key denotes. -/
theorem Indexes.insert (indexes : Indexes types names) {id : UInt64}
    (behind : ∀ entry ∈ types, entry.1 < key) (denotes : Denotes key id.toNat) (name : String) :
    Indexes (types ++ [(key, some name)]) (names.insert id name) := by
  have apart {number : UInt64} (other : number ≠ id) : ¬ Denotes key number.toNat :=
    fun denoted => other (UInt64.toNat_inj.mp (denoted.unique denotes))
  constructor
  · intro other label member
    rcases mem_append_named.mp member with member | ⟨rfl, rfl⟩
    · exact indexes.denoting other label member
    · exact ⟨_, denotes⟩
  · exact Assoc.sorted_insert indexes.sorted id name
  · intro number
    simp only [Assoc.mem_insert indexes.sorted]
    by_cases same : number = id
    · subst same
      exact iff_of_true ⟨name, .inl ⟨rfl, rfl⟩⟩
        ⟨key, name, mem_append_named.mpr (.inr ⟨rfl, rfl⟩), denotes⟩
    · simp only [same, false_and, ne_eq, not_false_iff, true_and, false_or, indexes.occurs, denoted,
        Set.mem_ofPred_eq, mem_append_of_apart (apart same)]
  · intro number label
    rw [Assoc.mem_insert indexes.sorted, indexes.named]
    by_cases same : number = id
    · subst same
      rw [lastName_append_of_denotes behind denotes]
      simp only [true_and, ne_eq, not_true, false_and, or_false]
    · rw [lastName_append_of_apart (apart same)]
      simp only [same, false_and, ne_eq, not_false_iff, true_and, false_or]

theorem index_append (types : TypeTable) (entry : String × Option String) :
    index (types ++ [entry]) = index types >>= fun names => add names entry := by
  rw [index, List.foldlM_append]
  congr
  funext names
  rw [List.foldlM_cons]
  exact bind_pure _

/-- A key that comes first stays first with an entry behind it. -/
theorem FirstUndenoted.append (first : FirstUndenoted types key) {entry : String × Option String}
    (behind : ∀ earlier ∈ types, earlier.1 < entry.1) :
    FirstUndenoted (types ++ [entry]) key := by
  obtain ⟨⟨name, member⟩, undenoted, least⟩ := first
  refine ⟨⟨name, List.mem_append_left _ member⟩, undenoted, ?_⟩
  intro other label otherMember otherUndenoted
  rcases List.mem_append.mp otherMember with inside | last
  · exact least other label inside otherUndenoted
  · obtain rfl := List.mem_singleton.mp last
    exact utf8Bytes_le_iff.mpr (behind _ member).le

/-- A key is the first that denotes no number, if all keys before it denote one. -/
theorem Indexes.firstUndenoted (indexes : Indexes types names) (undenoted : ∀ n, ¬ Denotes key n)
    (name : String) : FirstUndenoted (types ++ [(key, some name)]) key := by
  refine ⟨⟨name, mem_append_named.mpr (.inr ⟨rfl, rfl⟩)⟩, undenoted, ?_⟩
  intro other label member otherUndenoted
  rcases mem_append_named.mp member with member | ⟨rfl, -⟩
  · obtain ⟨n, denotes⟩ := indexes.denoting other label member
    exact absurd denotes (otherUndenoted n)
  · exact List.le_refl _

/-- What an outcome of the index tells about the type table. -/
def Explains (types : TypeTable) : Except Fault TypeNames → Prop
  | .ok names => Indexes types names
  | .error fault => ∃ key, fault = .invalidTypeId key ∧ FirstUndenoted types key

/-- One more entry: it is skipped, it names a number, or its key denotes none. -/
theorem Indexes.add (indexes : Indexes types names) {entry : String × Option String}
    (behind : ∀ earlier ∈ types, earlier.1 < entry.1) :
    Explains (types ++ [entry]) (names.add entry) := by
  obtain ⟨key, label⟩ := entry
  cases label with
  | none => exact indexes.anonymous key
  | some name =>
      rw [TypeNames.add]
      cases found : id? key with
      | none => exact ⟨key, rfl, indexes.firstUndenoted (id?_eq_none.mp found) name⟩
      | some id => exact indexes.insert behind (id?_eq_some.mp found) name

/-- The induction is from the first entry to the last, so that every entry comes behind those that
are indexed already. -/
theorem explains_index (sorted : types.Sorted) : Explains types (index types) := by
  induction types using List.reverseRecOn with
  | nil => exact ⟨nofun, .nil, by simp [denoted], by simp [LastName]⟩
  | append_singleton types entry ih =>
      obtain ⟨before, -, apart⟩ := List.pairwise_append.mp sorted
      have behind : ∀ earlier ∈ types, earlier.1 < entry.1 :=
        fun earlier member => apart earlier member entry List.mem_cons_self
      have earlier := ih before
      rw [index_append]
      cases indexed : index types with
      | error fault =>
          rw [indexed] at earlier
          obtain ⟨key, rfl, first⟩ := earlier
          exact ⟨key, rfl, first.append behind⟩
      | ok names =>
          rw [indexed] at earlier
          exact Indexes.add earlier behind

/-- The keys of named entries. -/
def namedKeys (types : TypeTable) : Set String :=
  {key | ∃ name, (key, some name) ∈ types}

/-- Ids stand in the index once, so it is as long as there are numbers. -/
theorem Indexes.length_eq (indexes : Indexes types names) :
    names.length = (denoted types).ncard := by
  have distinct : (names.map fun entry => entry.1.toNat).Nodup := by
    refine List.pairwise_map.mpr (indexes.sorted.imp ?_)
    intro left right less same
    exact UInt64.lt_irrefl _ (UInt64.toNat_inj.mp same ▸ less)
  have listed : denoted types = ↑(names.map fun entry => entry.1.toNat).toFinset := by
    ext n
    rw [List.coe_toFinset]
    simp only [Set.mem_ofPred_eq, List.mem_map]
    constructor
    · rintro ⟨key, name, member, denotes⟩
      have back : (UInt64.ofNat n).toNat = n := UInt64.toNat_ofNat_of_lt' denotes.lt
      obtain ⟨label, indexed⟩ :=
        (indexes.occurs (UInt64.ofNat n)).mpr ⟨key, name, member, back.symm ▸ denotes⟩
      exact ⟨_, indexed, back⟩
    · rintro ⟨⟨id, label⟩, indexed, rfl⟩
      exact (indexes.occurs id).mp ⟨label, indexed⟩
  rw [listed, Set.ncard_coe_finset, List.toFinset_card_of_nodup distinct, List.length_map]

theorem finite_namedKeys (types : TypeTable) : (namedKeys types).Finite := by
  refine (types.map Prod.fst).finite_toSet.subset ?_
  rintro key ⟨name, member⟩
  change key ∈ types.map Prod.fst
  exact List.mem_map_of_mem member

/-- Keys stand in a type table once. -/
theorem ncard_namedKeys (sorted : types.Sorted) :
    (namedKeys types).ncard = (types.filter fun entry => entry.2.isSome).length := by
  have distinct : ((types.filter fun entry => entry.2.isSome).map Prod.fst).Nodup := by
    refine List.pairwise_map.mpr ((sorted.filter _).imp ?_)
    intro left right less same
    exact lt_irrefl _ (same ▸ less)
  have listed : namedKeys types =
      ↑((types.filter fun entry => entry.2.isSome).map Prod.fst).toFinset := by
    ext key
    simp [namedKeys, Option.isSome_iff_exists]
  rw [listed, Set.ncard_coe_finset, List.toFinset_card_of_nodup distinct, List.length_map]

/-- Where every named entry has a number, the numbers are as many as the entries exactly when no two
keys denote the same one. -/
theorem Indexes.ncard_denoted (indexes : Indexes types names) :
    (denoted types).ncard = (namedKeys types).ncard ↔
      ∀ key ∈ namedKeys types, ∀ other ∈ namedKeys types, ∀ n, Denotes key n → Denotes other n →
        key = other := by
  have image : denoted types = number '' namedKeys types := by
    ext n
    constructor
    · rintro ⟨key, name, member, denotes⟩
      exact ⟨key, ⟨name, member⟩, denotes.number_eq⟩
    · rintro ⟨key, ⟨name, member⟩, rfl⟩
      obtain ⟨n, denotes⟩ := indexes.denoting key name member
      exact ⟨key, name, member, denotes.number_eq.symm ▸ denotes⟩
  rw [image, Set.ncard_image_iff (finite_namedKeys types)]
  constructor
  · intro injective key keyNamed other otherNamed n first second
    exact injective keyNamed otherNamed (first.number_eq.trans second.number_eq.symm)
  · intro apart key keyNamed other otherNamed same
    obtain ⟨name, member⟩ := keyNamed
    obtain ⟨label, otherMember⟩ := otherNamed
    obtain ⟨n, denotes⟩ := indexes.denoting key name member
    obtain ⟨m, otherDenotes⟩ := indexes.denoting other label otherMember
    obtain rfl : n = m := by rw [← denotes.number_eq, same, otherDenotes.number_eq]
    exact apart key ⟨name, member⟩ other ⟨label, otherMember⟩ n denotes otherDenotes

/-- Entries without a name are passed over. -/
theorem index_filter (types : TypeTable) :
    index (types.filter fun entry => entry.2.isSome) = index types := by
  unfold index
  generalize ([] : TypeNames) = names
  induction types generalizing names with
  | nil => rfl
  | cons entry rest ih =>
      obtain ⟨key, label⟩ := entry
      cases label with
      | none => exact ih names
      | some name =>
          rw [List.filter_cons_of_pos rfl, List.foldlM_cons, List.foldlM_cons]
          exact congrArg _ (funext ih)

theorem FirstUndenoted.unique {other : String} (first : FirstUndenoted types key)
    (second : FirstUndenoted types other) : key = other := by
  obtain ⟨name, member⟩ := first.named
  obtain ⟨label, otherMember⟩ := second.named
  have before := utf8Bytes_le_iff.mp (first.least other label otherMember second.undenoted)
  have behind := utf8Bytes_le_iff.mp (second.least key name member first.undenoted)
  exact le_antisymm before behind

/-- The index fails exactly with the first key that denotes no number. -/
theorem index_eq_error_iff (sorted : types.Sorted) {fault : Fault} :
    index types = .error fault ↔ ∃ key, FirstUndenoted types key ∧ fault = .invalidTypeId key := by
  have explained := explains_index sorted
  cases outcome : index types with
  | ok names =>
      rw [outcome] at explained
      refine iff_of_false nofun ?_
      rintro ⟨key, first, -⟩
      obtain ⟨name, member⟩ := first.named
      obtain ⟨n, denotes⟩ := Indexes.denoting explained key name member
      exact first.undenoted n denotes
  | error other =>
      rw [outcome] at explained
      obtain ⟨key, rfl, first⟩ := explained
      rw [Except.error.injEq]
      constructor
      · rintro rfl
        exact ⟨key, first, rfl⟩
      · rintro ⟨key', first', rfl⟩
        rw [first.unique first']

/-- The index of a type table fails exactly if the key of a named entry denotes no number, with the
first such key. Otherwise it lists by ascending id the numbers that these keys denote, each with the
name under the last key that denotes it, and it is as long as the named entries are many exactly
when no two of their keys denote the same number. Entries without a name do not matter. -/
theorem index_is_exact (sorted : types.Sorted) :
    ((∃ fault, index types = .error fault) ↔
      ∃ key name, (key, some name) ∈ types ∧ ∀ n, ¬ Denotes key n) ∧
    (∀ fault, index types = .error fault ↔
      ∃ key, FirstUndenoted types key ∧ fault = .invalidTypeId key) ∧
    (∀ names, index types = .ok names →
      names.Sorted ∧
      (∀ id, (∃ name, (id, name) ∈ names) ↔ id.toNat ∈ denoted types) ∧
      (∀ id name, (id, name) ∈ names ↔ LastName types id.toNat name) ∧
      names.length = (denoted types).ncard ∧
      (names.length = (types.filter fun entry => entry.2.isSome).length ↔
        ∀ key ∈ namedKeys types, ∀ other ∈ namedKeys types, ∀ n,
          Denotes key n → Denotes other n → key = other)) ∧
    index (types.filter fun entry => entry.2.isSome) = index types := by
  have explained := explains_index sorted
  refine ⟨?_, fun fault => index_eq_error_iff sorted, ?_, index_filter types⟩
  · constructor
    · rintro ⟨fault, failed⟩
      obtain ⟨key, first, -⟩ := (index_eq_error_iff sorted).mp failed
      obtain ⟨name, member⟩ := first.named
      exact ⟨key, name, member, first.undenoted⟩
    · rintro ⟨key, name, member, undenoted⟩
      cases outcome : index types with
      | error fault => exact ⟨fault, rfl⟩
      | ok names =>
          rw [outcome] at explained
          obtain ⟨n, denotes⟩ := Indexes.denoting explained key name member
          exact absurd denotes (undenoted n)
  · intro names indexed
    rw [indexed] at explained
    have indexes : Indexes types names := explained
    refine ⟨indexes.sorted, indexes.occurs, indexes.named, indexes.length_eq, ?_⟩
    rw [indexes.length_eq, ← ncard_namedKeys sorted, indexes.ncard_denoted]

/-- A table in which two keys denote one number, another key comes before a smaller number, and an
entry without a name has a key that denotes none. -/
def sampleTypes : TypeTable :=
  [("+1", some "Coin"), ("07", some "Purse"), ("1", some "Note"), ("x", none)]

/-- The last key with the number one names it, and of three named entries two are left. With names
under keys that denote no number, the first such key is reported. -/
theorem sampleTypes_index_is_exact :
    sampleTypes.Sorted ∧ index sampleTypes = .ok [(1, "Note"), (7, "Purse")] ∧
      LastName sampleTypes 1 "Note" ∧ (denoted sampleTypes).ncard = 2 ∧
      (∃ key ∈ namedKeys sampleTypes, ∃ other ∈ namedKeys sampleTypes, ∃ n,
        Denotes key n ∧ Denotes other n ∧ key ≠ other) ∧
      FirstUndenoted (sampleTypes ++ [("y", some "Vault"), ("z", some "Bill")]) "y" := by
  have sorted : sampleTypes.Sorted := by
    unfold Assoc.Sorted
    decide
  have indexed : index sampleTypes = .ok [(1, "Note"), (7, "Purse")] := by
    decide
  obtain ⟨-, -, holds, -⟩ := index_is_exact sorted
  obtain ⟨-, -, named, length, collides⟩ := holds _ indexed
  refine ⟨sorted, indexed, (named 1 "Note").mp List.mem_cons_self, length.symm, ?_, ?_⟩
  · have shorter := mt collides.mpr (by decide)
    push Not at shorter
    exact shorter
  · have sortedMore : Assoc.Sorted (sampleTypes ++ [("y", some "Vault"), ("z", some "Bill")]) := by
      unfold Assoc.Sorted
      decide
    obtain ⟨-, fails, -, -⟩ := index_is_exact sortedMore
    obtain ⟨key, first, same⟩ := (fails (.invalidTypeId "y")).mp (by decide)
    obtain rfl := Fault.invalidTypeId.inj same
    exact first

end TypeNames

end SpecTranspiler

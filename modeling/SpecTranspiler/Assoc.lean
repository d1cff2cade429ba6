/-!
# Association lists in ascending key order

A finite map is the list of its entries with the keys ascending strictly, so that
two maps with the same entries are the same list. Reading goes through
`List.lookup`; `Assoc.insert` keeps the order and lets the last value of a key win.
-/

namespace SpecTranspiler

/-- The entries of a finite map, listed by ascending key. -/
abbrev Assoc (κ α : Type) := List (κ × α)

namespace Assoc

variable {κ α : Type} [LT κ] [DecidableLT κ] [DecidableEq κ]

/-- Store a value under a key, in place of what the key held before. -/
def insert (key : κ) (value : α) : Assoc κ α → Assoc κ α
  | [] => [(key, value)]
  | (k, a) :: rest =>
      if key < k then (key, value) :: (k, a) :: rest
      else if key = k then (key, value) :: rest
      else (k, a) :: insert key value rest

/-- The keys ascend strictly. -/
def Sorted (map : Assoc κ α) : Prop :=
  map.Pairwise (fun left right => left.1 < right.1)

section Lookup

variable [BEq κ] [LawfulBEq κ]

omit [LT κ] [DecidableLT κ] in
/-- A key that was looked up successfully stands in the list with the value found. -/
theorem mem_of_lookup {map : Assoc κ α} {key : κ} {value : α}
    (found : map.lookup key = some value) : (key, value) ∈ map := by
  induction map with
  | nil => simp at found
  | cons entry rest ih =>
      obtain ⟨k, a⟩ := entry
      by_cases same : key = k
      · subst same
        simp at found
        simp [found]
      · have distinct : (key == k) = false := by simp [same]
        rw [List.lookup_cons, distinct] at found
        exact List.mem_cons_of_mem _ (ih found)

/-- After storing a value its key holds it. -/
theorem lookup_insert_self (key : κ) (value : α) (map : Assoc κ α) :
    (map.insert key value).lookup key = some value := by
  induction map with
  | nil => simp [insert]
  | cons entry rest ih =>
      obtain ⟨k, a⟩ := entry
      rw [insert]
      split
      · simp
      · split
        · simp
        · next distinct =>
            have other : (key == k) = false := by simp [distinct]
            rw [List.lookup_cons, other]
            exact ih

/-- Storing a value leaves every other key as it was. -/
theorem lookup_insert_of_ne {key other : κ} (distinct : other ≠ key) (value : α)
    (map : Assoc κ α) : (map.insert key value).lookup other = map.lookup other := by
  have unequal : (other == key) = false := by simp [distinct]
  induction map with
  | nil => simp [insert, distinct]
  | cons entry rest ih =>
      obtain ⟨k, a⟩ := entry
      rw [insert]
      split
      · rw [List.lookup_cons, unequal]
      · split
        · next same =>
            subst same
            rw [List.lookup_cons, List.lookup_cons, unequal]
        · rw [List.lookup_cons, List.lookup_cons, ih]

end Lookup

/-- Storing a value under a new key adds an entry. -/
theorem insert_perm {key : κ} {map : Assoc κ α} (fresh : key ∉ map.map Prod.fst) (value : α) :
    (map.insert key value).Perm ((key, value) :: map) := by
  induction map with
  | nil => exact .refl _
  | cons entry rest ih =>
      obtain ⟨k, a⟩ := entry
      obtain ⟨other, fresh⟩ : key ≠ k ∧ key ∉ rest.map Prod.fst := by simpa using fresh
      rw [insert, if_neg other]
      split
      · exact .refl _
      · exact ((ih fresh).cons (k, a)).trans (.swap ..)

/-- Values under two keys are stored in either order. -/
theorem insert_comm [LE κ] [Std.IsLinearOrder κ] [Std.LawfulOrderLT κ] {first second : κ}
    (distinct : first ≠ second) (a b : α) (map : Assoc κ α) :
    (map.insert first a).insert second b = (map.insert second b).insert first a := by
  -- The two keys are compared with each other and with the first key of the map.
  induction map with
  | nil => grind [insert]
  | cons entry rest ih => grind [insert]

/-- Storing a value replaces what its key held, and keeps all else. -/
theorem mem_insert [LE κ] [Std.IsLinearOrder κ] [Std.LawfulOrderLT κ] {key other : κ}
    {value stored : α} {map : Assoc κ α} (sorted : map.Sorted) :
    (other, stored) ∈ map.insert key value ↔
      other = key ∧ stored = value ∨ other ≠ key ∧ (other, stored) ∈ map := by
  induction map with
  | nil => grind [insert]
  | cons entry rest ih =>
      obtain ⟨first, others⟩ := List.pairwise_cons.mp sorted
      grind [insert, Sorted]

/-- Storing a value keeps the order of the keys. -/
theorem sorted_insert [LE κ] [Std.IsLinearOrder κ] [Std.LawfulOrderLT κ] {map : Assoc κ α}
    (sorted : map.Sorted) (key : κ) (value : α) : (map.insert key value).Sorted := by
  induction map with
  | nil => exact List.pairwise_singleton _ _
  | cons entry rest ih =>
      obtain ⟨k, a⟩ := entry
      obtain ⟨first, others⟩ := List.pairwise_cons.mp sorted
      rw [insert]
      split
      · next before =>
          refine List.pairwise_cons.mpr ⟨List.forall_mem_cons.mpr ⟨before, ?_⟩, sorted⟩
          exact fun entry member => Std.lt_trans before (first entry member)
      · split
        · next same =>
            subst same
            exact List.pairwise_cons.mpr ⟨first, others⟩
        · next notBefore distinct =>
            refine List.pairwise_cons.mpr ⟨?_, ih others⟩
            rintro ⟨other, stored⟩ member
            rcases (mem_insert others).mp member with ⟨rfl, -⟩ | ⟨-, member⟩
            · exact Std.lt_of_le_of_ne (Std.not_lt.mp notBefore) (Ne.symm distinct)
            · exact first _ member

end Assoc

end SpecTranspiler

import SpecTranspiler.Ir.Node
import SpecTranspiler.Proofs.Subterms

/-!
# Replacing what stands at a position

A position in a value is a list of steps through members of objects and elements of arrays; a
position in a term is a list of indices among the terms directly below. What stands at a position
can be read and replaced. A replacement shows at its position and leaves the positions beside it
as they were.
-/

namespace SpecTranspiler

/-- A list split around the element at an index. -/
theorem exists_append_cons_of_getElem? {α : Type} {list : List α} {index : Nat} {a : α}
    (found : list[index]? = some a) :
    ∃ front back, list = front ++ a :: back ∧ front.length = index := by
  obtain ⟨inside, rfl⟩ := List.getElem?_eq_some_iff.mp found
  obtain ⟨front, back, split, length, -⟩ := @List.exists_of_set _ _ list[index] _ inside
  exact ⟨front, back, split, length⟩

theorem set_append_cons {α : Type} (front : List α) (a b : α) (back : List α) :
    (front ++ a :: back).set front.length b = front ++ b :: back := by
  rw [List.set_append_right _ _ (Nat.le_refl _), Nat.sub_self, List.set_cons_zero]

theorem forall_mem_append_cons {α : Type} {front back : List α} {a : α} {holds : α → Prop} :
    (∀ b ∈ front ++ a :: back, holds b) ↔
      (∀ b ∈ front, holds b) ∧ holds a ∧ ∀ b ∈ back, holds b := by
  rw [List.forall_mem_append, List.forall_mem_cons]

/-- The node with another value under a key that it has. -/
def Node.put (node : Node) (key : String) (value : Json) : Node :=
  node.map fun member => if member.1 = key then (key, value) else member

namespace Node

variable {node : Node} {key : String}

theorem lookup_put_self {former : Json} (found : node.lookup key = some former) (value : Json) :
    (node.put key value).lookup key = some value := by
  induction node with
  | nil => cases found
  | cons member node ih =>
      obtain ⟨other, held⟩ := member
      by_cases same : other = key
      · subst same
        simp [put]
      · have distinct : (key == other) = false := by simp [Ne.symm same]
        rw [List.lookup_cons, distinct] at found
        simpa [put, same, List.lookup_cons, distinct] using ih found

theorem lookup_put_of_ne {other : String} (distinct : other ≠ key) (value : Json) :
    (node.put key value).lookup other = node.lookup other := by
  induction node with
  | nil => rfl
  | cons member node ih =>
      obtain ⟨label, held⟩ := member
      by_cases same : label = key
      · subst same
        have skipped : (other == label) = false := by simp [distinct]
        rw [put, List.map_cons, if_pos rfl, List.lookup_cons, List.lookup_cons, skipped]
        exact ih
      · rw [put, List.map_cons, if_neg same, List.lookup_cons, List.lookup_cons]
        split
        · rfl
        · exact ih

end Node

namespace Json

/-- A step from a value to one directly below it. -/
inductive Step where
  | member (key : String)
  | element (index : Nat)

/-- The value that a step leads to. -/
def below? : Json → Step → Option Json
  | .obj members, .member key => members.lookup key
  | .arr elements, .element index => elements[index]?
  | _, _ => none

/-- The value with another value where a step leads to. -/
def put : Json → Step → Json → Json
  | .obj members, .member key, new => .obj (Node.put members key new)
  | .arr elements, .element index, new => .arr (elements.set index new)
  | other, _, _ => other

/-- The value at a position. -/
def part? (value : Json) : List Step → Option Json
  | [] => some value
  | step :: path => (value.below? step).bind fun part => part.part? path

/-- The value with another value at a position, which has to exist. -/
def replace (value new : Json) : List Step → Json
  | [] => new
  | step :: path =>
      match value.below? step with
      | some part => value.put step (part.replace new path)
      | none => value

end Json

/-- The statements with other terms in them, as many as before. -/
def Stmt.withParts : List Stmt → List Term → List Stmt
  | .assign _ _ :: body, target :: value :: parts => .assign target value :: withParts body parts
  | .ret _ :: body, value :: parts => .ret value :: withParts body parts
  | _, _ => []

/-- Statements that are given other terms have these terms, in the same order. -/
theorem Stmt.parts_withParts {body : List Stmt} {parts : List Term}
    (same : parts.length = (body.flatMap Stmt.parts).length) :
    (Stmt.withParts body parts).flatMap Stmt.parts = parts := by
  induction body generalizing parts with
  | nil =>
      obtain rfl := List.length_eq_zero_iff.mp same
      rfl
  | cons stmt body ih =>
      rw [List.flatMap_cons, List.length_append] at same
      cases stmt with
      | assign =>
          rw [Nat.add_comm] at same
          obtain ⟨target, rest, rfl⟩ := List.exists_cons_of_length_eq_add_one same
          obtain ⟨value, rest, rfl⟩ := List.exists_cons_of_length_eq_add_one (Nat.succ.inj same)
          rw [withParts, List.flatMap_cons, ih (Nat.succ.inj (Nat.succ.inj same))]
          rfl
      | ret =>
          rw [Nat.add_comm] at same
          obtain ⟨value, rest, rfl⟩ := List.exists_cons_of_length_eq_add_one same
          rw [withParts, List.flatMap_cons, ih (Nat.succ.inj same)]
          rfl

namespace Term

/-- The term with other terms directly below it, as many as before. -/
def withParts : Term → List Term → Term
  | .field _ label, [base] => .field base label
  | .record ty fields, parts => .record ty ((fields.map Prod.fst).zip parts)
  | .variant enum label _, parts => .variant enum label parts
  | .tuple _, parts => .tuple parts
  | .borrow _, [operand] => .borrow operand
  | .call function types _, parts => .call function types parts
  | .typeCall ty method types _, parts => .typeCall ty method types parts
  | .methodCall _ method types _, receiver :: args => .methodCall receiver method types args
  | .ifElse _ _ _, [condition, yes, no] => .ifElse condition yes no
  | .negate _, [operand] => .negate operand
  | .add _ _, [left, right] => .add left right
  | .bind label _ _, [value, body] => .bind label value body
  | .block body, parts => .block (Stmt.withParts body parts)
  | other, _ => other

/-- A term that is given other terms directly below it has these terms there. -/
theorem parts_withParts {term : Term} {parts : List Term}
    (same : parts.length = term.parts.length) : (term.withParts parts).parts = parts := by
  cases term with
  | literal | name | todo =>
      obtain rfl := List.length_eq_zero_iff.mp same
      rfl
  | field | borrow | negate =>
      obtain ⟨part, rfl⟩ := List.length_eq_one_iff.mp same
      rfl
  | add | bind =>
      obtain ⟨first, rest, rfl⟩ := List.exists_cons_of_length_eq_add_one same
      obtain ⟨second, rfl⟩ := List.length_eq_one_iff.mp (Nat.succ.inj same)
      rfl
  | ifElse =>
      obtain ⟨first, rest, rfl⟩ := List.exists_cons_of_length_eq_add_one same
      obtain ⟨second, rest, rfl⟩ := List.exists_cons_of_length_eq_add_one (Nat.succ.inj same)
      obtain ⟨third, rfl⟩ := List.length_eq_one_iff.mp (Nat.succ.inj (Nat.succ.inj same))
      rfl
  | record ty fields =>
      rw [Term.parts, List.length_map] at same
      exact List.map_snd_zip (Nat.le_of_eq (same.trans (List.length_map _).symm))
  | variant | tuple | call | typeCall => rfl
  | methodCall =>
      obtain ⟨receiver, args, rfl⟩ := List.exists_cons_of_length_eq_add_one same
      rfl
  | block body =>
      rw [withParts, Term.parts]
      exact Stmt.parts_withParts same

/-- The term at a position. -/
def part? (term : Term) : List Nat → Option Term
  | [] => some term
  | index :: path => term.parts[index]?.bind fun part => part.part? path

/-- The term with another term at a position, which has to exist. -/
def replace (term new : Term) : List Nat → Term
  | [] => new
  | index :: path =>
      match term.parts[index]? with
      | some part => term.withParts (term.parts.set index (part.replace new path))
      | none => term

variable {term part : Term} {index : Nat}

theorem replace_cons (found : term.parts[index]? = some part) (new : Term) (path : List Nat) :
    term.replace new (index :: path) =
      term.withParts (term.parts.set index (part.replace new path)) := by
  rw [replace, found]

theorem parts_replace_cons (found : term.parts[index]? = some part) (new : Term)
    (path : List Nat) :
    (term.replace new (index :: path)).parts = term.parts.set index (part.replace new path) := by
  rw [replace_cons found, parts_withParts List.length_set]

theorem part?_append (term : Term) (path rest : List Nat) :
    term.part? (path ++ rest) = (term.part? path).bind fun part => part.part? rest := by
  induction path generalizing term with
  | nil => rfl
  | cons index path ih =>
      rw [List.cons_append, part?, part?, Option.bind_assoc]
      exact congrArg _ (funext fun part => ih part)

/-- Replacing further in is replacing what stands further out. -/
theorem replace_append {path : List Nat} (found : term.part? path = some part) (new : Term)
    (rest : List Nat) :
    term.replace new (path ++ rest) = term.replace (part.replace new rest) path := by
  induction path generalizing term with
  | nil =>
      cases found
      rfl
  | cons index path ih =>
      obtain ⟨below, direct, inside⟩ := Option.bind_eq_some_iff.mp found
      rw [List.cons_append, replace_cons direct, replace_cons direct, ih inside]

theorem replace_tuple (front back : List Term) (old new : Term) :
    (tuple (front ++ old :: back)).replace new [front.length] = .tuple (front ++ new :: back) := by
  have found : (tuple (front ++ old :: back)).parts[front.length]? = some old := by
    simp [parts]
  rw [replace_cons found, parts, withParts, set_append_cons]
  rfl

theorem replace_record (ty label : String) (front back : List (String × Term)) (old new : Term) :
    (record ty (front ++ (label, old) :: back)).replace new [front.length] =
      .record ty (front ++ (label, new) :: back) := by
  have found : (record ty (front ++ (label, old) :: back)).parts[front.length]? = some old := by
    simp [parts]
  rw [replace_cons found, withParts]
  refine congrArg _ (List.zip_of_prod ?_ ?_).symm
  · simp only [List.map_append, List.map_cons]
  · have moved := set_append_cons (front.map Prod.snd) old new (back.map Prod.snd)
    rw [List.length_map] at moved
    simpa only [parts, List.map_append, List.map_cons, replace] using moved.symm

/-- What was put at a position stands there. -/
theorem part?_replace_self {path : List Nat} (found : term.part? path = some part) (new : Term) :
    (term.replace new path).part? path = some new := by
  induction path generalizing term with
  | nil => rfl
  | cons index path ih =>
      obtain ⟨below, direct, inside⟩ := Option.bind_eq_some_iff.mp found
      obtain ⟨small, -⟩ := List.getElem?_eq_some_iff.mp direct
      rw [part?, parts_replace_cons direct, List.getElem?_set_self small]
      exact ih inside

/-- Neither of two positions is inside the other. -/
def Apart (first second : List Nat) : Prop :=
  ¬ first <+: second ∧ ¬ second <+: first

/-- A replacement leaves the positions beside it as they were. -/
theorem part?_replace_of_apart {path other : List Nat} (found : term.part? path = some part)
    (apart : Apart path other) (new : Term) :
    (term.replace new path).part? other = term.part? other := by
  induction path generalizing term other with
  | nil => exact (apart.1 List.nil_prefix).elim
  | cons index path ih =>
      obtain ⟨below, direct, inside⟩ := Option.bind_eq_some_iff.mp found
      obtain ⟨small, -⟩ := List.getElem?_eq_some_iff.mp direct
      cases other with
      | nil => exact (apart.2 List.nil_prefix).elim
      | cons second rest =>
          rw [part?, part?, parts_replace_cons direct]
          by_cases same : index = second
          · subst same
            have further : Apart path rest := by
              simpa only [Apart, List.cons_prefix_cons, true_and] using apart
            rw [List.getElem?_set_self small, direct]
            exact ih inside further
          · rw [List.getElem?_set_ne same]

end Term

end SpecTranspiler

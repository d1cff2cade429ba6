import SpecTranspiler.Target.Item

/-!
# Positions inside terms

The terms directly below a term, the terms anywhere inside it, and the positions that are not
inside a record construction. Facts about all terms, and about all types, are proved by induction
on what is directly below.
-/

namespace SpecTranspiler

/-- The terms that a statement holds. -/
def Stmt.parts : Stmt → List Term
  | .assign target value => [target, value]
  | .ret value => [value]

/-- The terms that an item holds. -/
def Item.terms : Item → List Term
  | .function _ _ _ body _ => body.flatMap Stmt.parts
  | .const _ _ value => [value]
  | .val _ value => [value]
  | .struct .. | .synonym .. => []

namespace Term

/-- The terms directly below a term. -/
def parts : Term → List Term
  | .literal _ | .name _ | .todo => []
  | .field base _ => [base]
  | .record _ fields => fields.map Prod.snd
  | .variant _ _ args => args
  | .tuple elements => elements
  | .borrow operand => [operand]
  | .call _ _ args => args
  | .typeCall _ _ _ args => args
  | .methodCall receiver _ _ args => receiver :: args
  | .ifElse condition yes no => [condition, yes, no]
  | .negate operand => [operand]
  | .add left right => [left, right]
  | .bind _ value body => [value, body]
  | .block body => body.flatMap Stmt.parts

/-- A term occurs in a term. -/
inductive Within (inner : Term) : Term → Prop where
  | here : Within inner inner
  | deeper {part whole : Term} (direct : part ∈ whole.parts) (inside : Within inner part) :
      Within inner whole

/-- The terms directly below a term, unless they are inside a record construction. -/
def openParts : Term → List Term
  | .record _ _ => []
  | other => other.parts

/-- The term at a position that is not inside a record construction. -/
def openPart? (term : Term) : List Nat → Option Term
  | [] => some term
  | index :: path => term.openParts[index]?.bind fun part => part.openPart? path

end Term

theorem Stmt.sizeOf_lt_of_mem_parts {stmt : Stmt} {part : Term} (direct : part ∈ stmt.parts) :
    sizeOf part < sizeOf stmt := by
  cases stmt with
  | assign target value =>
      simp only [parts, List.mem_cons, List.not_mem_nil, or_false] at direct
      rcases direct with rfl | rfl
      · simp only [assign.sizeOf_spec]
        omega
      · simp only [assign.sizeOf_spec]
        omega
  | ret value =>
      obtain rfl := List.mem_singleton.mp direct
      simp only [ret.sizeOf_spec]
      omega

namespace Term

/-- A term is larger than the terms directly below it. -/
theorem sizeOf_lt_of_mem_parts {whole part : Term} (direct : part ∈ whole.parts) :
    sizeOf part < sizeOf whole := by
  cases whole with
  | literal | name | todo => cases direct
  | record name fields =>
      obtain ⟨⟨label, value⟩, member, rfl⟩ := List.mem_map.mp direct
      have inside := List.sizeOf_lt_of_mem member
      simp only [Prod.mk.sizeOf_spec] at inside
      simp only [record.sizeOf_spec]
      omega
  | block body =>
      obtain ⟨stmt, member, held⟩ := List.mem_flatMap.mp direct
      have inside := List.sizeOf_lt_of_mem member
      have within := Stmt.sizeOf_lt_of_mem_parts held
      simp only [block.sizeOf_spec]
      omega
  | variant enum label args =>
      have inside : sizeOf part < sizeOf args := List.sizeOf_lt_of_mem direct
      simp only [variant.sizeOf_spec]
      omega
  | tuple elements =>
      have inside : sizeOf part < sizeOf elements := List.sizeOf_lt_of_mem direct
      simp only [tuple.sizeOf_spec]
      omega
  | call function types args =>
      have inside : sizeOf part < sizeOf args := List.sizeOf_lt_of_mem direct
      simp only [call.sizeOf_spec]
      omega
  | typeCall ty method types args =>
      have inside : sizeOf part < sizeOf args := List.sizeOf_lt_of_mem direct
      simp only [typeCall.sizeOf_spec]
      omega
  | methodCall receiver method types args =>
      rcases List.mem_cons.mp direct with rfl | member
      · simp only [methodCall.sizeOf_spec]
        omega
      · have inside := List.sizeOf_lt_of_mem member
        simp only [methodCall.sizeOf_spec]
        omega
  | field | borrow | ifElse | negate | add | bind =>
      simp only [parts, List.mem_cons, List.not_mem_nil, or_false] at direct
      grind

/-- What holds of a term whenever it holds of the terms directly below it holds of all terms. -/
theorem partsInduction {motive : Term → Prop}
    (step : ∀ term, (∀ part ∈ term.parts, motive part) → motive term) (term : Term) :
    motive term :=
  step term fun part _ => partsInduction step part
termination_by sizeOf term
decreasing_by exact sizeOf_lt_of_mem_parts ‹_›

end Term

namespace Ty

/-- The types directly below a type. -/
def parts : Ty → List Ty
  | .str | .uint64 | .bool | .named _ => []
  | .record fields => fields.map Prod.snd
  | .tuple elements => elements
  | .list element | .set element => [element]
  | .map key value => [key, value]
  | .ref inner _ => [inner]

/-- A type is larger than the types directly below it. -/
theorem sizeOf_lt_of_mem_parts {whole part : Ty} (direct : part ∈ whole.parts) :
    sizeOf part < sizeOf whole := by
  cases whole with
  | str | uint64 | bool | named => cases direct
  | record fields =>
      obtain ⟨⟨label, ty⟩, member, rfl⟩ := List.mem_map.mp direct
      have inside := List.sizeOf_lt_of_mem member
      simp only [Prod.mk.sizeOf_spec] at inside
      simp only [record.sizeOf_spec]
      omega
  | tuple elements =>
      have inside : sizeOf part < sizeOf elements := List.sizeOf_lt_of_mem direct
      simp only [tuple.sizeOf_spec]
      omega
  | list | set | map | ref =>
      simp only [parts, List.mem_cons, List.not_mem_nil, or_false] at direct
      grind

/-- What holds of a type whenever it holds of the types directly below it holds of all types. -/
theorem partsInduction {motive : Ty → Prop}
    (step : ∀ ty, (∀ part ∈ ty.parts, motive part) → motive ty) (ty : Ty) : motive ty :=
  step ty fun part _ => partsInduction step part
termination_by sizeOf ty
decreasing_by exact sizeOf_lt_of_mem_parts ‹_›

end Ty

end SpecTranspiler

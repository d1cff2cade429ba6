import SpecTranspiler.Assoc
import SpecTranspiler.Ir.Issue

/-!
# Reading the fields of a node

A node of a document is a JSON object. Its fields are read one by one, and a field that is
absent or of another kind is a fault that names the field and the context it was read in.
Fields that hold further nodes come with the fact that they are smaller than the node, by
which the recursions over documents end.
-/

namespace SpecTranspiler

/-- The members of a JSON object. -/
abbrev Node := List (String × Json)

namespace Node

/-- A value inside a node. -/
abbrev Part (α : Type) [SizeOf α] (node : Node) := { part : α // sizeOf part < sizeOf node }

/-- A value found under a key is smaller than the node. -/
theorem sizeOf_lookup_lt {node : Node} {key : String} {value : Json}
    (found : node.lookup key = some value) : sizeOf value < sizeOf node := by
  have small := List.sizeOf_lt_of_mem (Assoc.mem_of_lookup found)
  simp only [Prod.mk.sizeOf_spec] at small
  omega

/-- The members of a value that has to be an object. -/
def ofValue (value : Json) (context : String) : Except Fault Node :=
  match value with
  | .obj members => .ok members
  | _ => .error (.expectedObject context)

/-- A field of a node. -/
def child (node : Node) (key context : String) : Except Fault (Part Json node) :=
  match found : node.lookup key with
  | some value => .ok ⟨value, sizeOf_lookup_lt found⟩
  | none => .error (.missingField key context)

/-- A field that has to be a string. -/
def string (node : Node) (key context : String) : Except Fault String :=
  match node.lookup key with
  | some (.str value) => .ok value
  | some _ => .error (.wrongFieldType key .string context)
  | none => .error (.missingField key context)

/-- A field that has to be a boolean. -/
def boolean (node : Node) (key context : String) : Except Fault Bool :=
  match node.lookup key with
  | some (.bool value) => .ok value
  | some _ => .error (.wrongFieldType key .boolean context)
  | none => .error (.missingField key context)

/-- A field that has to be a number equal to an unsigned 64-bit integer. -/
def uint64 (node : Node) (key context : String) : Except Fault UInt64 :=
  match node.lookup key with
  | some (.num value) =>
      match value.toUInt64? with
      | some n => .ok n
      | none => .error (.invalidInteger value)
  | some _ => .error (.wrongFieldType key .number context)
  | none => .error (.missingField key context)

/-- A field that has to be an array. -/
def array (node : Node) (key context : String) : Except Fault (Part (List Json) node) :=
  match found : node.lookup key with
  | some (.arr elements) =>
      .ok ⟨elements, by
        have small := sizeOf_lookup_lt found
        simp only [Json.arr.sizeOf_spec] at small
        omega⟩
  | some _ => .error (.wrongFieldType key .array context)
  | none => .error (.missingField key context)

/-- A field that has to be an object. -/
def object (node : Node) (key context : String) : Except Fault (Part Node node) :=
  match found : node.lookup key with
  | some (.obj members) =>
      .ok ⟨members, by
        have small := sizeOf_lookup_lt found
        simp only [Json.obj.sizeOf_spec] at small
        omega⟩
  | some _ => .error (.wrongFieldType key .object context)
  | none => .error (.missingField key context)

end Node

end SpecTranspiler

import SpecTranspiler.Proofs.Descriptors
import SpecTranspiler.Proofs.Image

/-!
# The descriptor of a type

`Ty.descriptor` writes a type as a descriptor. A type without references is read back from its
descriptor, which is a value that a text can hold. Since no descriptor describes a type with a
reference, the types without references are exactly those that have a descriptor.
-/

namespace SpecTranspiler

namespace Json

/-- The node of an entry of a row. -/
def rowEntryNode (name : String) (descriptor : Json) : Node :=
  [("fieldName", .str name), ("fieldType", descriptor)]

/-- The node of a kind of descriptors that holds a row. -/
def rowNode (kind : String) (entries : List Json) : Node :=
  [("fields", .obj [("fields", .arr entries)]), ("kind", .str kind)]

theorem Canonical.rowEntryNode {name : String} {descriptor : Json}
    (canonical : Canonical descriptor) : Canonical (.obj (rowEntryNode name descriptor)) := by
  refine .obj ?_ ?_
  · change ["fieldName", "fieldType"].Pairwise (· < ·)
    decide
  · simp only [Json.rowEntryNode, List.forall_mem_cons]
    exact ⟨.str _, canonical, List.forall_mem_nil _⟩

theorem Canonical.rowNode {kind : String} {entries : List Json}
    (each : ∀ entry ∈ entries, Canonical entry) : Canonical (.obj (rowNode kind entries)) := by
  have row : Canonical (.obj [("fields", .arr entries)]) :=
    .obj (List.pairwise_singleton ..) (List.forall_mem_singleton.mpr (.arr each))
  refine .obj ?_ ?_
  · change ["fields", "kind"].Pairwise (· < ·)
    decide
  · simp only [Json.rowNode, List.forall_mem_cons]
    exact ⟨row, .str _, List.forall_mem_nil _⟩

end Json

namespace Ty

mutual

/-- The descriptor of a type. There is none for a reference, and `null` stands in its place. -/
def descriptor : Ty → Json
  | .record fields => .obj (Json.rowNode "rec" (fieldEntries fields))
  | .str => .obj [("kind", .str "str")]
  | .uint64 => .obj [("kind", .str "int")]
  | .bool => .obj [("kind", .str "bool")]
  | .tuple elements => .obj (Json.rowNode "tup" (elementEntries 0 elements))
  | .list element => .obj [("elem", element.descriptor), ("kind", .str "list")]
  | .set element => .obj [("elem", element.descriptor), ("kind", .str "set")]
  | .map key value =>
      .obj [("arg", key.descriptor), ("kind", .str "fun"), ("res", value.descriptor)]
  | .named name => .obj [("kind", .str "const"), ("name", .str name)]
  | .ref _ _ => .null

/-- The entries of the row of a record type. -/
def fieldEntries : List (String × Ty) → List Json
  | [] => []
  | (name, ty) :: rest => .obj (Json.rowEntryNode name ty.descriptor) :: fieldEntries rest

/-- The entries of the row of a tuple type, which are named by their positions. -/
def elementEntries (index : Nat) : List Ty → List Json
  | [] => []
  | ty :: rest =>
      .obj (Json.rowEntryNode (toString index) ty.descriptor) :: elementEntries (index + 1) rest

end

/-- The entry of a row that holds a name and a type. -/
def rowEntry (name : String) (ty : Ty) : RowEntry :=
  ⟨Json.rowEntryNode name ty.descriptor, name, ty.descriptor, ty⟩

theorem rowEntry_read (name : String) (ty : Ty) : (rowEntry name ty).Read :=
  ⟨rfl, rfl⟩

/-- The row of a record type holds an entry for every field. -/
theorem fieldEntries_eq_map (fields : List (String × Ty)) :
    fieldEntries fields = fields.map fun field => .obj (rowEntry field.1 field.2).node := by
  induction fields with
  | nil => rfl
  | cons field rest ih =>
      rw [fieldEntries, ih, List.map_cons]
      rfl

/-- The row of a tuple type holds an entry for every element. -/
theorem elementEntries_eq_map (index : Nat) (elements : List Ty) :
    elementEntries index elements = (elements.zipIdx index).map fun element =>
      .obj (rowEntry (toString element.2) element.1).node := by
  induction elements generalizing index with
  | nil => rfl
  | cons element rest ih =>
      rw [elementEntries, ih, List.zipIdx_cons, List.map_cons]
      rfl

theorem IsRefFree.part {ty part : Ty} (free : ty.IsRefFree) (direct : part ∈ ty.parts) :
    part.IsRefFree := by
  intro inner mutable within
  exact free inner mutable (.deeper direct within)

/-- The descriptor of a type without references describes it. -/
theorem descriptor_described (ty : Ty) : ty.IsRefFree → Described ty.descriptor ty := by
  induction ty using partsInduction with | _ ty below
  intro free
  have inner : ∀ part ∈ ty.parts, Described part.descriptor part :=
    fun part direct => below part direct (free.part direct)
  cases ty with
  | str => exact .str rfl
  | uint64 => exact .int rfl
  | bool => exact .bool rfl
  | named name => exact .named rfl rfl
  | list element => exact .list rfl rfl (inner element (List.mem_singleton_self element))
  | set element => exact .set rfl rfl (inner element (List.mem_singleton_self element))
  | map key value =>
      exact .function rfl rfl rfl (inner key List.mem_cons_self)
        (inner value (List.mem_cons_of_mem key (List.mem_singleton_self value)))
  | ref target mutable => exact (free target mutable .here).elim
  | record fields =>
      have holds : Node.HoldsRow (Json.rowNode "rec" (fieldEntries fields)) "rec"
          (fields.map fun field => rowEntry field.1 field.2) := by
        refine ⟨rfl, ⟨_, rfl, ?_⟩, List.forall_mem_map.mpr fun field _ => rowEntry_read ..⟩
        rw [List.map_map, fieldEntries_eq_map]
        rfl
      have described := Described.record holds (List.forall_mem_map.mpr fun field member =>
        inner field.2 (List.mem_map_of_mem member))
      rw [List.map_map, List.map_id''] at described
      · exact described
      · exact fun field => rfl
  | tuple elements =>
      have holds : Node.HoldsRow (Json.rowNode "tup" (elementEntries 0 elements)) "tup"
          (elements.zipIdx.map fun element => rowEntry (toString element.2) element.1) := by
        refine ⟨rfl, ⟨_, rfl, ?_⟩, List.forall_mem_map.mpr fun element _ => rowEntry_read ..⟩
        rw [List.map_map, elementEntries_eq_map]
        rfl
      have described := Described.tuple holds (List.forall_mem_map.mpr fun element member =>
        inner element.1 (List.fst_mem_of_mem_zipIdx member))
      have types : elements.zipIdx.map (RowEntry.ty ∘ fun element =>
          rowEntry (toString element.2) element.1) = elements := List.zipIdx_map_fst 0 elements
      rw [List.map_map, types] at described
      exact described

/-- The descriptor of a type is a value that a text can hold. -/
theorem descriptor_canonical (ty : Ty) : ty.descriptor.Canonical := by
  induction ty using partsInduction with | _ ty below
  cases ty with
  | str | uint64 | bool =>
      exact .obj (List.pairwise_singleton ..) (List.forall_mem_singleton.mpr (.str _))
  | named name =>
      refine .obj ?_ ?_
      · change ["kind", "name"].Pairwise (· < ·)
        decide
      · simp only [List.forall_mem_cons]
        exact ⟨.str _, .str _, List.forall_mem_nil _⟩
  | list element | set element =>
      refine .obj ?_ ?_
      · change ["elem", "kind"].Pairwise (· < ·)
        decide
      · simp only [List.forall_mem_cons]
        exact ⟨below element (List.mem_singleton_self element), .str _, List.forall_mem_nil _⟩
  | map key value =>
      refine .obj ?_ ?_
      · change ["arg", "kind", "res"].Pairwise (· < ·)
        decide
      · simp only [List.forall_mem_cons]
        exact ⟨below key List.mem_cons_self, .str _,
          below value (List.mem_cons_of_mem key (List.mem_singleton_self value)),
          List.forall_mem_nil _⟩
  | ref target mutable => exact .null
  | record fields =>
      refine .rowNode ?_
      rw [fieldEntries_eq_map]
      exact List.forall_mem_map.mpr fun field member =>
        .rowEntryNode (below field.2 (List.mem_map_of_mem member))
  | tuple elements =>
      refine .rowNode ?_
      rw [elementEntries_eq_map]
      exact List.forall_mem_map.mpr fun element member =>
        .rowEntryNode (below element.1 (List.fst_mem_of_mem_zipIdx member))

/-- Reading a descriptor gives the type that the rules describe, and fails where they describe
none. A type without references is read back from its own descriptor, a value that a text can
hold, and no other type is ever read. -/
theorem ofDescriptor_inverts_descriptor :
    (∀ (value : Json) (ty : Ty), ofDescriptor value = .ok ty ↔ Described value ty) ∧
    (∀ ty : Ty, ty.IsRefFree → ty.descriptor.Canonical ∧ Described ty.descriptor ty ∧
      ofDescriptor ty.descriptor = .ok ty) ∧
    ∀ (value : Json) (ty : Ty), ofDescriptor value = .ok ty → ty.IsRefFree := by
  refine ⟨fun value ty => ofDescriptor_eq_ok, fun ty free => ?_, fun value ty read => ?_⟩
  · have described := ty.descriptor_described free
    exact ⟨ty.descriptor_canonical, described, ofDescriptor_eq_ok.mpr described⟩
  · exact (ofDescriptor_eq_ok.mp read).isRefFree

/-- A record of a name, a list of pairs and a map to sets. -/
def account : Ty :=
  .record [("owner", .named "Address"), ("log", .list (.tuple [.uint64, .str])),
    ("seen", .map .str (.set .bool))]

/-- A descriptor of the record whose nodes have members that are not read. -/
def accountDescriptor : Json :=
  .obj [("fields", .obj [("fields", .arr [
      .obj [("fieldName", .str "owner"),
        ("fieldType", .obj [("id", .num (.int 7)), ("kind", .str "const"),
          ("name", .str "Address")])],
      .obj [("fieldName", .str "log"),
        ("fieldType", .obj [("elem", .obj (Json.rowNode "tup" [
            .obj (Json.rowEntryNode "first" (.obj [("kind", .str "int")])),
            .obj (Json.rowEntryNode "second" (.obj [("kind", .str "str")]))])),
          ("kind", .str "list")])],
      .obj [("fieldName", .str "seen"),
        ("fieldType", .obj [("arg", .obj [("kind", .str "str")]), ("kind", .str "fun"),
          ("res", .obj [("elem", .obj [("kind", .str "bool")]), ("kind", .str "set")])])]]),
      ("kind", .str "row")]), ("kind", .str "rec")]

/-- The record is read from the descriptor, and from the descriptor that it is written as. -/
theorem accountDescriptor_inverts :
    ofDescriptor accountDescriptor = .ok account ∧ Described accountDescriptor account ∧
      account.IsRefFree ∧ account.descriptor.Canonical ∧
      ofDescriptor account.descriptor = .ok account := by
  obtain ⟨exactly, inverts, free⟩ := ofDescriptor_inverts_descriptor
  have read : ofDescriptor accountDescriptor = .ok account := by
    with_unfolding_all rfl
  have refFree := free accountDescriptor account read
  obtain ⟨canonical, -, again⟩ := inverts account refFree
  exact ⟨read, (exactly accountDescriptor account).mp read, refFree, canonical, again⟩

end Ty

end SpecTranspiler

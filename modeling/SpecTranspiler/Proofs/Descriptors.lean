import SpecTranspiler.Lower.Descriptor
import SpecTranspiler.Proofs.Runs
import SpecTranspiler.Proofs.Subterms

/-!
# Which types descriptors describe

`Ty.Described` says which type a descriptor describes, one rule for every kind of descriptor.
`Ty.ofDescriptor_eq_ok` ties the rules to the reading of descriptors. What holds of every
described type follows by induction on the rules; no such type holds a reference.
-/

namespace SpecTranspiler

/-- A reading that goes on succeeds exactly when its parts do, one after the other. -/
theorem bind_eq_ok {ε α β : Type} {reading : Except ε α} {next : α → Except ε β} {b : β} :
    (reading >>= next) = .ok b ↔ ∃ a, reading = .ok a ∧ next a = .ok b := by
  cases reading with
  | error fault =>
      constructor
      · intro impossible
        cases impossible
      · rintro ⟨_, impossible, _⟩
        cases impossible
  | ok a =>
      constructor
      · intro run
        exact ⟨a, rfl, run⟩
      · rintro ⟨_, same, run⟩
        cases same
        exact run

theorem pure_eq_ok {ε α : Type} {a b : α} : (pure a : Except ε α) = .ok b ↔ b = a := by
  constructor
  · intro same
    cases same
    rfl
  · rintro rfl
    rfl

/-- The name of a kind of type descriptors. -/
def TypeKind.name : TypeKind → String
  | .record => "rec"
  | .str => "str"
  | .named => "const"
  | .list => "list"
  | .int => "int"
  | .set => "set"
  | .function => "fun"
  | .bool => "bool"
  | .tuple => "tup"

theorem TypeKind.ofName?_eq_some {name : String} {kind : TypeKind} :
    TypeKind.ofName? name = some kind ↔ name = kind.name := by
  constructor
  · intro named
    unfold TypeKind.ofName? at named
    split at named <;> cases named <;> rfl
  · rintro rfl
    cases kind <;> rfl

/-- An entry of a row: its node, its name, and its type with the descriptor. -/
structure RowEntry where
  node : Node
  name : String
  descriptor : Json
  ty : Ty

/-- The fields of the node hold the entry. -/
structure RowEntry.Read (entry : RowEntry) : Prop where
  name : entry.node.lookup "fieldName" = some (.str entry.name)
  descriptor : entry.node.lookup "fieldType" = some entry.descriptor

/-- The node is of a kind that holds a row with the given entries. -/
structure Node.HoldsRow (node : Node) (kind : String) (entries : List RowEntry) : Prop where
  kind : node.lookup "kind" = some (.str kind)
  row : ∃ row : Node, node.lookup "fields" = some (.obj row) ∧
    row.lookup "fields" = some (.arr (entries.map fun entry => .obj entry.node))
  read : ∀ entry ∈ entries, entry.Read

namespace Ty

/-- A descriptor describes a type. -/
inductive Described : Json → Ty → Prop where
  | str {node : Node} (kindField : node.lookup "kind" = some (.str "str")) :
      Described (.obj node) .str
  | int {node : Node} (kindField : node.lookup "kind" = some (.str "int")) :
      Described (.obj node) .uint64
  | bool {node : Node} (kindField : node.lookup "kind" = some (.str "bool")) :
      Described (.obj node) .bool
  | named {node : Node} {name : String} (kindField : node.lookup "kind" = some (.str "const"))
      (nameField : node.lookup "name" = some (.str name)) :
      Described (.obj node) (.named name)
  | list {node : Node} {descriptor : Json} {element : Ty}
      (kindField : node.lookup "kind" = some (.str "list"))
      (elementField : node.lookup "elem" = some descriptor)
      (described : Described descriptor element) : Described (.obj node) (.list element)
  | set {node : Node} {descriptor : Json} {element : Ty}
      (kindField : node.lookup "kind" = some (.str "set"))
      (elementField : node.lookup "elem" = some descriptor)
      (described : Described descriptor element) : Described (.obj node) (.set element)
  | function {node : Node} {argument result : Json} {key value : Ty}
      (kindField : node.lookup "kind" = some (.str "fun"))
      (argumentField : node.lookup "arg" = some argument)
      (resultField : node.lookup "res" = some result)
      (argument : Described argument key) (result : Described result value) :
      Described (.obj node) (.map key value)
  | record {node : Node} {entries : List RowEntry} (holds : node.HoldsRow "rec" entries)
      (described : ∀ entry ∈ entries, Described entry.descriptor entry.ty) :
      Described (.obj node) (.record (entries.map fun entry => (entry.name, entry.ty)))
  | tuple {node : Node} {entries : List RowEntry} (holds : node.HoldsRow "tup" entries)
      (described : ∀ entry ∈ entries, Described entry.descriptor entry.ty) :
      Described (.obj node) (.tuple (entries.map RowEntry.ty))

/-- A row is read as its entries, if their descriptors describe their types. -/
theorem ofRow_of_entries {context : String} {entries : List RowEntry}
    (read : ∀ entry ∈ entries, entry.Read)
    (described : ∀ entry ∈ entries, ofDescriptor entry.descriptor = .ok entry.ty) :
    ofRow context (entries.map fun entry => .obj entry.node) =
      .ok (entries.map fun entry => (entry.name, entry.ty)) := by
  induction entries with
  | nil =>
      rw [List.map_nil, ofRow]
      rfl
  | cons entry rest ih =>
      obtain ⟨here, others⟩ := List.forall_mem_cons.mp read
      obtain ⟨ty, types⟩ := List.forall_mem_cons.mp described
      rw [List.map_cons, ofRow]
      refine bind_eq_ok.mpr ⟨entry.name, Node.string_eq_ok.mpr here.name, ?_⟩
      refine bind_eq_ok.mpr ⟨⟨entry.descriptor, Node.sizeOf_lookup_lt here.descriptor⟩,
        Node.child_eq_ok.mpr here.descriptor, ?_⟩
      refine bind_eq_ok.mpr ⟨entry.ty, ty, bind_eq_ok.mpr ⟨_, ih others types, rfl⟩⟩

/-- The entries of a row, if every descriptor in them is read as one that describes a type. -/
theorem entries_of_ofRow {context : String} {values : List Json} {fields : List (String × Ty)}
    (inner : ∀ value ∈ values, ∀ part : Json, sizeOf part < sizeOf value →
      ∀ ty, ofDescriptor part = .ok ty → Described part ty)
    (read : ofRow context values = .ok fields) :
    ∃ entries : List RowEntry, values = entries.map (fun entry => .obj entry.node) ∧
      fields = entries.map (fun entry => (entry.name, entry.ty)) ∧
      (∀ entry ∈ entries, entry.Read) ∧
      ∀ entry ∈ entries, Described entry.descriptor entry.ty := by
  induction values generalizing fields with
  | nil =>
      rw [ofRow] at read
      obtain rfl := pure_eq_ok.mp read
      exact ⟨[], rfl, rfl, List.forall_mem_nil _, List.forall_mem_nil _⟩
  | cons value rest ih =>
      obtain ⟨here, there⟩ := List.forall_mem_cons.mp inner
      cases value with
      | obj node =>
          rw [ofRow] at read
          obtain ⟨name, named, read⟩ := bind_eq_ok.mp read
          obtain ⟨⟨descriptor, small⟩, found, read⟩ := bind_eq_ok.mp read
          obtain ⟨ty, typed, read⟩ := bind_eq_ok.mp read
          obtain ⟨others, readOthers, read⟩ := bind_eq_ok.mp read
          obtain rfl := pure_eq_ok.mp read
          obtain ⟨entries, rfl, rfl, readEntries, described⟩ := ih there readOthers
          have first : Described descriptor ty :=
            here descriptor (by simp only [Json.obj.sizeOf_spec]; omega) ty typed
          refine ⟨⟨node, name, descriptor, ty⟩ :: entries, rfl, rfl, ?_, ?_⟩
          · exact List.forall_mem_cons.mpr
              ⟨⟨Node.string_eq_ok.mp named, Node.child_eq_ok.mp found⟩, readEntries⟩
          · exact List.forall_mem_cons.mpr ⟨first, described⟩
      | _ =>
          rw [ofRow] at read
          · cases read
          · rintro _ ⟨⟩

/-- The row that a descriptor holds is found, with its entries. -/
theorem row_of_holdsRow {node : Node} {kind context : String} {entries : List RowEntry}
    (holds : node.HoldsRow kind entries)
    (described : ∀ entry ∈ entries, ofDescriptor entry.descriptor = .ok entry.ty) :
    ∃ (row : Node.Part Node node) (values : Node.Part (List Json) row.1),
      Node.object node "fields" context = .ok row ∧
      Node.array row.1 "fields" context = .ok values ∧
      ofRow context values.1 = .ok (entries.map fun entry => (entry.name, entry.ty)) := by
  obtain ⟨row, rowField, entriesField⟩ := holds.row
  have rowSmall := Node.sizeOf_lookup_lt rowField
  have entriesSmall := Node.sizeOf_lookup_lt entriesField
  simp only [Json.obj.sizeOf_spec, Json.arr.sizeOf_spec] at rowSmall entriesSmall
  exact ⟨⟨row, by omega⟩, ⟨_, by dsimp only; omega⟩, Node.object_eq_ok.mpr rowField,
    Node.array_eq_ok.mpr entriesField, ofRow_of_entries holds.read described⟩

/-- What a descriptor describes is what is read from it. -/
theorem Described.ofDescriptor {descriptor : Json} {ty : Ty} (described : Described descriptor ty) :
    ofDescriptor descriptor = .ok ty := by
  induction described with
  | str kindField | int kindField | bool kindField =>
      rw [Ty.ofDescriptor]
      exact bind_eq_ok.mpr ⟨_, Node.string_eq_ok.mpr kindField, rfl⟩
  | named kindField nameField =>
      rw [Ty.ofDescriptor]
      refine bind_eq_ok.mpr ⟨_, Node.string_eq_ok.mpr kindField, ?_⟩
      exact bind_eq_ok.mpr ⟨_, Node.string_eq_ok.mpr nameField, rfl⟩
  | list kindField elementField _ ih | set kindField elementField _ ih =>
      rw [Ty.ofDescriptor]
      refine bind_eq_ok.mpr ⟨_, Node.string_eq_ok.mpr kindField, ?_⟩
      refine bind_eq_ok.mpr ⟨⟨_, Node.sizeOf_lookup_lt elementField⟩,
        Node.child_eq_ok.mpr elementField, ?_⟩
      exact bind_eq_ok.mpr ⟨_, ih, rfl⟩
  | function kindField argumentField resultField _ _ argumentIH resultIH =>
      rw [Ty.ofDescriptor]
      refine bind_eq_ok.mpr ⟨_, Node.string_eq_ok.mpr kindField, ?_⟩
      refine bind_eq_ok.mpr ⟨⟨_, Node.sizeOf_lookup_lt argumentField⟩,
        Node.child_eq_ok.mpr argumentField, bind_eq_ok.mpr ⟨_, argumentIH, ?_⟩⟩
      exact bind_eq_ok.mpr ⟨⟨_, Node.sizeOf_lookup_lt resultField⟩,
        Node.child_eq_ok.mpr resultField, bind_eq_ok.mpr ⟨_, resultIH, rfl⟩⟩
  | record holds _ ih =>
      rw [Ty.ofDescriptor]
      refine bind_eq_ok.mpr ⟨_, Node.string_eq_ok.mpr holds.kind, ?_⟩
      obtain ⟨row, values, found, listed, read⟩ := row_of_holdsRow holds ih
      exact bind_eq_ok.mpr ⟨row, found, bind_eq_ok.mpr ⟨values, listed,
        bind_eq_ok.mpr ⟨_, read, rfl⟩⟩⟩
  | tuple holds _ ih =>
      rw [Ty.ofDescriptor]
      refine bind_eq_ok.mpr ⟨_, Node.string_eq_ok.mpr holds.kind, ?_⟩
      obtain ⟨row, values, found, listed, read⟩ := row_of_holdsRow holds ih
      refine bind_eq_ok.mpr ⟨row, found, bind_eq_ok.mpr ⟨values, listed,
        bind_eq_ok.mpr ⟨_, read, ?_⟩⟩⟩
      rw [List.map_map]
      rfl

/-- The row that a descriptor holds, if every descriptor below it is read as one that
describes a type. -/
theorem holdsRow_of_row {node : Node} {kind context : String} {row : Node.Part Node node}
    {values : Node.Part (List Json) row.1} {fields : List (String × Ty)}
    (inner : ∀ part : Json, sizeOf part < sizeOf (Json.obj node) →
      ∀ ty, ofDescriptor part = .ok ty → Described part ty)
    (kindField : node.lookup "kind" = some (.str kind))
    (found : Node.object node "fields" context = .ok row)
    (listed : Node.array row.1 "fields" context = .ok values)
    (read : ofRow context values.1 = .ok fields) :
    ∃ entries : List RowEntry, node.HoldsRow kind entries ∧
      fields = entries.map (fun entry => (entry.name, entry.ty)) ∧
      ∀ entry ∈ entries, Described entry.descriptor entry.ty := by
  have rowSmall := row.2
  have valuesSmall := values.2
  have below : ∀ value ∈ values.1, ∀ part : Json, sizeOf part < sizeOf value →
      ∀ ty, ofDescriptor part = .ok ty → Described part ty := by
    intro value member part small
    have valueSmall := List.sizeOf_lt_of_mem member
    refine inner part ?_
    simp only [Json.obj.sizeOf_spec]
    omega
  obtain ⟨entries, same, rfl, readEntries, described⟩ := entries_of_ofRow below read
  have rowField := Node.array_eq_ok.mp listed
  rw [same] at rowField
  exact ⟨entries, ⟨kindField, ⟨row.1, Node.object_eq_ok.mp found, rowField⟩, readEntries⟩, rfl,
    described⟩

/-- What is read from a descriptor is what it describes. The induction is on the size of the value,
and the cases are the kinds of descriptors. -/
theorem described_of_ofDescriptor (descriptor : Json) {ty : Ty}
    (read : ofDescriptor descriptor = .ok ty) : Described descriptor ty := by
  -- The descriptors inside a descriptor are smaller, so the rules apply to them.
  have inner : ∀ part : Json, sizeOf part < sizeOf descriptor →
      ∀ ty, ofDescriptor part = .ok ty → Described part ty :=
    fun part _ _ reading => described_of_ofDescriptor part reading
  cases descriptor with
  | obj node =>
      rw [ofDescriptor] at read
      obtain ⟨name, kindFound, read⟩ := bind_eq_ok.mp read
      have kindField := Node.string_eq_ok.mp kindFound
      cases known : TypeKind.ofName? name with
      | none =>
          simp only [known] at read
          cases read
      | some kind =>
          obtain rfl := TypeKind.ofName?_eq_some.mp known
          simp only [known] at read
          cases kind with
          | str =>
              obtain rfl := pure_eq_ok.mp read
              exact .str kindField
          | int =>
              obtain rfl := pure_eq_ok.mp read
              exact .int kindField
          | bool =>
              obtain rfl := pure_eq_ok.mp read
              exact .bool kindField
          | named =>
              obtain ⟨label, named, read⟩ := bind_eq_ok.mp read
              obtain rfl := pure_eq_ok.mp read
              exact .named kindField (Node.string_eq_ok.mp named)
          | list =>
              obtain ⟨⟨element, small⟩, found, read⟩ := bind_eq_ok.mp read
              obtain ⟨ty, typed, read⟩ := bind_eq_ok.mp read
              obtain rfl := pure_eq_ok.mp read
              exact .list kindField (Node.child_eq_ok.mp found)
                (inner element (by simp only [Json.obj.sizeOf_spec]; omega) ty typed)
          | set =>
              obtain ⟨⟨element, small⟩, found, read⟩ := bind_eq_ok.mp read
              obtain ⟨ty, typed, read⟩ := bind_eq_ok.mp read
              obtain rfl := pure_eq_ok.mp read
              exact .set kindField (Node.child_eq_ok.mp found)
                (inner element (by simp only [Json.obj.sizeOf_spec]; omega) ty typed)
          | function =>
              obtain ⟨⟨argument, argumentSmall⟩, argumentFound, read⟩ := bind_eq_ok.mp read
              obtain ⟨key, keyTyped, read⟩ := bind_eq_ok.mp read
              obtain ⟨⟨result, resultSmall⟩, resultFound, read⟩ := bind_eq_ok.mp read
              obtain ⟨value, valueTyped, read⟩ := bind_eq_ok.mp read
              obtain rfl := pure_eq_ok.mp read
              exact .function kindField (Node.child_eq_ok.mp argumentFound)
                (Node.child_eq_ok.mp resultFound)
                (inner argument (by simp only [Json.obj.sizeOf_spec]; omega) key keyTyped)
                (inner result (by simp only [Json.obj.sizeOf_spec]; omega) value valueTyped)
          | record =>
              obtain ⟨row, found, read⟩ := bind_eq_ok.mp read
              obtain ⟨values, listed, read⟩ := bind_eq_ok.mp read
              obtain ⟨fields, rowRead, read⟩ := bind_eq_ok.mp read
              obtain rfl := pure_eq_ok.mp read
              obtain ⟨entries, holds, rfl, described⟩ :=
                holdsRow_of_row inner kindField found listed rowRead
              exact .record holds described
          | tuple =>
              obtain ⟨row, found, read⟩ := bind_eq_ok.mp read
              obtain ⟨values, listed, read⟩ := bind_eq_ok.mp read
              obtain ⟨fields, rowRead, read⟩ := bind_eq_ok.mp read
              obtain rfl := pure_eq_ok.mp read
              obtain ⟨entries, holds, rfl, described⟩ :=
                holdsRow_of_row inner kindField found listed rowRead
              rw [List.map_map]
              exact .tuple holds described
  | _ =>
      rw [ofDescriptor] at read
      · cases read
      · rintro _ ⟨⟩
termination_by sizeOf descriptor

/-- The rules say exactly which type is read from a descriptor. -/
theorem ofDescriptor_eq_ok {descriptor : Json} {ty : Ty} :
    ofDescriptor descriptor = .ok ty ↔ Described descriptor ty :=
  ⟨described_of_ofDescriptor descriptor, Described.ofDescriptor⟩

/-- A type occurs in a type. -/
inductive Within (inner : Ty) : Ty → Prop where
  | here : Within inner inner
  | deeper {part whole : Ty} (direct : part ∈ whole.parts) (inside : Within inner part) :
      Within inner whole

/-- No reference occurs in the type. -/
def IsRefFree (ty : Ty) : Prop :=
  ∀ (inner : Ty) (mutable : Bool), ¬Within (.ref inner mutable) ty

/-- The type is a reference. -/
def isRef : Ty → Bool
  | .ref .. => true
  | _ => false

/-- A type that is no reference is free of references if its parts are. -/
theorem IsRefFree.of_parts {ty : Ty} (notRef : ty.isRef = false)
    (each : ∀ part ∈ ty.parts, part.IsRefFree) : ty.IsRefFree := by
  intro inner mutable within
  cases within with
  | here => cases notRef
  | deeper direct inside => exact each _ direct inner mutable inside

/-- No descriptor describes a type that holds a reference. -/
theorem Described.isRefFree {descriptor : Json} {ty : Ty} (described : Described descriptor ty) :
    ty.IsRefFree := by
  induction described with
  | str | int | bool | named => exact .of_parts rfl (List.forall_mem_nil _)
  | list _ _ _ ih | set _ _ _ ih => exact .of_parts rfl (List.forall_mem_singleton.mpr ih)
  | function _ _ _ _ _ keyIH valueIH =>
      refine .of_parts rfl (List.forall_mem_cons.mpr ⟨keyIH, ?_⟩)
      exact List.forall_mem_singleton.mpr valueIH
  | record _ _ ih =>
      refine .of_parts rfl ?_
      simp only [parts, List.map_map, List.forall_mem_map]
      exact ih
  | tuple _ _ ih =>
      refine .of_parts rfl ?_
      simp only [parts, List.forall_mem_map]
      exact ih

end Ty

end SpecTranspiler

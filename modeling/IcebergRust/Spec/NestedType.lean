import IcebergRust.Spec.Types

/-!
# Recursion over types

* `IcebergType.fold` is what is computed of a type from what is computed of the types inside.
* `IcebergType.induction` is the induction over the types inside a type.
-/

namespace IcebergRust

namespace IcebergType

section Fold

variable {R : Type*} (primitive : PrimitiveType → R) (struct : List (StructField × R) → R)
  (list : ListType → R → R) (map : MapType → R → R → R)

mutual

/-- What is computed of a type. -/
def fold : IcebergType → R
  | .primitive type => primitive type
  | .struct type => foldStruct type
  | .list type => foldList type
  | .map type => foldMap type
termination_by structural type => type

def foldStruct : StructType → R
  | ⟨fields⟩ => struct (foldFields fields)
termination_by structural type => type

def foldList : ListType → R
  | ⟨elementId, elementRequired, element⟩ =>
    list ⟨elementId, elementRequired, element⟩ (fold element)
termination_by structural type => type

def foldMap : MapType → R
  | ⟨keyId, key, valueId, valueRequired, value⟩ =>
    map ⟨keyId, key, valueId, valueRequired, value⟩ (fold key) (fold value)
termination_by structural type => type

def foldField : StructField → StructField × R
  | ⟨id, name, required, fieldType, doc, initialDefault, writeDefault⟩ =>
    (⟨id, name, required, fieldType, doc, initialDefault, writeDefault⟩, fold fieldType)
termination_by structural field => field

def foldFields : List StructField → List (StructField × R)
  | [] => []
  | field :: fields => foldField field :: foldFields fields
termination_by structural fields => fields

end

@[simp]
theorem fold_struct (type : StructType) :
    fold primitive struct list map (.struct type) = struct (type.fields.map fun field =>
      (field, fold primitive struct list map field.fieldType)) := by
  obtain ⟨fields⟩ := type
  refine congrArg struct ?_
  induction fields with
  | nil => rfl
  | cons field fields ih =>
    rw [List.map_cons, ← ih]
    cases field
    rfl

@[simp]
theorem fold_list (type : ListType) :
    fold primitive struct list map (.list type) =
      list type (fold primitive struct list map type.element) := by
  cases type
  rfl

@[simp]
theorem fold_map (type : MapType) :
    fold primitive struct list map (.map type) =
      map type (fold primitive struct list map type.key)
        (fold primitive struct list map type.value) := by
  cases type
  rfl

end Fold

/-- What holds of a type when it holds of the types inside holds of every type. -/
@[elab_as_elim, induction_eliminator]
theorem induction {motive : IcebergType → Prop} (primitive : ∀ type, motive (.primitive type))
    (struct : ∀ type : StructType, (∀ field ∈ type.fields, motive field.fieldType) →
      motive (.struct type))
    (list : ∀ type : ListType, motive type.element → motive (.list type))
    (map : ∀ type : MapType, motive type.key → motive type.value → motive (.map type))
    (type : IcebergType) : motive type :=
  @IcebergType.rec motive (fun field => motive field.fieldType)
    (fun type => ∀ field ∈ type.fields, motive field.fieldType) (fun type => motive type.element)
    (fun type => motive type.key ∧ motive type.value)
    (fun fields => ∀ field ∈ fields, motive field.fieldType)
    primitive struct list (fun type inside => map type inside.1 inside.2)
    (fun _ _ _ _ _ _ _ inside => inside) (fun _ inside => inside) (fun _ _ _ inside => inside)
    (fun _ _ _ _ _ key value => ⟨key, value⟩) (by simp)
    (fun _ _ head tail => List.forall_mem_cons.mpr ⟨head, tail⟩) type

end IcebergType

end IcebergRust

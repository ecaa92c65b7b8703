import IcebergRust.Spec.Types

/-!
# Schemas, partition specs and sort orders

`schema.rs`, `partition.rs` and `sort.rs` of the spec crate: the identified
objects a table's metadata stores by id, and the types of the values of a
partition tuple under a spec.

* `PartitionSpec.dataTypes` fails when a source column is gone;
  `PartitionSpec.dataTypesLenient` keeps `none` in its place.
* `partitionFields` binds every partition field to its source column.
-/

namespace IcebergRust

structure Schema where
  schemaId : Int
  identifierFieldIds : Option (List Int)
  fields : StructType
deriving DecidableEq

def Schema.get (schema : Schema) (id : Int) : Option StructField := schema.fields.get id

/-- `str::split` at a character. -/
def splitAt (separator : Char) (text : String) : List String :=
  (text.toList.splitOn separator).map String.ofList

/-- `StructType::get_name`: the field of a name, or the field of the first dotted part that names
one. -/
def StructType.getName (type : StructType) (name : String) : Option StructField :=
  (type.fields.find? fun field => field.name = name).or
    ((splitAt '.' name).findSome? fun part => type.fields.find? fun field => field.name = part)

/-- `Schema::project`: the schema restricted to some field ids. -/
def Schema.project (schema : Schema) (ids : List Int) : Schema where
  schemaId := schema.schemaId
  identifierFieldIds := schema.identifierFieldIds.map (·.filter (ids.contains ·))
  fields := ⟨schema.fields.fields.filter fun field => ids.contains field.id⟩

/-! ### Partition specs -/

structure PartitionField where
  sourceId : Int
  fieldId : Int
  name : String
  transform : Transform
deriving DecidableEq, Repr

structure PartitionSpec where
  specId : Int
  fields : List PartitionField
deriving DecidableEq, Repr

/-- The default spec is unpartitioned and has id 0. -/
instance : Inhabited PartitionSpec := ⟨⟨0, []⟩⟩

/-- `PartitionSpec::data_types`. -/
def PartitionSpec.dataTypes (spec : PartitionSpec) (schema : StructType) :
    Except Error (List IcebergType) :=
  spec.fields.mapM fun field =>
    match schema.get field.sourceId with
    | none => .error (.notFound ("Schema field " ++ field.name))
    | some column => column.fieldType.tranform field.transform

/-- `PartitionSpec::data_types_lenient`. -/
def PartitionSpec.dataTypesLenient (spec : PartitionSpec) (schema : StructType) :
    List (Option IcebergType) :=
  spec.fields.map fun field =>
    (schema.get field.sourceId).bind fun column =>
      (column.fieldType.tranform field.transform).toOption

/-- A partition field together with the source column it reads. -/
structure BoundPartitionField where
  partitionField : PartitionField
  structField : StructField
deriving DecidableEq

namespace BoundPartitionField

def name (field : BoundPartitionField) : String := field.partitionField.name
def sourceName (field : BoundPartitionField) : String := field.structField.name
def fieldType (field : BoundPartitionField) : IcebergType := field.structField.fieldType
def transform (field : BoundPartitionField) : Transform := field.partitionField.transform
def fieldId (field : BoundPartitionField) : Int := field.partitionField.fieldId
def sourceId (field : BoundPartitionField) : Int := field.partitionField.sourceId
def required (field : BoundPartitionField) : Bool := field.structField.required

end BoundPartitionField

/-- `partition_fields` of `table_metadata.rs`. -/
def partitionFields (spec : PartitionSpec) (schema : Schema) :
    Except Error (List BoundPartitionField) :=
  spec.fields.mapM fun field =>
    match schema.get field.sourceId with
    | none => .error (.notFound ("Schema field with id " ++ toString field.sourceId))
    | some column => .ok ⟨field, column⟩

/-! ### Sort orders -/

inductive SortDirection where
  | ascending
  | descending
deriving DecidableEq, Repr

inductive NullOrder where
  | first
  | last
deriving DecidableEq, Repr

structure SortField where
  sourceId : Int
  transform : Transform
  direction : SortDirection
  nullOrder : NullOrder
deriving DecidableEq, Repr

structure SortOrder where
  orderId : Int
  fields : List SortField
deriving DecidableEq, Repr

/-- Order id 0 is the unsorted order. -/
instance : Inhabited SortOrder := ⟨⟨0, []⟩⟩

end IcebergRust

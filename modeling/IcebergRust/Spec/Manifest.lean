import IcebergRust.Spec.TableMetadata

/-!
# Data files and manifest entries

`iceberg-rust-spec/src/spec/manifest.rs` and the partition tuples of `values.rs`:
what a manifest stores for each file, how the three format versions truncate it,
and the row-id inheritance a reader applies.

* `PartitionValue` is the interface of `Value` and of the Avro codec the functions
  below use.  It states no laws: what is proved over it holds for every comparison,
  promotion and encoding of partition values.
* `ManifestEntry.toVersion` is the record a manifest of a format version keeps of an
  entry, and `ManifestEntry.tryFromStored` the conversion back; together they are the
  `ManifestEntryV1`/`V2`/`V3` conversions of the source.
* `FirstRowIdInheritance.apply` is the reader's positional inheritance of row ids.
-/

namespace IcebergRust

/-! ### Partition tuples -/

/-- `Struct` of `values.rs`: the columns of a tuple in order, with their names.  The
source's `lookup` table maps a name to the last column of that name. -/
structure Struct (V : Type) where
  fields : List (String × Option V)
deriving DecidableEq

namespace Struct

variable {V : Type}

/-- `Struct::get`. -/
def get (tuple : Struct V) (name : String) : Option (Option V) :=
  (tuple.fields.reverse.find? fun column => column.1 = name).map (·.2)

/-- Writing through `Struct::get_mut`: the last column of the name is replaced. -/
def set (tuple : Struct V) (name : String) (value : Option V) : Struct V :=
  let rec go : List (String × Option V) → List (String × Option V)
    | [] => []
    | column :: columns =>
      if column.1 = name then (name, value) :: columns else column :: go columns
  ⟨(go tuple.fields.reverse).reverse⟩

theorem find_go (name other : String) (value : Option V) (columns : List (String × Option V)) :
    ((set.go name value columns).find? fun column => column.1 = other).map (·.2) =
      if other = name ∧ (columns.find? fun column => column.1 = name).isSome then some value
      else (columns.find? fun column => column.1 = other).map (·.2) := by
  induction columns with
  | nil => simp [set.go]
  | cons column columns ih =>
    rw [set.go]
    by_cases here : column.1 = name
    · rw [if_pos here]
      by_cases same : other = name
      · subst same
        simp [here]
      · have differ : ¬ name = other := fun equal => same equal.symm
        simp [here, same, differ]
    · rw [if_neg here]
      by_cases found : column.1 = other
      · have differ : ¬ other = name := fun equal => here (found.trans equal)
        simp [found, differ]
      · simp only [List.find?_cons, found, here, decide_false]
        exact ih

theorem get_set (tuple : Struct V) (name other : String) (value : Option V) :
    (tuple.set name value).get other =
      if other = name ∧ (tuple.get name).isSome then some value else tuple.get other := by
  have found := find_go name other value tuple.fields.reverse
  unfold get set
  rw [List.reverse_reverse, found, Option.isSome_map]

end Struct

/-- What the modelled functions use of `Value` and of the Avro codec.

The value operations are those of `values.rs`.  `parsePartitionSchema` is
`AvroSchema::parse_str` on the record type built for a partition tuple, and
`encodePartition` is the Avro writer followed by the untyped reader: the columns a
stored tuple is read back with, before `Struct::cast`, or the encoder's error. -/
class PartitionValue (V : Type) where
  /-- `Value::datatype`. -/
  datatype : V → IcebergType
  /-- `Value::promote_iceberg`. -/
  promoteIceberg : V → IcebergType → IcebergType → Except Error V
  /-- A decimal whose scale is the target's. -/
  decimalUnchanged : V → IcebergType → Bool
  /-- The cast `Struct::cast` applies to one value. -/
  castPartition : V → IcebergType → Except Error V
  /-- `PartialOrd` of values. -/
  partialCmp : V → V → Option Ordering
  /-- The order of two values of one variant; `none` where the variants differ or have no order. -/
  variantCmp : V → V → Option Ordering
  /-- `TrySub::try_sub`. -/
  trySub : V → V → Except Error V
  /-- A `Float` or `Double`. -/
  isFloating : V → Bool
  /-- A `Float` or `Double` that is NaN. -/
  isNan : V → Bool
  /-- `ByteBuf::from`. -/
  toBytes : V → List UInt8
  /-- `Value::try_from_bytes`. -/
  tryFromBytes : List UInt8 → IcebergType → Except Error V
  /-- `decode_bound`. -/
  decodeBound : List UInt8 → IcebergType → Except Error V
  parsePartitionSchema : List (String × IcebergType) → Except Error Unit
  encodePartition : List (String × IcebergType) → Struct V → Except Error (Struct V)

open PartitionValue

/-- `decode_bound_for_copy`: a four-byte bound of a promoted type keeps its written type. -/
def decodeBoundForCopy {V : Type} [PartitionValue V] (bytes : List UInt8) (type : IcebergType) :
    Except Error V :=
  match type, bytes.length with
  | .primitive .long, 4 => tryFromBytes bytes (.primitive .int)
  | .primitive .double, 4 => tryFromBytes bytes (.primitive .float)
  | .primitive .timestamp, 4 => tryFromBytes bytes (.primitive .date)
  | .primitive .timestampNs, 4 => tryFromBytes bytes (.primitive .date)
  | type, _ => tryFromBytes bytes type

/-- `partition_value_schema`: the columns of the Avro record for a partition tuple. -/
def partitionValueSchema (fields : List BoundPartitionField) :
    Except Error (List (String × IcebergType)) :=
  fields.mapM fun field =>
    match field.transform with
    | .void => .ok (field.name, field.fieldType)
    | transform => (field.fieldType.tranform transform).map fun type => (field.name, type)

namespace Struct

variable {V : Type} [PartitionValue V]

/-- The types `Struct::cast` expects, by partition field name. -/
def castTypes (schema : StructType) (partitionFields : List PartitionField) :
    Except Error (List (String × IcebergType)) :=
  partitionFields.mapM fun field =>
    match schema.get field.sourceId with
    | none => .error (.invalidFormat
        ("partition spec references unknown column id " ++ toString field.sourceId))
    | some column => (column.fieldType.tranform field.transform).map fun type => (field.name, type)

/-- One column of `Struct::cast`.  A column whose name a later column repeats has no
entry in the lookup table. -/
def castColumn (types : List (String × IcebergType)) (later : List (String × Option V))
    (column : String × Option V) : Except Error (String × Option V) :=
  if later.any fun other => other.1 = column.1 then .error (.invalidFormat "partition struct")
  else match types.reverse.find? fun entry => entry.1 = column.1 with
    | none => .error (.invalidFormat "partition_struct")
    | some (_, type) =>
      match column.2 with
      | none => .ok (column.1, none)
      | some value => (castPartition value type).map fun cast => (column.1, some cast)

/-- The columns of `Struct::cast`, left to right. -/
def castColumns (types : List (String × IcebergType)) :
    List (String × Option V) → Except Error (List (String × Option V))
  | [] => .ok []
  | column :: columns => do
    let head ← castColumn types columns column
    let tail ← castColumns types columns
    .ok (head :: tail)

/-- `Struct::cast`. -/
def cast (tuple : Struct V) (schema : StructType) (partitionFields : List PartitionField) :
    Except Error (Struct V) :=
  if tuple.fields.isEmpty then .ok tuple
  else do
    let types ← castTypes schema partitionFields
    let columns ← castColumns types tuple.fields
    .ok ⟨columns⟩

end Struct

/-! ### Data files -/

inductive Status where
  | existing
  | added
  | deleted
deriving DecidableEq, Repr

/-- `Content` of `manifest.rs`: what a data file contains. -/
inductive Content where
  | data
  | positionDeletes
  | equalityDeletes
deriving DecidableEq, Repr

inductive FileFormat where
  | avro
  | orc
  | parquet
  | puffin
deriving DecidableEq, Repr

structure DataFile (V : Type) where
  content : Content
  filePath : String
  fileFormat : FileFormat
  partition : Struct V
  recordCount : Int
  fileSizeInBytes : Int
  columnSizes : Option (HashMap Int Int)
  valueCounts : Option (HashMap Int Int)
  nullValueCounts : Option (HashMap Int Int)
  nanValueCounts : Option (HashMap Int Int)
  distinctCounts : Option (HashMap Int Int)
  lowerBounds : Option (HashMap Int V)
  upperBounds : Option (HashMap Int V)
  keyMetadata : Option (List UInt8)
  splitOffsets : Option (List Int)
  equalityIds : Option (List Int)
  sortOrderId : Option Int
  firstRowId : Option Int
  referencedDataFile : Option String
  contentOffset : Option Int
  contentSizeInBytes : Option Int
deriving DecidableEq

namespace DataFile

variable {V : Type}

/-- The fields `DataFileV1`, `DataFileV2` and `DataFileV3` keep.  What a version has no
column for comes back as the conversion from it fills it in. -/
def toVersion (file : DataFile V) : FormatVersion → DataFile V
  | .v3 => { file with distinctCounts := none }
  | .v2 => { file with
      firstRowId := none, referencedDataFile := none, contentOffset := none,
      contentSizeInBytes := none }
  | .v1 => { file with
      content := .data, equalityIds := none, firstRowId := none, referencedDataFile := none,
      contentOffset := none, contentSizeInBytes := none }

variable [PartitionValue V]

/-- `AvroMap::into_value_map` on the stored bytes of bounds: fields outside the top level
of the schema are dropped. -/
def intoValueMap (bounds : HashMap Int V) (schema : StructType) :
    Except Error (HashMap Int V) := do
  let decoded ← (bounds.iter.filterMap fun entry =>
    (schema.get entry.1).map fun field => (entry.1, entry.2, field.fieldType)).mapM fun entry =>
      (decodeBound (toBytes entry.2.1) entry.2.2).map fun value => (entry.1, value)
  .ok (HashMap.fromIter decoded)

/-- `Option::map` with `transpose` over the bounds. -/
def decodeBounds (schema : StructType) :
    Option (HashMap Int V) → Except Error (Option (HashMap Int V))
  | none => .ok none
  | some bounds => (intoValueMap bounds schema).map some

/-- `DataFile::try_from_v1`, `try_from_v2` and `try_from_v3` on a stored record. -/
def tryFromStored (file : DataFile V) (schema : Schema) (spec : PartitionSpec) :
    Except Error (DataFile V) := do
  let partition ← file.partition.cast schema.fields spec.fields
  let lowerBounds ← decodeBounds schema.fields file.lowerBounds
  let upperBounds ← decodeBounds schema.fields file.upperBounds
  .ok { file with partition, lowerBounds, upperBounds }

/-- One step of `promote_partition_to_types`. -/
def promotePartitionField (partition : Struct V) (field : PartitionField × IcebergType) :
    Except Error (Struct V) :=
  match partition.get field.1.name with
  | none => .error (.notFound ("Partition field " ++ field.1.name))
  | some none => .ok partition
  | some (some value) =>
    let sourceType := datatype value
    if sourceType ≠ field.2 ∧ ¬ decimalUnchanged value field.2 then
      (promoteIceberg value sourceType field.2).map fun promoted =>
        partition.set field.1.name (some promoted)
    else .ok partition

/-- `DataFile::promote_partition_to_types`. -/
def promotePartitionToTypes (file : DataFile V) (spec : PartitionSpec)
    (targetTypes : List IcebergType) : Except Error (DataFile V) :=
  if spec.fields.length ≠ targetTypes.length then
    .error (.invalidFormat "Partition type count mismatch")
  else do
    let partition ← (spec.fields.zip targetTypes).foldlM promotePartitionField file.partition
    .ok { file with partition }

end DataFile

/-! ### Manifest entries -/

structure ManifestEntry (V : Type) where
  formatVersion : FormatVersion
  status : Status
  snapshotId : Option Int
  sequenceNumber : Option Int
  dataFile : DataFile V
deriving DecidableEq

namespace ManifestEntry

variable {V : Type}

/-- `Added` or `Existing`. -/
def live (entry : ManifestEntry V) : Bool := entry.status ≠ .deleted

/-- The record a manifest of its format version keeps of an entry (`ManifestEntryV1`, `V2`,
`V3`), as the reader converts it back: version 1 has no sequence number, a required
snapshot id, and is read as version 2. -/
def toVersion (entry : ManifestEntry V) : ManifestEntry V :=
  let stored := { entry with dataFile := entry.dataFile.toVersion entry.formatVersion }
  match entry.formatVersion with
  | .v3 => stored
  | .v2 => stored
  | .v1 => { stored with
      formatVersion := .v2, snapshotId := some (entry.snapshotId.getD 0), sequenceNumber := none }

variable [PartitionValue V]

/-- `ManifestEntry::try_from_v1`, `try_from_v2` and `try_from_v3`. -/
def tryFromStored (entry : ManifestEntry V) (schema : Schema) (spec : PartitionSpec) :
    Except Error (ManifestEntry V) := do
  let dataFile ← entry.dataFile.tryFromStored schema spec
  .ok { entry with dataFile }

end ManifestEntry

/-! ### Row-id inheritance -/

/-- `FirstRowIdInheritanceMode`. -/
inductive FirstRowIdInheritance where
  | assign (nextRowId : Int)
  | clear
  | preserve
deriving DecidableEq, Repr

namespace FirstRowIdInheritance

variable {V : Type}

/-- `for_committed_manifest`. -/
def forCommittedManifest : Option Int → FirstRowIdInheritance
  | some firstRowId => .assign firstRowId
  | none => .clear

/-- `try_for_committed_manifest`. -/
def tryForCommittedManifest (firstRowId : Option Int) : Except Error FirstRowIdInheritance :=
  if firstRowId.any (· < 0) then
    .error (.invalidFormat "manifest first row id must be non-negative")
  else .ok (forCommittedManifest firstRowId)

/-- `for_uncommitted_manifest`. -/
def forUncommittedManifest : Option Int → FirstRowIdInheritance
  | some firstRowId => .assign firstRowId
  | none => .preserve

/-- `FirstRowIdInheritance::apply`. -/
def apply (mode : FirstRowIdInheritance) (entry : ManifestEntry V) :
    Except Error (FirstRowIdInheritance × ManifestEntry V) :=
  match mode with
  | .clear => .ok (.clear, { entry with dataFile := { entry.dataFile with firstRowId := none } })
  | .preserve => .ok (.preserve, entry)
  | .assign nextRowId =>
    if nextRowId < 0 then .error (.invalidFormat "manifest first row id must be non-negative")
    else if entry.status = .deleted ∨ entry.dataFile.content ≠ .data ∨
        entry.dataFile.firstRowId.isSome then .ok (mode, entry)
    else if entry.dataFile.recordCount < 0 then
      .error (.invalidFormat "data file record count must be non-negative")
    else do
      let next ← checkedAddI64 nextRowId entry.dataFile.recordCount
        (.invalidFormat "first row id inheritance overflow")
      .ok (.assign next,
        { entry with dataFile := { entry.dataFile with firstRowId := some nextRowId } })

/-- Reading a manifest's entries in order under one inheritance state. -/
def applyAll : FirstRowIdInheritance → List (ManifestEntry V) →
    Except Error (List (ManifestEntry V))
  | _, [] => .ok []
  | mode, entry :: entries => do
    let (next, resolved) ← mode.apply entry
    let rest ← applyAll next entries
    .ok (resolved :: rest)

end FirstRowIdInheritance

end IcebergRust

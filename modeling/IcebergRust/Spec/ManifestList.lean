import IcebergRust.Spec.Manifest

/-!
# Manifest-list entries

`iceberg-rust-spec/src/spec/manifest_list.rs`: the rows of a manifest list, the
records the three format versions keep of them, and the decoder that resolves the
bounds of partition summaries against a historical schema.

* `ManifestListEntry.toRecord` is the writer's conversion; versions 2 and 3 unwrap
  the counts a version 1 row may leave null.
* `ManifestListEntryDecoder.decode` threads the decoder's cache of partition types.
-/

namespace IcebergRust

open PartitionValue

/-- `Content` of `manifest_list.rs`: what kind of files a manifest tracks. -/
inductive ManifestContent where
  | data
  | deletes
deriving DecidableEq, Repr

structure FieldSummary (V : Type) where
  containsNull : Bool
  containsNan : Option Bool
  lowerBound : Option V
  upperBound : Option V
deriving DecidableEq

/-- The summary of a column no value has been recorded for. -/
def FieldSummary.empty {V : Type} : FieldSummary V := ⟨false, none, none, none⟩

/-- A row of a manifest list.  The length of the manifest in bytes is left out. -/
structure ManifestListEntry (V : Type) where
  formatVersion : FormatVersion
  manifestPath : String
  partitionSpecId : Int
  content : ManifestContent
  sequenceNumber : Int
  minSequenceNumber : Int
  addedSnapshotId : Int
  addedFilesCount : Option Int
  existingFilesCount : Option Int
  deletedFilesCount : Option Int
  addedRowsCount : Option Int
  existingRowsCount : Option Int
  deletedRowsCount : Option Int
  partitions : Option (List (FieldSummary V))
  keyMetadata : Option (List UInt8)
  firstRowId : Option Int
deriving DecidableEq

namespace ManifestListEntry

variable {V : Type}

/-- None of the six counts is null. -/
def hasCounts (row : ManifestListEntry V) : Bool :=
  row.addedFilesCount.isSome && row.existingFilesCount.isSome && row.deletedFilesCount.isSome &&
    row.addedRowsCount.isSome && row.existingRowsCount.isSome && row.deletedRowsCount.isSome

/-- The fields `ManifestListEntryV1`, `V2` and `V3` keep.  A version 1 record has no
content and no sequence numbers; it is read as data of sequence number 0. -/
def toVersion (row : ManifestListEntry V) : FormatVersion → ManifestListEntry V
  | .v3 => { row with formatVersion := .v3 }
  | .v2 => { row with formatVersion := .v2, firstRowId := none }
  | .v1 => { row with
      formatVersion := .v1, content := .data, sequenceNumber := 0, minSequenceNumber := 0,
      firstRowId := none }

/-- `ManifestListEntryV1`, `V2` and `V3` from an entry: the latter two unwrap the counts. -/
def toRecord (row : ManifestListEntry V) : Except Error (ManifestListEntry V) :=
  match row.formatVersion with
  | .v1 => .ok (row.toVersion .v1)
  | version =>
    if row.hasCounts then .ok (row.toVersion version)
    else .error (.panicked "called `Option::unwrap()` on a `None` value")

end ManifestListEntry

/-! ### Decoding -/

/-- `partition_field_types`. -/
def partitionFieldTypes (metadata : TableMetadata) (specId : Int) (schema : Schema) :
    Except Error (List (Option IcebergType)) :=
  match metadata.partitionSpecs.lookup specId with
  | none => .error (.notFound ("Partition spec with id " ++ toString specId))
  | some spec => .ok (spec.dataTypesLenient schema.fields)

/-- All columns of a spec have a type under a schema. -/
def PartitionSpec.typedBy (spec : PartitionSpec) (schema : Schema) : Bool :=
  (spec.dataTypes schema.fields).isOk

/-- The schema of the largest id among those satisfying `p`; `Iterator::max_by_key` over
the map of schemas, whose keys are distinct. -/
def latestSchema (schemas : HashMap Int Schema) (p : Schema → Bool) : Option Schema :=
  ((schemas.iter.filter fun entry => p entry.2).foldl
    (fun (best : Option (Int × Schema)) entry =>
      match best with
      | none => some entry
      | some kept => if kept.1 ≤ entry.1 then some entry else some kept) none).map (·.2)

/-- `historical_entry_schema`: the schema of the snapshot that added the manifest, else the
current one, else the latest one that types the whole spec. -/
def historicalEntrySchema (metadata : TableMetadata) (specId snapshotId : Int) :
    Except Error (Schema × Bool) :=
  match metadata.partitionSpecs.lookup specId with
  | none => .error (.notFound ("Partition spec with id " ++ toString specId))
  | some spec =>
    let snapshotSchema := ((metadata.snapshots.lookup snapshotId).bind (·.schemaId)).bind fun id =>
      metadata.schemas.lookup id
    match snapshotSchema.filter spec.typedBy with
    | some schema => .ok (schema, true)
    | none => do
      let current ← metadata.currentSchema
      if spec.typedBy current then .ok (current, true)
      else match latestSchema metadata.schemas spec.typedBy with
        | some schema => .ok (schema, true)
        | none => .ok (current, false)

/-- `CachedPartitionTypes`. -/
structure CachedPartitionTypes where
  fields : List (Option IcebergType)
  complete : Bool

/-- The state of `ManifestListEntryDecoder`: the scan schema, if any, and the cache keyed by
partition spec and preferred schema. -/
structure ManifestListEntryDecoder where
  schema : Option Schema
  partitionTypes : HashMap (Int × Int) CachedPartitionTypes

namespace ManifestListEntryDecoder

def new : ManifestListEntryDecoder := ⟨none, ∅⟩

def withSchema (schema : Schema) : ManifestListEntryDecoder := ⟨some schema, ∅⟩

/-- `ManifestListEntryDecoder::partition_types`. -/
def lookupTypes (metadata : TableMetadata) (decoder : ManifestListEntryDecoder)
    (specId snapshotId : Int) : Except Error (ManifestListEntryDecoder × CachedPartitionTypes) :=
  let preferredSchemaId := match decoder.schema with
    | some schema => schema.schemaId
    | none => ((metadata.snapshots.lookup snapshotId).bind (·.schemaId)).getD
        metadata.currentSchemaId
  match decoder.partitionTypes.lookup (specId, preferredSchemaId) with
  | some cached => .ok (decoder, cached)
  | none => do
    let (schema, complete) ← match decoder.schema with
      | some schema => .ok (schema, true)
      | none => historicalEntrySchema metadata specId snapshotId
    let fields ← partitionFieldTypes metadata specId schema
    let cached : CachedPartitionTypes := ⟨fields, complete⟩
    .ok ({ decoder with
      partitionTypes := decoder.partitionTypes.insert (specId, preferredSchemaId) cached }, cached)

variable {V : Type} [PartitionValue V]

/-- One bound of `FieldSummary::from_serde_with_mode`. -/
def decodeSummaryBound (promote : Bool) : Option V → Option IcebergType → Except Error (Option V)
  | some value, some type =>
    if promote then (decodeBound (toBytes value) type).map some
    else (decodeBoundForCopy (toBytes value) type).map some
  | _, _ => .ok none

/-- `FieldSummary::from_serde_with_mode`. -/
def decodeSummary (promote : Bool) (column : FieldSummary V × Option IcebergType) :
    Except Error (FieldSummary V) := do
  let lowerBound ← decodeSummaryBound promote column.1.lowerBound column.2
  let upperBound ← decodeSummaryBound promote column.1.upperBound column.2
  .ok { column.1 with lowerBound, upperBound }

/-- `decode_partition_summaries`. -/
def decodePartitionSummaries (partitions : Option (List (FieldSummary V)))
    (types : List (Option IcebergType)) (promote : Bool) :
    Except Error (Option (List (FieldSummary V))) :=
  match partitions with
  | none => .ok none
  | some summaries =>
    if summaries.length ≠ types.length then .ok none
    else ((summaries.zip types).mapM (decodeSummary promote)).map some

/-- `ManifestListEntryDecoder::decode` on a stored row, for a list of a writer version.  The
record of versions 2 and 3 has no null counts. -/
def decode (metadata : TableMetadata) (decoder : ManifestListEntryDecoder)
    (row : ManifestListEntry V) (formatVersion : FormatVersion) :
    Except Error (ManifestListEntryDecoder × ManifestListEntry V) :=
  if formatVersion ≠ .v1 ∧ ¬ row.hasCounts then .error (.avro "manifest list entry")
  else do
    let promote := decoder.schema.isSome
    let (next, types) ← decoder.lookupTypes metadata row.partitionSpecId row.addedSnapshotId
    let partitions ← decodePartitionSummaries row.partitions types.fields promote
    .ok (next, { row.toVersion formatVersion with
      partitions := if types.complete then partitions else none })

/-- Decoding the rows of a list in order with one decoder. -/
def decodeAll (metadata : TableMetadata) (formatVersion : FormatVersion) :
    ManifestListEntryDecoder → List (ManifestListEntry V) →
      Except Error (List (ManifestListEntry V))
  | _, [] => .ok []
  | decoder, row :: rows => do
    let (next, entry) ← decoder.decode metadata row formatVersion
    let rest ← decodeAll metadata formatVersion next rows
    .ok (entry :: rest)

end ManifestListEntryDecoder

end IcebergRust

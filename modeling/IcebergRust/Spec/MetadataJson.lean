import IcebergRust.Spec.TableMetadata

/-!
# The JSON form of table metadata

The `_serde` modules of `table_metadata.rs` and `snapshot.rs`, and the two forms of
`schema.rs`: a metadata file is one of three version-specific mirrors of `TableMetadata`,
and loading tries them in turn.

* `MetadataObject` and `SnapshotObject` are JSON objects: a field the serializer skips is
  `none`.  Leaf values (ids, logs, specs, summaries) stand for themselves.
* `serialize` goes through the mirror of the metadata's own version.  `deserialize` takes
  the first mirror that accepts the object and converts it back.
-/

namespace IcebergRust

/-! ### Schemas and snapshots -/

/-- `SchemaV1`, which is also what a schema object in a file may hold. -/
structure SchemaV1 where
  schemaId : Option Int
  identifierFieldIds : Option (List Int)
  fields : StructType

structure SchemaV2 where
  schemaId : Int
  identifierFieldIds : Option (List Int)
  fields : StructType

def Schema.toV1 (schema : Schema) : SchemaV1 :=
  ⟨some schema.schemaId, schema.identifierFieldIds, schema.fields⟩

def Schema.toV2 (schema : Schema) : SchemaV2 :=
  ⟨schema.schemaId, schema.identifierFieldIds, schema.fields⟩

def SchemaV1.toSchema (schema : SchemaV1) : Schema :=
  ⟨schema.schemaId.getD 0, schema.identifierFieldIds, schema.fields⟩

def SchemaV2.toSchema (schema : SchemaV2) : Schema :=
  ⟨schema.schemaId, schema.identifierFieldIds, schema.fields⟩

structure SnapshotV1 where
  snapshotId : Int
  parentSnapshotId : Option Int
  timestampMs : Int
  manifestList : Option String
  manifests : Option (List String)
  summary : Option Summary
  schemaId : Option Int

structure SnapshotV2 where
  snapshotId : Int
  parentSnapshotId : Option Int
  sequenceNumber : Int
  timestampMs : Int
  manifestList : String
  summary : Summary
  schemaId : Option Int

structure SnapshotV3 where
  snapshotId : Int
  parentSnapshotId : Option Int
  sequenceNumber : Int
  timestampMs : Int
  manifestList : String
  summary : Summary
  schemaId : Option Int
  firstRowId : Option Int
  addedRows : Option Int

namespace Snapshot

def toV1 (snapshot : Snapshot) : SnapshotV1 where
  snapshotId := snapshot.snapshotId
  parentSnapshotId := snapshot.parentSnapshotId
  timestampMs := snapshot.timestampMs
  manifestList := some snapshot.manifestList
  manifests := none
  summary := some snapshot.summary
  schemaId := snapshot.schemaId

def toV2 (snapshot : Snapshot) : SnapshotV2 where
  snapshotId := snapshot.snapshotId
  parentSnapshotId := snapshot.parentSnapshotId
  sequenceNumber := snapshot.sequenceNumber
  timestampMs := snapshot.timestampMs
  manifestList := snapshot.manifestList
  summary := snapshot.summary
  schemaId := snapshot.schemaId

def toV3 (snapshot : Snapshot) : SnapshotV3 where
  snapshotId := snapshot.snapshotId
  parentSnapshotId := snapshot.parentSnapshotId
  sequenceNumber := snapshot.sequenceNumber
  timestampMs := snapshot.timestampMs
  manifestList := snapshot.manifestList
  summary := snapshot.summary
  schemaId := snapshot.schemaId
  firstRowId := snapshot.firstRowId
  addedRows := snapshot.addedRows

end Snapshot

def SnapshotV1.toSnapshot (snapshot : SnapshotV1) : Snapshot where
  snapshotId := snapshot.snapshotId
  parentSnapshotId := snapshot.parentSnapshotId
  sequenceNumber := 0
  timestampMs := snapshot.timestampMs
  manifestList := snapshot.manifestList.getD ""
  summary := snapshot.summary.getD ⟨.append, ∅⟩
  schemaId := snapshot.schemaId
  firstRowId := none
  addedRows := none

def SnapshotV2.toSnapshot (snapshot : SnapshotV2) : Snapshot where
  snapshotId := snapshot.snapshotId
  parentSnapshotId := snapshot.parentSnapshotId
  sequenceNumber := snapshot.sequenceNumber
  timestampMs := snapshot.timestampMs
  manifestList := snapshot.manifestList
  summary := snapshot.summary
  schemaId := snapshot.schemaId
  firstRowId := none
  addedRows := none

def SnapshotV3.toSnapshot (snapshot : SnapshotV3) : Snapshot where
  snapshotId := snapshot.snapshotId
  parentSnapshotId := snapshot.parentSnapshotId
  sequenceNumber := snapshot.sequenceNumber
  timestampMs := snapshot.timestampMs
  manifestList := snapshot.manifestList
  summary := snapshot.summary
  schemaId := snapshot.schemaId
  firstRowId := snapshot.firstRowId
  addedRows := snapshot.addedRows

/-! ### The mirrors -/

/-- The fields `TableMetadataV2` and `TableMetadataV3` share, with their kind of snapshots. -/
structure VersionedMetadata (S : Type) where
  tableUuid : Uuid
  location : String
  lastSequenceNumber : Int
  lastUpdatedMs : Int
  lastColumnId : Int
  schemas : List SchemaV2
  currentSchemaId : Int
  partitionSpecs : List PartitionSpec
  defaultSpecId : Int
  lastPartitionId : Int
  properties : HashMap String String
  currentSnapshotId : Option Int
  snapshots : Option (List S)
  snapshotLog : List SnapshotLog
  metadataLog : List MetadataLog
  sortOrders : List SortOrder
  defaultSortOrderId : Int
  refs : HashMap String SnapshotReference

abbrev TableMetadataV2 := VersionedMetadata SnapshotV2

structure TableMetadataV3 extends VersionedMetadata SnapshotV3 where
  nextRowId : Int

/-- Version 1 has neither sequence numbers nor references. -/
structure TableMetadataV1 where
  tableUuid : Option Uuid
  location : String
  lastUpdatedMs : Int
  lastColumnId : Int
  schema : SchemaV1
  schemas : Option (List SchemaV1)
  currentSchemaId : Option Int
  partitionSpec : List PartitionField
  partitionSpecs : Option (List PartitionSpec)
  defaultSpecId : Option Int
  lastPartitionId : Option Int
  properties : HashMap String String
  currentSnapshotId : Option Int
  snapshots : Option (List SnapshotV1)
  snapshotLog : List SnapshotLog
  metadataLog : List MetadataLog
  sortOrders : Option (List SortOrder)
  defaultSortOrderId : Option Int

inductive TableMetadataEnum where
  | v3 (metadata : TableMetadataV3)
  | v2 (metadata : TableMetadataV2)
  | v1 (metadata : TableMetadataV1)

/-! ### From metadata to the mirrors -/

/-- The fields of versions 2 and 3. -/
def TableMetadata.versioned {S : Type} (metadata : TableMetadata) (snapshot : Snapshot → S) :
    VersionedMetadata S where
  tableUuid := metadata.tableUuid
  location := metadata.location
  lastSequenceNumber := metadata.lastSequenceNumber
  lastUpdatedMs := metadata.lastUpdatedMs
  lastColumnId := metadata.lastColumnId
  schemas := metadata.schemas.values.map Schema.toV2
  currentSchemaId := metadata.currentSchemaId
  partitionSpecs := metadata.partitionSpecs.values
  defaultSpecId := metadata.defaultSpecId
  lastPartitionId := metadata.lastPartitionId
  properties := metadata.properties
  currentSnapshotId := metadata.currentSnapshotId.or (some (-1))
  snapshots := some (metadata.snapshots.values.map snapshot)
  snapshotLog := metadata.snapshotLog
  metadataLog := metadata.metadataLog
  sortOrders := metadata.sortOrders.values
  defaultSortOrderId := metadata.defaultSortOrderId
  refs := metadata.refs

def TableMetadata.toV3 (metadata : TableMetadata) : TableMetadataV3 :=
  ⟨metadata.versioned Snapshot.toV3, metadata.nextRowId⟩

def TableMetadata.toV2 (metadata : TableMetadata) : TableMetadataV2 :=
  metadata.versioned Snapshot.toV2

/-- The current schema is unwrapped, so metadata without it cannot be written. -/
def TableMetadata.toV1 (metadata : TableMetadata) : Except Error TableMetadataV1 :=
  match metadata.schemas.lookup metadata.currentSchemaId with
  | none => .error (.panicked "called `Option::unwrap()` on a `None` value")
  | some schema => .ok {
      tableUuid := some metadata.tableUuid
      location := metadata.location
      lastUpdatedMs := metadata.lastUpdatedMs
      lastColumnId := metadata.lastColumnId
      schema := schema.toV1
      schemas := some (metadata.schemas.values.map Schema.toV1)
      currentSchemaId := some metadata.currentSchemaId
      partitionSpec :=
        ((metadata.partitionSpecs.lookup metadata.defaultSpecId).map (·.fields)).getD []
      partitionSpecs := some metadata.partitionSpecs.values
      defaultSpecId := some metadata.defaultSpecId
      lastPartitionId := some metadata.lastPartitionId
      properties := metadata.properties
      currentSnapshotId := metadata.currentSnapshotId.or (some (-1))
      snapshots := some (metadata.snapshots.values.map Snapshot.toV1)
      snapshotLog := metadata.snapshotLog
      metadataLog := metadata.metadataLog
      sortOrders := some metadata.sortOrders.values
      defaultSortOrderId := some metadata.defaultSortOrderId }

/-- `From<TableMetadata> for TableMetadataEnum`. -/
def TableMetadata.toEnum (metadata : TableMetadata) : Except Error TableMetadataEnum :=
  match metadata.formatVersion with
  | .v3 => .ok (.v3 metadata.toV3)
  | .v2 => .ok (.v2 metadata.toV2)
  | .v1 => metadata.toV1.map .v1

/-! ### From the mirrors to metadata -/

/-- In a file, snapshot id `-1` stands for no snapshot. -/
def fileSnapshotId (id : Option Int) : Option Int := if id = some (-1) then none else id

/-- `main` points at the current snapshot where a file has no reference for it. -/
def withMain (refs : HashMap String SnapshotReference) (currentSnapshotId : Option Int) :
    HashMap String SnapshotReference :=
  match currentSnapshotId with
  | some snapshotId =>
    if "main" ∈ refs then refs else refs.insert "main" ⟨snapshotId, .branch none none none⟩
  | none => refs

/-- The only reference of a version 1 file. -/
def mainOnly (currentSnapshotId : Option Int) : HashMap String SnapshotReference :=
  match currentSnapshotId with
  | some snapshotId => HashMap.fromIter [("main", ⟨snapshotId, .branch none none none⟩)]
  | none => ∅

/-- `TryFrom<TableMetadataV2>` and `TryFrom<TableMetadataV3>`: the current schema has to be there. -/
def VersionedMetadata.tryInto {S : Type} (value : VersionedMetadata S)
    (formatVersion : FormatVersion) (nextRowId : Int) (snapshotId : S → Int)
    (snapshot : S → Snapshot) : Except Error TableMetadata :=
  let currentSnapshotId := fileSnapshotId value.currentSnapshotId
  let schemas := HashMap.fromIter (value.schemas.map fun s => (s.schemaId, s.toSchema))
  if value.currentSchemaId ∈ schemas then .ok {
    formatVersion
    tableUuid := value.tableUuid
    location := value.location
    lastSequenceNumber := value.lastSequenceNumber
    lastUpdatedMs := value.lastUpdatedMs
    lastColumnId := value.lastColumnId
    schemas
    currentSchemaId := value.currentSchemaId
    partitionSpecs := HashMap.fromIter (value.partitionSpecs.map fun spec => (spec.specId, spec))
    defaultSpecId := value.defaultSpecId
    lastPartitionId := value.lastPartitionId
    properties := value.properties
    currentSnapshotId
    snapshots := (value.snapshots.map fun snapshots =>
      HashMap.fromIter (snapshots.map fun s => (snapshotId s, snapshot s))).getD ∅
    snapshotLog := value.snapshotLog
    metadataLog := value.metadataLog
    sortOrders := HashMap.fromIter (value.sortOrders.map fun order => (order.orderId, order))
    defaultSortOrderId := value.defaultSortOrderId
    refs := withMain value.refs currentSnapshotId
    nextRowId }
  else .error (.invalidFormat "schema")

def TableMetadataV3.tryInto (value : TableMetadataV3) : Except Error TableMetadata :=
  value.toVersionedMetadata.tryInto .v3 value.nextRowId (·.snapshotId) SnapshotV3.toSnapshot

def TableMetadataV2.tryInto (value : TableMetadataV2) : Except Error TableMetadata :=
  VersionedMetadata.tryInto value .v2 0 (·.snapshotId) SnapshotV2.toSnapshot

/-- The largest key, zero where there is none. -/
def maxId {β : Type} (map : HashMap Int β) : Int := map.keys.max?.getD 0

/-- `TryFrom<TableMetadataV1>`: what the file leaves out is the largest id there is, and `main`
is the only reference. -/
def TableMetadataV1.tryInto (value : TableMetadataV1) : TableMetadata :=
  let schemas := match value.schemas with
    | some schemas => HashMap.fromIter (schemas.zipIdx.map fun (schema, i) =>
        (schema.schemaId.getD (wrapI32 i), schema.toSchema))
    | none => HashMap.fromIter [(value.schema.schemaId.getD 0, value.schema.toSchema)]
  let partitionSpecs := HashMap.fromIter
    ((value.partitionSpecs.getD [⟨0, value.partitionSpec⟩]).map fun spec => (spec.specId, spec))
  { formatVersion := .v1
    tableUuid := value.tableUuid.getD ⟨0⟩
    location := value.location
    lastSequenceNumber := 0
    lastUpdatedMs := value.lastUpdatedMs
    lastColumnId := value.lastColumnId
    currentSchemaId := value.currentSchemaId.getD (maxId schemas)
    defaultSpecId := value.defaultSpecId.getD (maxId partitionSpecs)
    lastPartitionId := value.lastPartitionId.getD (maxId partitionSpecs)
    partitionSpecs
    schemas
    properties := value.properties
    currentSnapshotId := fileSnapshotId value.currentSnapshotId
    snapshots := (value.snapshots.map fun snapshots =>
      HashMap.fromIter (snapshots.map fun s => (s.snapshotId, s.toSnapshot))).getD ∅
    snapshotLog := value.snapshotLog
    metadataLog := value.metadataLog
    sortOrders := (value.sortOrders.map fun orders =>
      HashMap.fromIter (orders.map fun order => (order.orderId, order))).getD ∅
    defaultSortOrderId := value.defaultSortOrderId.getD 0
    refs := mainOnly (fileSnapshotId value.currentSnapshotId)
    nextRowId := 0 }

/-- `TryFrom<TableMetadataEnum> for TableMetadata`. -/
def TableMetadataEnum.tryInto : TableMetadataEnum → Except Error TableMetadata
  | .v3 metadata => metadata.tryInto
  | .v2 metadata => metadata.tryInto
  | .v1 metadata => .ok metadata.tryInto

/-! ### JSON objects -/

structure SnapshotObject where
  snapshotId : Int
  parentSnapshotId : Option Int
  sequenceNumber : Option Int
  timestampMs : Int
  manifestList : Option String
  manifests : Option (List String)
  summary : Option Summary
  schemaId : Option Int
  firstRowId : Option Int
  addedRows : Option Int

/-- The fields every version requires are values, the others may be absent. -/
structure MetadataObject where
  formatVersion : Nat
  tableUuid : Option Uuid
  location : String
  nextRowId : Option Int
  lastSequenceNumber : Option Int
  lastUpdatedMs : Int
  lastColumnId : Int
  schema : Option SchemaV1
  schemas : Option (List SchemaV1)
  currentSchemaId : Option Int
  partitionSpec : Option (List PartitionField)
  partitionSpecs : Option (List PartitionSpec)
  defaultSpecId : Option Int
  lastPartitionId : Option Int
  properties : Option (HashMap String String)
  currentSnapshotId : Option Int
  snapshots : Option (List SnapshotObject)
  snapshotLog : Option (List SnapshotLog)
  metadataLog : Option (List MetadataLog)
  sortOrders : Option (List SortOrder)
  defaultSortOrderId : Option Int
  refs : Option (HashMap String SnapshotReference)

/-- `skip_serializing_if = "Vec::is_empty"`. -/
def skipEmpty {α : Type} (list : List α) : Option (List α) := if list.isEmpty then none else some list

/-- `skip_serializing_if = "HashMap::is_empty"`. -/
def skipEmptyMap {κ β : Type} (map : HashMap κ β) : Option (HashMap κ β) :=
  if map.entries.isEmpty then none else some map

namespace SnapshotObject

def ofV1 (snapshot : SnapshotV1) : SnapshotObject where
  snapshotId := snapshot.snapshotId
  parentSnapshotId := snapshot.parentSnapshotId
  sequenceNumber := none
  timestampMs := snapshot.timestampMs
  manifestList := snapshot.manifestList
  manifests := snapshot.manifests
  summary := snapshot.summary
  schemaId := snapshot.schemaId
  firstRowId := none
  addedRows := none

def ofV2 (snapshot : SnapshotV2) : SnapshotObject where
  snapshotId := snapshot.snapshotId
  parentSnapshotId := snapshot.parentSnapshotId
  sequenceNumber := some snapshot.sequenceNumber
  timestampMs := snapshot.timestampMs
  manifestList := some snapshot.manifestList
  manifests := none
  summary := some snapshot.summary
  schemaId := snapshot.schemaId
  firstRowId := none
  addedRows := none

def ofV3 (snapshot : SnapshotV3) : SnapshotObject where
  snapshotId := snapshot.snapshotId
  parentSnapshotId := snapshot.parentSnapshotId
  sequenceNumber := some snapshot.sequenceNumber
  timestampMs := snapshot.timestampMs
  manifestList := some snapshot.manifestList
  manifests := none
  summary := some snapshot.summary
  schemaId := snapshot.schemaId
  firstRowId := snapshot.firstRowId
  addedRows := snapshot.addedRows

def toV1 (object : SnapshotObject) : SnapshotV1 where
  snapshotId := object.snapshotId
  parentSnapshotId := object.parentSnapshotId
  timestampMs := object.timestampMs
  manifestList := object.manifestList
  manifests := object.manifests
  summary := object.summary
  schemaId := object.schemaId

def toV2 (object : SnapshotObject) : Option SnapshotV2 := do
  let sequenceNumber ← object.sequenceNumber
  let manifestList ← object.manifestList
  let summary ← object.summary
  some ⟨object.snapshotId, object.parentSnapshotId, sequenceNumber, object.timestampMs,
    manifestList, summary, object.schemaId⟩

def toV3 (object : SnapshotObject) : Option SnapshotV3 := do
  let sequenceNumber ← object.sequenceNumber
  let manifestList ← object.manifestList
  let summary ← object.summary
  some ⟨object.snapshotId, object.parentSnapshotId, sequenceNumber, object.timestampMs,
    manifestList, summary, object.schemaId, object.firstRowId, object.addedRows⟩

end SnapshotObject

/-- A schema object of versions 2 and 3 has an id. -/
def SchemaV1.withId (schema : SchemaV1) : Option SchemaV2 :=
  schema.schemaId.map (⟨·, schema.identifierFieldIds, schema.fields⟩)

def SchemaV2.object (schema : SchemaV2) : SchemaV1 :=
  ⟨some schema.schemaId, schema.identifierFieldIds, schema.fields⟩

namespace MetadataObject

/-- The object of versions 2 and 3. -/
def ofVersioned {S : Type} (metadata : VersionedMetadata S) (formatVersion : Nat)
    (nextRowId : Option Int) (snapshot : S → SnapshotObject) : MetadataObject where
  formatVersion
  tableUuid := some metadata.tableUuid
  location := metadata.location
  nextRowId
  lastSequenceNumber := some metadata.lastSequenceNumber
  lastUpdatedMs := metadata.lastUpdatedMs
  lastColumnId := metadata.lastColumnId
  schema := none
  schemas := some (metadata.schemas.map SchemaV2.object)
  currentSchemaId := some metadata.currentSchemaId
  partitionSpec := none
  partitionSpecs := some metadata.partitionSpecs
  defaultSpecId := some metadata.defaultSpecId
  lastPartitionId := some metadata.lastPartitionId
  properties := skipEmptyMap metadata.properties
  currentSnapshotId := metadata.currentSnapshotId
  snapshots := metadata.snapshots.map (·.map snapshot)
  snapshotLog := skipEmpty metadata.snapshotLog
  metadataLog := skipEmpty metadata.metadataLog
  sortOrders := some metadata.sortOrders
  defaultSortOrderId := some metadata.defaultSortOrderId
  refs := skipEmptyMap metadata.refs

def ofV1 (metadata : TableMetadataV1) : MetadataObject where
  formatVersion := 1
  tableUuid := metadata.tableUuid
  location := metadata.location
  nextRowId := none
  lastSequenceNumber := none
  lastUpdatedMs := metadata.lastUpdatedMs
  lastColumnId := metadata.lastColumnId
  schema := some metadata.schema
  schemas := metadata.schemas
  currentSchemaId := metadata.currentSchemaId
  partitionSpec := some metadata.partitionSpec
  partitionSpecs := metadata.partitionSpecs
  defaultSpecId := metadata.defaultSpecId
  lastPartitionId := metadata.lastPartitionId
  properties := skipEmptyMap metadata.properties
  currentSnapshotId := metadata.currentSnapshotId
  snapshots := metadata.snapshots.map (·.map SnapshotObject.ofV1)
  snapshotLog := skipEmpty metadata.snapshotLog
  metadataLog := skipEmpty metadata.metadataLog
  sortOrders := metadata.sortOrders
  defaultSortOrderId := metadata.defaultSortOrderId
  refs := none

def ofEnum : TableMetadataEnum → MetadataObject
  | .v3 metadata =>
    ofVersioned metadata.toVersionedMetadata 3 (some metadata.nextRowId) SnapshotObject.ofV3
  | .v2 metadata => ofVersioned metadata 2 none SnapshotObject.ofV2
  | .v1 metadata => ofV1 metadata

/-- An optional list, each of whose elements has to be accepted. -/
def readList {α β : Type} (read : α → Option β) : Option (List α) → Option (Option (List β))
  | none => some none
  | some list => (list.mapM read).map some

/-- The fields of versions 2 and 3, `none` where a required one is missing. -/
def toVersioned {S : Type} (object : MetadataObject) (snapshot : SnapshotObject → Option S) :
    Option (VersionedMetadata S) := do
  let tableUuid ← object.tableUuid
  let lastSequenceNumber ← object.lastSequenceNumber
  let schemas ← object.schemas
  let schemas ← schemas.mapM SchemaV1.withId
  let currentSchemaId ← object.currentSchemaId
  let partitionSpecs ← object.partitionSpecs
  let defaultSpecId ← object.defaultSpecId
  let lastPartitionId ← object.lastPartitionId
  let snapshots ← readList snapshot object.snapshots
  let sortOrders ← object.sortOrders
  let defaultSortOrderId ← object.defaultSortOrderId
  some {
    tableUuid
    location := object.location
    lastSequenceNumber
    lastUpdatedMs := object.lastUpdatedMs
    lastColumnId := object.lastColumnId
    schemas
    currentSchemaId
    partitionSpecs
    defaultSpecId
    lastPartitionId
    properties := object.properties.getD ∅
    currentSnapshotId := object.currentSnapshotId
    snapshots
    snapshotLog := object.snapshotLog.getD []
    metadataLog := object.metadataLog.getD []
    sortOrders
    defaultSortOrderId
    refs := object.refs.getD ∅ }

def toV3 (object : MetadataObject) : Option TableMetadataV3 :=
  if object.formatVersion = 3 then do
    let nextRowId ← object.nextRowId
    let versioned ← object.toVersioned SnapshotObject.toV3
    some ⟨versioned, nextRowId⟩
  else none

def toV2 (object : MetadataObject) : Option TableMetadataV2 :=
  if object.formatVersion = 2 then object.toVersioned SnapshotObject.toV2 else none

def toV1 (object : MetadataObject) : Option TableMetadataV1 :=
  if object.formatVersion = 1 then do
    let schema ← object.schema
    let partitionSpec ← object.partitionSpec
    some {
      tableUuid := object.tableUuid
      location := object.location
      lastUpdatedMs := object.lastUpdatedMs
      lastColumnId := object.lastColumnId
      schema
      schemas := object.schemas
      currentSchemaId := object.currentSchemaId
      partitionSpec
      partitionSpecs := object.partitionSpecs
      defaultSpecId := object.defaultSpecId
      lastPartitionId := object.lastPartitionId
      properties := object.properties.getD ∅
      currentSnapshotId := object.currentSnapshotId
      snapshots := object.snapshots.map (·.map SnapshotObject.toV1)
      snapshotLog := object.snapshotLog.getD []
      metadataLog := object.metadataLog.getD []
      sortOrders := object.sortOrders
      defaultSortOrderId := object.defaultSortOrderId }
  else none

/-- The untagged `TableMetadataEnum`: the first version that accepts the object. -/
def toEnum (object : MetadataObject) : Option TableMetadataEnum :=
  (object.toV3.map .v3).or ((object.toV2.map .v2).or (object.toV1.map .v1))

end MetadataObject

/-- `serde_json::to_string` of metadata, up to the text of the object. -/
def serialize (metadata : TableMetadata) : Except Error MetadataObject :=
  metadata.toEnum.map .ofEnum

/-- `serde_json::from_str`. -/
def deserialize (object : MetadataObject) : Except Error TableMetadata :=
  match object.toEnum with
  | some metadata => metadata.tryInto
  | none => .error (.json "data did not match any variant of untagged enum TableMetadataEnum")

end IcebergRust

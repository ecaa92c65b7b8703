import IcebergRust.Spec.ManifestList

/-!
# Manifest files: reader and writer

`iceberg-rust/src/table/manifest.rs`.  A manifest file is kept as its header and the
records its Avro body holds; the object store maps paths to manifest files and to
manifest lists.

* `ManifestFile.read` decodes a manifest with the schema and the spec of its own header.
* `ManifestWriter.new`, `fromExisting` and `fromExistingWithFilter` are the three ways a
  manifest is begun, `ManifestWriter.append` adds an entry and maintains the row of the
  manifest list, and `ManifestWriter.finish` uploads.
* `inheritFirstRowId` is the writer's own positional inheritance of row ids.

An iterator of decoded entries is modelled by the list of them: a decoding error ends
the operation in either case.
-/

namespace IcebergRust

open PartitionValue

/-! ### Files and the object store -/

/-- A manifest: the header fields a reader uses, and the stored records. -/
structure ManifestFile (V : Type) where
  formatVersion : FormatVersion
  schema : Schema
  partitionSpec : PartitionSpec
  entries : List (ManifestEntry V)

/-- A manifest list: the version its Avro schema has, and the stored records. -/
structure ManifestListFile (V : Type) where
  formatVersion : FormatVersion
  rows : List (ManifestListEntry V)

/-- The object store.  Metadata files are immutable by path, so the process-wide cache of
manifest bytes is transparent and left out; a path stands for its `strip_prefix`. -/
structure Store (V : Type) where
  manifest : String → Option (ManifestFile V)
  manifestList : String → Option (ManifestListFile V)

namespace Store

variable {V : Type}

def empty : Store V := ⟨fun _ => none, fun _ => none⟩

def putManifest (store : Store V) (path : String) (file : ManifestFile V) : Store V :=
  { store with manifest := fun p => if p = path then some file else store.manifest p }

def putManifestList (store : Store V) (path : String) (file : ManifestListFile V) : Store V :=
  { store with manifestList := fun p => if p = path then some file else store.manifestList p }

/-- `object_store.get` of a manifest. -/
def getManifest (store : Store V) (path : String) : Except Error (ManifestFile V) :=
  match store.manifest path with
  | some file => .ok file
  | none => .error (.objectStore path)

/-- `object_store.get` of a manifest list. -/
def getManifestList (store : Store V) (path : String) : Except Error (ManifestListFile V) :=
  match store.manifestList path with
  | some file => .ok file
  | none => .error (.objectStore path)

@[simp] theorem putManifest_manifest_self (store : Store V) (path : String) (file : ManifestFile V) :
    (store.putManifest path file).manifest path = some file := by
  simp [putManifest]

theorem putManifest_manifest_of_ne (store : Store V) {path other : String}
    (file : ManifestFile V) (differ : other ≠ path) :
    (store.putManifest path file).manifest other = store.manifest other := by
  simp [putManifest, differ]

@[simp] theorem putManifest_manifestList (store : Store V) (path : String)
    (file : ManifestFile V) : (store.putManifest path file).manifestList = store.manifestList :=
  rfl

@[simp] theorem putManifestList_manifestList_self (store : Store V) (path : String)
    (file : ManifestListFile V) :
    (store.putManifestList path file).manifestList path = some file := by
  simp [putManifestList]

theorem putManifestList_manifestList_of_ne (store : Store V) {path other : String}
    (file : ManifestListFile V) (differ : other ≠ path) :
    (store.putManifestList path file).manifestList other = store.manifestList other := by
  simp [putManifestList, differ]

end Store

variable {V : Type} [PartitionValue V]

/-- `ManifestReader`: the entries of a manifest, decoded with its own header. -/
def ManifestFile.read (file : ManifestFile V) : Except Error (List (ManifestEntry V)) :=
  file.entries.mapM fun entry => entry.tryFromStored file.schema file.partitionSpec

/-! ### Partition summaries -/

/-- The new lower bound of a summary: replaced when the value is below it. -/
def lowerOf (value : V) : Option V → Option V
  | none => some value
  | some current => if variantCmp value current = some .lt then some value else some current

/-- The new upper bound of a summary: replaced when the value is above it. -/
def upperOf (value : V) : Option V → Option V
  | none => some value
  | some current => if variantCmp value current = some .gt then some value else some current

/-- The update of one column's summary by one value. -/
def FieldSummary.record (summary : FieldSummary V) : Option V → FieldSummary V
  | none => { summary with containsNull := true }
  | some value =>
    if isNan value then { summary with containsNan := some true }
    else { summary with
      containsNan := if isFloating value then some (summary.containsNan.getD false)
        else summary.containsNan
      lowerBound := lowerOf value summary.lowerBound
      upperBound := upperOf value summary.upperBound }

/-- `update_partitions`: columns beyond the shorter of the two lists are left alone. -/
def updatePartitions (values : Struct V) :
    List PartitionField → List (FieldSummary V) → Except Error (List (FieldSummary V))
  | [], summaries => .ok summaries
  | _ :: _, [] => .ok []
  | field :: fields, summary :: summaries =>
    match values.get field.name with
    | none => .error (.invalidFormat "Partition field is missing")
    | some value => do
      let rest ← updatePartitions values fields summaries
      .ok (summary.record value :: rest)

/-! ### Row ids -/

/-- The range error of `inherit_first_row_id`. -/
def rowLineageError (path : String) (firstRowId recordCount : Int) : Error :=
  .invalidFormat ("Invalid row lineage range for data file " ++ path ++ ": first_row_id=" ++
    toString firstRowId ++ ", record_count=" ++ toString recordCount)

/-- `inherit_first_row_id`: the writer's counterpart of the reader's inheritance.  It looks at
the content of the manifest, where the reader looks at the content of the file. -/
def inheritFirstRowId (content : ManifestContent) (nextRowId : Option Int) (file : DataFile V) :
    Except Error (Option Int × DataFile V) :=
  if content ≠ .data ∨ file.firstRowId.isSome then .ok (nextRowId, file)
  else match nextRowId with
    | none => .ok (none, file)
    | some firstRowId =>
      if firstRowId < 0 ∨ file.recordCount < 0 then
        .error (rowLineageError file.filePath firstRowId file.recordCount)
      else do
        let next ← checkedAddI64 firstRowId file.recordCount
          (.invalidFormat ("Row ID overflow while rewriting data file " ++ file.filePath))
        .ok (some next, { file with firstRowId := some firstRowId })

/-! ### Writer -/

/-- The Avro schema of manifest entries: `ManifestEntry::schema`. -/
structure EntrySchema where
  formatVersion : FormatVersion
  partitionColumns : List (String × IcebergType)

/-- `partition_value_schema` followed by `ManifestEntry::schema`. -/
def entrySchema (V : Type) [PartitionValue V] (fields : List BoundPartitionField)
    (formatVersion : FormatVersion) : Except Error EntrySchema := do
  let partitionColumns ← partitionValueSchema fields
  parsePartitionSchema V partitionColumns
  .ok ⟨formatVersion, partitionColumns⟩

/-- `ManifestWriter`: the row being built and the file being written. -/
structure ManifestWriter (V : Type) where
  manifest : ManifestListEntry V
  avro : EntrySchema
  file : ManifestFile V

/-- `FilteredManifestStats`. -/
structure FilteredManifestStats (V : Type) where
  removedDataFiles : Int
  removedRecords : Int
  removedFileSizeBytes : Int
  filteredEntries : List (ManifestEntry V)
deriving DecidableEq

namespace FilteredManifestStats

/-- `FilteredManifestStats::default`. -/
def empty : FilteredManifestStats V := ⟨0, 0, 0, []⟩

/-- `FilteredManifestStats::append`. -/
def append (stats other : FilteredManifestStats V) : FilteredManifestStats V where
  removedDataFiles := wrapI32 (stats.removedDataFiles + other.removedDataFiles)
  removedRecords := wrapI64 (stats.removedRecords + other.removedRecords)
  removedFileSizeBytes := wrapI64 (stats.removedFileSizeBytes + other.removedFileSizeBytes)
  filteredEntries := stats.filteredEntries ++ other.filteredEntries

/-- The counters of a removed file.  Records of delete files are not counted. -/
def remove (stats : FilteredManifestStats V) (file : DataFile V) : FilteredManifestStats V where
  removedDataFiles := wrapI32 (stats.removedDataFiles + 1)
  removedRecords :=
    if file.content = .data then wrapI64 (stats.removedRecords + file.recordCount)
    else stats.removedRecords
  removedFileSizeBytes := wrapI64 (stats.removedFileSizeBytes + file.fileSizeInBytes)
  filteredEntries := stats.filteredEntries

end FilteredManifestStats

namespace ManifestWriter

/-- `AvroWriter::append_ser` of an entry: the record must be of the schema's version, and its
partition tuple must encode under the schema's columns. -/
def write (writer : ManifestWriter V) (entry : ManifestEntry V) :
    Except Error (ManifestWriter V) :=
  if entry.formatVersion ≠ writer.avro.formatVersion then .error (.avro "manifest entry")
  else do
    let partition ← encodePartition writer.avro.partitionColumns entry.dataFile.partition
    let stored := { entry with dataFile := { entry.dataFile with partition } }.toVersion
    .ok { writer with file := { writer.file with entries := writer.file.entries ++ [stored] } }

/-- The header of a manifest written under the table's current schema and default spec. -/
def currentHeader (V : Type) (metadata : TableMetadata) : Except Error (ManifestFile V) := do
  let schema ← metadata.currentSchema
  match metadata.partitionSpecs.lookup metadata.defaultSpecId with
  | none => .error (.notFound ("Partition spec with id " ++ toString metadata.defaultSpecId))
  | some spec =>
    .ok ⟨metadata.formatVersion, schema, ⟨metadata.defaultSpecId, spec.fields⟩, []⟩

/-- The sequence number the commit being built will get. -/
def nextSequenceNumber (metadata : TableMetadata) : Int :=
  wrapI64 (metadata.lastSequenceNumber + 1)

/-- `ManifestWriter::new`. -/
def new (location : String) (snapshotId : Int) (avro : EntrySchema) (metadata : TableMetadata)
    (content : ManifestContent) : Except Error (ManifestWriter V) := do
  let file ← currentHeader V metadata
  .ok {
    manifest := {
      formatVersion := metadata.formatVersion
      manifestPath := location
      partitionSpecId := metadata.defaultSpecId
      content := content
      sequenceNumber := nextSequenceNumber metadata
      minSequenceNumber := nextSequenceNumber metadata
      addedSnapshotId := snapshotId
      addedFilesCount := some 0
      existingFilesCount := some 0
      deletedFilesCount := some 0
      addedRowsCount := some 0
      existingRowsCount := some 0
      deletedRowsCount := some 0
      partitions := none
      keyMetadata := none
      firstRowId := none }
    avro, file }

/-- The state of the loops over an existing manifest: the writer, the counters, the smallest
live sequence number, and what only the filtering loop uses. -/
structure Rewrite (V : Type) where
  writer : ManifestWriter V
  existingFiles : Int
  existingRows : Int
  deletedFiles : Int
  deletedRows : Int
  minLiveSequence : Option Int
  nextInheritedRowId : Option Int
  stats : FilteredManifestStats V

namespace Rewrite

def start (writer : ManifestWriter V) (nextInheritedRowId : Option Int) : Rewrite V :=
  ⟨writer, 0, 0, 0, 0, none, nextInheritedRowId, .empty⟩

/-- The minimum of the sequence numbers of live entries seen so far. -/
def minWith (sequenceNumber : Option Int) (least : Option Int) : Option Int :=
  match sequenceNumber with
  | none => least
  | some sequence => some (match least with
    | none => sequence
    | some min => if sequence < min then sequence else min)

end Rewrite

/-- The explicit form of an inherited sequence number and snapshot id. -/
def resolveInherited (manifest : ManifestListEntry V) (entry : ManifestEntry V) :
    ManifestEntry V :=
  { entry with
    sequenceNumber := some (entry.sequenceNumber.getD manifest.sequenceNumber)
    snapshotId := some (entry.snapshotId.getD manifest.addedSnapshotId) }

/-- One entry of `from_existing`: tombstones are dropped, the rest becomes `Existing`. -/
def fromExistingStep (source : ManifestListEntry V) (metadata : TableMetadata)
    (state : Rewrite V) (entry : ManifestEntry V) : Except Error (Rewrite V) :=
  if entry.status = .deleted then .ok state
  else do
    let kept := { resolveInherited source entry with
      formatVersion := metadata.formatVersion, status := .existing }
    let writer ← state.writer.write kept
    .ok { state with
      writer
      existingFiles := wrapI32 (state.existingFiles + 1)
      existingRows := wrapI64 (state.existingRows + kept.dataFile.recordCount)
      minLiveSequence := Rewrite.minWith kept.sequenceNumber state.minLiveSequence }

/-- The row of a rewritten manifest, from the counters of the loop. -/
def rewrittenRow (manifest : ManifestListEntry V) (snapshotId : Int) (metadata : TableMetadata)
    (state : Rewrite V) : ManifestListEntry V :=
  { manifest with
    sequenceNumber := nextSequenceNumber metadata
    addedSnapshotId := snapshotId
    minSequenceNumber := state.minLiveSequence.getD (nextSequenceNumber metadata)
    existingFilesCount := some state.existingFiles
    existingRowsCount := some state.existingRows
    addedFilesCount := some 0
    addedRowsCount := some 0
    deletedFilesCount := some state.deletedFiles
    deletedRowsCount := some state.deletedRows }

/-- `ManifestWriter::from_existing`. -/
def fromExisting (entries : List (ManifestEntry V)) (manifest : ManifestListEntry V)
    (snapshotId : Int) (avro : EntrySchema) (metadata : TableMetadata) :
    Except Error (ManifestWriter V) := do
  let file ← currentHeader V metadata
  let state ← entries.foldlM (fromExistingStep manifest metadata)
    (.start ⟨manifest, avro, file⟩ none)
  .ok { state.writer with manifest := rewrittenRow manifest snapshotId metadata state }

/-- What the filtering loop of `from_existing_with_filter` reads: the row of the source
manifest, the spec and types it is written under, the removed paths, and the commit. -/
structure FilterContext (V : Type) where
  manifest : ManifestListEntry V
  writeSpec : PartitionSpec
  partitionTypes : List IcebergType
  oldSpec : Bool
  filter : List String
  snapshotId : Int
  formatVersion : FormatVersion

/-- Writing an entry under the spec of the manifest, with its partition value recorded. -/
def writeRecorded (context : FilterContext V) (writer : ManifestWriter V)
    (entry : ManifestEntry V) : Except Error (ManifestWriter V) := do
  let dataFile ← entry.dataFile.promotePartitionToTypes context.writeSpec context.partitionTypes
  let summaries ← updatePartitions dataFile.partition context.writeSpec.fields
    (writer.manifest.partitions.getD [])
  { writer with manifest := { writer.manifest with partitions := some summaries } }.write
    { entry with dataFile }

/-- One entry of `from_existing_with_filter`. -/
def fromExistingWithFilterStep (context : FilterContext V) (state : Rewrite V)
    (entry : ManifestEntry V) : Except Error (Rewrite V) :=
  if entry.status = .deleted then .ok state
  else do
    let (nextInheritedRowId, dataFile) ← inheritFirstRowId context.manifest.content
      state.nextInheritedRowId entry.dataFile
    let resolved := { resolveInherited context.manifest { entry with dataFile } with
      formatVersion := context.formatVersion }
    let state := { state with nextInheritedRowId }
    if dataFile.filePath ∈ context.filter then
      let tombstone := { resolved with status := .deleted, snapshotId := some context.snapshotId }
      let stats := state.stats.remove dataFile
      if context.oldSpec then do
        -- A tombstone must use the partition spec of the file it removes.
        let writer ← writeRecorded context state.writer tombstone
        .ok { state with
          writer, stats
          deletedFiles := wrapI32 (state.deletedFiles + 1)
          deletedRows := wrapI64 (state.deletedRows + dataFile.recordCount) }
      else .ok { state with
        stats := { stats with filteredEntries := stats.filteredEntries ++ [tombstone] } }
    else do
      let writer ← writeRecorded context state.writer { resolved with status := .existing }
      .ok { state with
        writer
        existingFiles := wrapI32 (state.existingFiles + 1)
        existingRows := wrapI64 (state.existingRows + dataFile.recordCount)
        minLiveSequence := Rewrite.minWith resolved.sequenceNumber state.minLiveSequence }

/-- The schema and the spec a filtered manifest is written under: those of the source manifest
where they are given, else the table's current ones. -/
def writeMetadata (metadata : TableMetadata) :
    Option (Schema × PartitionSpec) → Except Error (Schema × PartitionSpec)
  | some source => .ok source
  | none => do
    let schema ← metadata.currentSchema
    let spec ← metadata.defaultPartitionSpec
    .ok (schema, spec)

/-- `ManifestWriter::from_existing_with_filter`. -/
def fromExistingWithFilter (entries : List (ManifestEntry V)) (manifest : ManifestListEntry V)
    (filter : List String) (snapshotId : Int) (avro : EntrySchema) (metadata : TableMetadata)
    (sourceMetadata : Option (Schema × PartitionSpec)) :
    Except Error (ManifestWriter V × FilteredManifestStats V) :=
  let oldSpec : Bool := manifest.partitionSpecId ≠ metadata.defaultSpecId
  if oldSpec ∧ sourceMetadata.isNone then
    .error (.notSupported "COW rewrite across partition-spec evolution")
  else do
    let (writeSchema, writeSpec) ← writeMetadata metadata sourceMetadata
    if writeSpec.specId ≠ manifest.partitionSpecId ∨
        metadata.partitionSpecs.lookup writeSpec.specId ≠ some writeSpec then
      .error (.invalidFormat "Manifest partition spec does not match table metadata")
    else do
      let partitionTypes ← writeSpec.dataTypes writeSchema.fields
      let row := { manifest with
        partitions := some (writeSpec.fields.map fun _ => FieldSummary.empty)
        partitionSpecId := writeSpec.specId }
      let context : FilterContext V :=
        ⟨manifest, writeSpec, partitionTypes, oldSpec, filter, snapshotId, metadata.formatVersion⟩
      let state ← entries.foldlM (fromExistingWithFilterStep context)
        (.start ⟨row, avro, ⟨metadata.formatVersion, writeSchema, writeSpec, []⟩⟩
          manifest.firstRowId)
      .ok ({ state.writer with
        manifest := rewrittenRow state.writer.manifest snapshotId metadata state }, state.stats)

/-- The added, existing and deleted rows `append` counts for an entry: equality deletes count
as deleted rows whatever their status, position deletes do not count. -/
def rowCounts (entry : ManifestEntry V) : Int × Int × Int :=
  match entry.dataFile.content, entry.status with
  | .data, .added => (entry.dataFile.recordCount, 0, 0)
  | .data, .existing => (0, entry.dataFile.recordCount, 0)
  | .data, .deleted => (0, 0, entry.dataFile.recordCount)
  | .equalityDeletes, _ => (0, 0, entry.dataFile.recordCount)
  | .positionDeletes, _ => (0, 0, 0)

/-- Incrementing one of the file counts of a row. -/
def bump (count : Option Int) : Option Int :=
  match count with
  | some n => some (wrapI32 (n + 1))
  | none => some 1

/-- Adding to one of the row counts of a row. -/
def addRows (count : Option Int) (rows : Int) : Option Int :=
  match count with
  | some n => some (wrapI64 (n + rows))
  | none => some rows

/-- The counts of a row after one more entry. -/
def countEntry (manifest : ManifestListEntry V) (entry : ManifestEntry V) : ManifestListEntry V :=
  let rows := rowCounts entry
  { manifest with
    addedFilesCount :=
      if entry.status = .added then bump manifest.addedFilesCount else manifest.addedFilesCount
    existingFilesCount :=
      if entry.status = .existing then bump manifest.existingFilesCount
      else manifest.existingFilesCount
    deletedFilesCount :=
      if entry.status = .deleted then bump manifest.deletedFilesCount
      else manifest.deletedFilesCount
    addedRowsCount := addRows manifest.addedRowsCount rows.1
    existingRowsCount := addRows manifest.existingRowsCount rows.2.1
    deletedRowsCount := addRows manifest.deletedRowsCount rows.2.2
    minSequenceNumber := match entry.sequenceNumber with
      | some sequence =>
        if manifest.minSequenceNumber > sequence then sequence else manifest.minSequenceNumber
      | none => manifest.minSequenceNumber }

/-- `ManifestWriter::append`. -/
def append (metadata : TableMetadata) (writer : ManifestWriter V) (entry : ManifestEntry V) :
    Except Error (ManifestWriter V) := do
  let spec ← metadata.defaultPartitionSpec
  let summaries ← updatePartitions entry.dataFile.partition spec.fields
    (writer.manifest.partitions.getD (spec.fields.map fun _ => FieldSummary.empty))
  let written ← writer.write entry
  .ok { written with
    manifest := countEntry { writer.manifest with partitions := some summaries } entry }

/-- `ManifestWriter::finish`, and `finish_concurrently` with its upload awaited. -/
def finish (writer : ManifestWriter V) (store : Store V) : Store V × ManifestListEntry V :=
  (store.putManifest writer.manifest.manifestPath writer.file, writer.manifest)

end ManifestWriter

end IcebergRust

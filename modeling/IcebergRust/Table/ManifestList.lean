import IcebergRust.Table.Manifest

/-!
# Manifest lists: reader, row-id assignment and output

The parts of `iceberg-rust/src/table/manifest_list.rs` the manifest selection is built
on: reading a list with the version its Avro schema has, completing the counts of a
version 1 list, deciding whether a manifest may be rewritten, and appending a row to
the list being written.

* `RowIdAssigner.assign` gives a data manifest without one its first row id.
* `appendManifest` converts a row to the version of the list being written.
-/

namespace IcebergRust

variable {V : Type}

/-! ### Reading -/

/-- `manifest_list_format_version`: a version 3 list is read as version 2 by a version 2 table. -/
def manifestListFormatVersion (writerVersion tableVersion : FormatVersion) : FormatVersion :=
  if tableVersion = .v2 ∧ writerVersion = .v3 then .v2 else writerVersion

/-- `ManifestListReader::new`, collected: the decoder types partition summaries by the
schema of the snapshot that added each manifest. -/
def ManifestListFile.read [PartitionValue V] (file : ManifestListFile V)
    (metadata : TableMetadata) : Except Error (List (ManifestListEntry V)) :=
  ManifestListEntryDecoder.decodeAll metadata
    (manifestListFormatVersion file.formatVersion metadata.formatVersion) .new file.rows

/-- `ManifestListReader::new_with_schema`, collected. -/
def ManifestListFile.readWithSchema [PartitionValue V] (file : ManifestListFile V)
    (metadata : TableMetadata) (schema : Schema) : Except Error (List (ManifestListEntry V)) :=
  ManifestListEntryDecoder.decodeAll metadata
    (manifestListFormatVersion file.formatVersion metadata.formatVersion) (.withSchema schema)
    file.rows

/-- `read_snapshot`. -/
def readSnapshot [PartitionValue V] (snapshot : Snapshot) (metadata : TableMetadata)
    (store : Store V) : Except Error (List (ManifestListEntry V)) := do
  let file ← store.getManifestList snapshot.manifestList
  let schema ← metadata.schema snapshot.snapshotId
  file.readWithSchema metadata schema

/-! ### Completing the counts of a version 1 list -/

/-- The file and row counts of a manifest by status: added, existing, deleted. -/
structure StatusCounts where
  files : Int × Int × Int
  rows : Int × Int × Int

/-- `i32::checked_add` of one file. -/
def checkedCount (count : Int) : Except Error Int :=
  if count + 1 ≤ 2147483647 then .ok (count + 1)
  else .error (.invalidFormat "manifest file count overflow")

/-- One entry of the count loop of `hydrate_v1_manifest_list_row_counts`. -/
def countStatus (counts : StatusCounts) (entry : ManifestEntry V) : Except Error StatusCounts :=
  let records := entry.dataFile.recordCount
  if records < 0 then .error (.invalidFormat "data file record count must be non-negative")
  else
    let addRows (rows : Int) := checkedAddI64 rows records
      (.invalidFormat "manifest row count overflow")
    match entry.status with
    | .added => do
      let files ← checkedCount counts.files.1
      let rows ← addRows counts.rows.1
      .ok ⟨(files, counts.files.2), (rows, counts.rows.2)⟩
    | .existing => do
      let files ← checkedCount counts.files.2.1
      let rows ← addRows counts.rows.2.1
      .ok ⟨(counts.files.1, files, counts.files.2.2), (counts.rows.1, rows, counts.rows.2.2)⟩
    | .deleted => do
      let files ← checkedCount counts.files.2.2
      let rows ← addRows counts.rows.2.2
      .ok ⟨(counts.files.1, counts.files.2.1, files), (counts.rows.1, counts.rows.2.1, rows)⟩

/-- Completing one row: a row with all counts is kept, otherwise all six are recomputed. -/
def hydrateRow [PartitionValue V] (store : Store V) (row : ManifestListEntry V) :
    Except Error (ManifestListEntry V) :=
  if row.hasCounts then .ok row
  else do
    let file ← store.getManifest row.manifestPath
    let entries ← file.read
    let counts ← entries.foldlM countStatus ⟨(0, 0, 0), (0, 0, 0)⟩
    .ok { row with
      addedFilesCount := some counts.files.1
      existingFilesCount := some counts.files.2.1
      deletedFilesCount := some counts.files.2.2
      addedRowsCount := some counts.rows.1
      existingRowsCount := some counts.rows.2.1
      deletedRowsCount := some counts.rows.2.2 }

/-- `hydrate_v1_manifest_list_row_counts`: `none` where the list is not version 1 or has all
its counts. -/
def hydrateV1ManifestListRowCounts [PartitionValue V] (file : ManifestListFile V)
    (metadata : TableMetadata) (store : Store V) : Except Error (Option (ManifestListFile V)) :=
  if manifestListFormatVersion file.formatVersion metadata.formatVersion ≠ .v1 then .ok none
  else do
    let rows ← file.read metadata
    if rows.all (·.hasCounts) then .ok none
    else do
      let hydrated ← rows.mapM (hydrateRow store)
      let records ← hydrated.mapM ManifestListEntry.toRecord
      .ok (some ⟨.v1, records⟩)

/-- The list an operation starts from: completed unless the table itself is version 1. -/
def hydratedList [PartitionValue V] (file : ManifestListFile V) (metadata : TableMetadata)
    (store : Store V) : Except Error (ManifestListFile V) :=
  if metadata.formatVersion ≠ .v1 then do
    let hydrated ← hydrateV1ManifestListRowCounts file metadata store
    .ok (hydrated.getD file)
  else .ok file

/-! ### Rewrite compatibility -/

/-- `ManifestRewriteCompatibility::new`: the partition types of the current spec under the
current schema. -/
def rewritePartitionTypes (metadata : TableMetadata) : Except Error (List IcebergType) := do
  let spec ← metadata.defaultPartitionSpec
  let schema ← metadata.currentSchema
  spec.dataTypes schema.fields

/-- `ManifestRewriteCompatibility::allows`.  Its cache memoises the comparison of types by
schema id, which is all the comparison depends on. -/
def rewriteAllows (metadata : TableMetadata) (partitionTypes : List IcebergType)
    (manifest : ManifestListEntry V) : Bool :=
  if manifest.partitionSpecId ≠ metadata.defaultSpecId then false
  else
    match ((metadata.snapshots.lookup manifest.addedSnapshotId).bind (·.schemaId)).bind
        fun schemaId => metadata.schemas.lookup schemaId with
    | none => false
    | some schema =>
      match metadata.partitionSpecs.lookup metadata.defaultSpecId with
      | none => false
      | some spec => (spec.dataTypes schema.fields).toOption = some partitionTypes

/-! ### Writing rows -/

/-- `RowIdAssigner`. -/
structure RowIdAssigner where
  nextRowId : Int
deriving DecidableEq, Repr

/-- `required_non_negative_row_count`. -/
def requiredNonNegativeRowCount (rowCount : Option Int) (field manifestPath : String) :
    Except Error Int :=
  match rowCount with
  | none => .error (.invalidFormat ("manifest " ++ manifestPath ++ " is missing required " ++ field))
  | some count =>
    if count < 0 then .error (.invalidFormat ("manifest " ++ manifestPath ++ " has negative " ++ field))
    else .ok count

/-- `RowIdAssigner::assign`. -/
def RowIdAssigner.assign (assigner : RowIdAssigner) (manifest : ManifestListEntry V) :
    Except Error (RowIdAssigner × ManifestListEntry V) :=
  if manifest.content = .deletes then .ok (assigner, { manifest with firstRowId := none })
  else match manifest.firstRowId with
    | some firstRowId =>
      if firstRowId < 0 then
        .error (.invalidFormat ("manifest " ++ manifest.manifestPath ++
          " has a negative first row id"))
      else .ok (assigner, manifest)
    | none => do
      let addedRows ← requiredNonNegativeRowCount manifest.addedRowsCount "added_rows_count"
        manifest.manifestPath
      let existingRows ← requiredNonNegativeRowCount manifest.existingRowsCount
        "existing_rows_count" manifest.manifestPath
      let afterAdded ← checkedAddI64 assigner.nextRowId addedRows
        (.invalidFormat "next row id overflow")
      let next ← checkedAddI64 afterAdded existingRows (.invalidFormat "next row id overflow")
      .ok (⟨next⟩, { manifest with firstRowId := some assigner.nextRowId })

/-- The manifest list being written: its Avro writer and the row-id assigner. -/
structure ListOutput (V : Type) where
  writer : ManifestListFile V
  rowIdAssigner : Option RowIdAssigner

/-- An empty list under the schema of a version. -/
def ListOutput.start (version : FormatVersion) (rowIdAssigner : Option RowIdAssigner) :
    ListOutput V :=
  ⟨⟨version, []⟩, rowIdAssigner⟩

/-- `AvroWriter::append_ser` of a row. -/
def ManifestListFile.appendSer (file : ManifestListFile V) (manifest : ManifestListEntry V) :
    Except Error (ManifestListFile V) :=
  if manifest.formatVersion ≠ file.formatVersion then .error (.avro "manifest list entry")
  else do
    let record ← manifest.toRecord
    .ok { file with rows := file.rows ++ [record] }

/-- The six counts a version 2 list requires, in the order they are checked. -/
def requiredCounts (manifest : ManifestListEntry V) : List (String × Option Int) :=
  [("added_files_count", manifest.addedFilesCount),
    ("existing_files_count", manifest.existingFilesCount),
    ("deleted_files_count", manifest.deletedFilesCount),
    ("added_rows_count", manifest.addedRowsCount),
    ("existing_rows_count", manifest.existingRowsCount),
    ("deleted_rows_count", manifest.deletedRowsCount)]

/-- `append_manifest`. -/
def appendManifest (output : ListOutput V) (manifest : ManifestListEntry V) :
    Except Error (ListOutput V) :=
  match output.writer.formatVersion with
  | .v3 =>
    match output.rowIdAssigner with
    | none => .error (.invalidFormat "v3 manifest list requires row id assignment")
    | some assigner => do
      let (next, assigned) ← assigner.assign { manifest with formatVersion := .v3 }
      if assigned.content = .data ∧ assigned.firstRowId.isNone then
        .error (.invalidFormat ("v3 data manifest " ++ assigned.manifestPath ++
          " has no first row id"))
      else do
        let writer ← output.writer.appendSer assigned
        .ok ⟨writer, some next⟩
  | .v2 => do
    let _ ← (requiredCounts manifest).mapM fun count =>
      requiredNonNegativeRowCount count.2 count.1 manifest.manifestPath
    let writer ← output.writer.appendSer
      { manifest with formatVersion := .v2, firstRowId := none }
    .ok { output with writer }
  | .v1 => do
    let writer ← output.writer.appendSer
      { manifest with formatVersion := .v1, firstRowId := none }
    .ok { output with writer }

end IcebergRust

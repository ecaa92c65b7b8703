import IcebergRust.Spec.Decimal
import IcebergRust.Table.ManifestListWriter
import IcebergRust.Catalog.Commit
import Mathlib.Data.List.Sort

/-!
# Operations

`iceberg-rust/src/table/transaction/operation.rs`: what one operation of a transaction
reads from the table, writes to the object store, requires of the metadata and
changes in it.

* `Operation.execute` is the source's `execute`; each data operation has its own
  definition, and all of them end in `snapshotCommit`.
* `Entropy` is what an operation draws from outside: the random snapshot id, two
  random UUIDs and the clock.
-/

namespace IcebergRust

variable {V : Type}

/-- `SequenceGroup`: writes sharing a data sequence number. -/
structure SequenceGroup (V : Type) where
  deleteFiles : List (DataFile V)
  dataFiles : List (DataFile V)

inductive Operation (V : Type) where
  | addSchema (schema : Schema)
  | setDefaultSpec (specId : Int)
  | updateProperties (entries : List (String × String))
  | setSnapshotRef (entry : String × SnapshotReference)
  | replaceSortOrder (sortOrder : SortOrder)
  | append (branch : Option String) (dataFiles deleteFiles : List (DataFile V))
      (additionalSummary : Option (HashMap String String))
  | appendSequenceGroups (branch : Option String) (sequenceGroups : List (SequenceGroup V))
  | replace (branch : Option String) (files : List (DataFile V))
      (additionalSummary : Option (HashMap String String))
  | overwrite (branch : Option String) (dataFiles : List (DataFile V))
      (filesToOverwrite : HashMap String (List String))
      (additionalSummary : Option (HashMap String String))
  | truncate (branch : Option String)
  | expireSnapshots (olderThan : Option Int) (retainLast : Option Nat) (cleanOrphanFiles : Bool)
      (retainRefSnapshots dryRun : Bool)

/-- The randomness and the time of one execution: `generate_snapshot_id`, the UUID of the
operation, the UUID of its manifest-list writer, and the default timestamp of a snapshot. -/
structure Entropy where
  snapshotId : Int
  uuid : String
  writerUuid : String
  timestampMs : Int

/-! ### Snapshot summaries -/

/-- A numeric field of a summary, zero where it is missing or does not parse. -/
def summaryNumber (summary : HashMap String String) (key : String) : Int :=
  ((summary.lookup key).bind parseI64).getD 0

/-- Unchecked addition of `i64`s. -/
def addI64 (a b : Int) : Int := wrapI64 (a + b)

/-- The `i64` sum of a field over files. -/
def sumFiles (field : DataFile V → Int) (files : List (DataFile V)) : Int :=
  files.foldl (fun total file => addI64 total (field file)) 0

/-- `update_snapshot_summary`. -/
def updateSnapshotSummary (oldSummary : Option Summary) (dataFiles deleteFiles : List (DataFile V)) :
    HashMap String String :=
  let old (key : String) : Int := match oldSummary with
    | none => 0
    | some summary => summaryNumber summary.other key
  let addedRecords := sumFiles (·.recordCount) (dataContent dataFiles)
  let addedFilesSize := addI64 (sumFiles (·.fileSizeInBytes) dataFiles)
    (sumFiles (·.fileSizeInBytes) deleteFiles)
  HashMap.fromIter [
    ("total-records", toString (addI64 (old "total-records") addedRecords)),
    ("total-data-files", toString (addI64 (old "total-data-files") dataFiles.length)),
    ("total-delete-files", toString (addI64 (old "total-delete-files") deleteFiles.length)),
    ("total-file-size-bytes", toString (addI64 (old "total-file-size-bytes") addedFilesSize)),
    ("added-records", toString addedRecords),
    ("added-data-files", toString dataFiles.length),
    ("added-files-size-bytes", toString addedFilesSize)]

/-- `subtract_from_summary` of `update_snapshot_summary_by_filtered_stats`. -/
def adjustSummary (summary : HashMap String String) (key : String) (delta : Int) (add : Bool) :
    HashMap String String :=
  if delta = 0 then summary
  else
    let current := summaryNumber summary key
    let updated := if add then addI64 current delta else max (wrapI64 (current - delta)) 0
    summary.insert key (toString updated)

/-- `update_snapshot_summary_by_filtered_stats`. -/
def updateSummaryByFilteredStats (summary : HashMap String String)
    (stats : FilteredManifestStats V) : HashMap String String :=
  let summary := adjustSummary summary "total-records" stats.removedRecords false
  let summary := adjustSummary summary "deleted-data-files" stats.removedDataFiles true
  let summary := adjustSummary summary "deleted-records" stats.removedRecords true
  let summary := adjustSummary summary "total-data-files" stats.removedDataFiles false
  adjustSummary summary "total-file-size-bytes" stats.removedFileSizeBytes false

/-- Extending a summary by the fields the caller passes. -/
def extendSummary (summary : HashMap String String) (additional : Option (HashMap String String)) :
    HashMap String String :=
  summary.extend ((additional.map (·.iter)).getD [])

/-! ### The commit of a data operation -/

/-- `apply_v3_row_lineage`: the first row id and the number of assigned row ids. -/
def applyV3RowLineage (metadata : TableMetadata) (nextRowId : Option Int) :
    Except Error (Option Int × Option Int) :=
  match nextRowId with
  | none => .ok (none, none)
  | some next => do
    let addedRows ← checkedAddI64 next (-metadata.nextRowId)
      (.invalidFormat "next row id moved backwards")
    .ok (some metadata.nextRowId, some addedRows)

/-- The branch an operation writes to. -/
def branchName (branch : Option String) : String := branch.getD "main"

/-- The requirement and the updates of a data operation: the branch must still be at the snapshot
the operation read, and moves to the new one. -/
def snapshotCommit (branch : Option String) (oldSnapshot : Option Snapshot) (snapshot : Snapshot) :
    Option TableRequirement × List TableUpdate :=
  (some (.assertRefSnapshotId (branchName branch) (oldSnapshot.map (·.snapshotId))),
    [.addSnapshot snapshot,
      .setSnapshotRef (branchName branch) ⟨snapshot.snapshotId, default⟩])

/-- The operation recorded in the summary of an append. -/
def appendOperation (nDataFiles nDeleteFiles : Nat) : SnapshotOperation :=
  if nDeleteFiles = 0 then .append
  else if nDataFiles = 0 then .delete
  else .overwrite

/-- `ManifestEntry::builder` for a file added by the current commit. -/
def addedEntry (metadata : TableMetadata) (snapshotId sequenceNumber : Option Int)
    (file : DataFile V) : ManifestEntry V :=
  ⟨metadata.formatVersion, .added, snapshotId, sequenceNumber, file⟩

variable [PartitionValue V]

/-- The list writer of an append: from the list of the old snapshot, or from scratch. -/
def beginAppend (metadata : TableMetadata) (store : Store V) (oldSnapshot : Option Snapshot)
    (files : List (DataFile V)) (entropy : Entropy) : Except Error (ManifestListWriter V) :=
  match oldSnapshot with
  | none => ManifestListWriter.new files metadata entropy.writerUuid
  | some snapshot => do
    let file ← store.getManifestList snapshot.manifestList
    let hydrated ← hydratedList file metadata store
    ManifestListWriter.fromExisting hydrated files metadata entropy.writerUuid

/-- The new files of one content, appended with the selected manifest or split. -/
def appendContent (metadata : TableMetadata) (store : Store V) (writer : ManifestListWriter V)
    (files : List (DataFile V)) (snapshotId : Int) (content : ManifestContent) :
    Except Error (Store V × ManifestListWriter V) :=
  if files.isEmpty then .ok (store, writer)
  else
    let entries := files.map (addedEntry metadata none none)
    let nSplits := writer.nSplits files.length content
    if nSplits = 0 then writer.append metadata store entries snapshotId content
    else writer.appendMultiple metadata store entries snapshotId nSplits content

/-- `Operation::Append`. -/
def executeAppend (metadata : TableMetadata) (store : Store V) (entropy : Entropy)
    (branch : Option String) (dataFiles deleteFiles : List (DataFile V))
    (additionalSummary : Option (HashMap String String)) :
    Except Error (Store V × Option TableRequirement × List TableUpdate) := do
  let oldSnapshot ← metadata.currentSnapshot branch
  if dataFiles.length + deleteFiles.length = 0 then .ok (store, none, [])
  else do
    let summary := updateSnapshotSummary (oldSnapshot.map (·.summary)) dataFiles deleteFiles
    let begun ← beginAppend metadata store oldSnapshot (deleteFiles ++ dataFiles) entropy
    let (store, withData) ← appendContent metadata store begun dataFiles entropy.snapshotId .data
    let (store, filled) ← appendContent metadata store withData deleteFiles entropy.snapshotId
      .deletes
    let (store, manifestList, nextRowId) ← filled.finish metadata store entropy.snapshotId
    let schema ← metadata.currentSchema
    let (firstRowId, addedRows) ← applyV3RowLineage metadata nextRowId
    .ok (store, snapshotCommit branch oldSnapshot {
      snapshotId := entropy.snapshotId
      parentSnapshotId := oldSnapshot.map (·.snapshotId)
      sequenceNumber := ManifestWriter.nextSequenceNumber metadata
      timestampMs := entropy.timestampMs
      manifestList
      summary := ⟨appendOperation dataFiles.length deleteFiles.length,
        extendSummary summary additionalSummary⟩
      schemaId := some schema.schemaId
      firstRowId, addedRows })

/-- The files of one content of a sequence group; they are never split. -/
def appendGroupContent (metadata : TableMetadata) (snapshotId sequenceNumber : Int)
    (state : Store V × ManifestListWriter V) (files : List (DataFile V))
    (content : ManifestContent) : Except Error (Store V × ManifestListWriter V) :=
  if files.isEmpty then .ok state
  else state.2.append metadata state.1 (files.map (addedEntry metadata none (some sequenceNumber)))
    snapshotId content

/-- The loop over the groups.  Every group takes the next data sequence number, also an empty
one. -/
def appendGroups (metadata : TableMetadata) (snapshotId : Int) :
    Int → Store V × ManifestListWriter V → List (SequenceGroup V) →
      Except Error (Store V × ManifestListWriter V)
  | _, state, [] => .ok state
  | dsnOffset, state, group :: groups => do
    let sequenceNumber := wrapI64 (metadata.lastSequenceNumber + (dsnOffset + 1))
    let withData ← appendGroupContent metadata snapshotId sequenceNumber state group.dataFiles .data
    let filled ← appendGroupContent metadata snapshotId sequenceNumber withData group.deleteFiles
      .deletes
    appendGroups metadata snapshotId (dsnOffset + 1) filled groups

/-- All files of sequence groups, each group's delete files first. -/
def groupFiles (groups : List (SequenceGroup V)) : List (DataFile V) :=
  groups.flatMap fun group => group.deleteFiles ++ group.dataFiles

/-- `Operation::AppendSequenceGroups`. -/
def executeAppendSequenceGroups (metadata : TableMetadata) (store : Store V) (entropy : Entropy)
    (branch : Option String) (sequenceGroups : List (SequenceGroup V)) :
    Except Error (Store V × Option TableRequirement × List TableUpdate) := do
  let oldSnapshot ← metadata.currentSnapshot branch
  let nDataFiles := (sequenceGroups.map fun group => group.dataFiles.length).sum
  let nDeleteFiles := (sequenceGroups.map fun group => group.deleteFiles.length).sum
  if nDataFiles + nDeleteFiles = 0 then .ok (store, none, [])
  else do
    let allFiles := groupFiles sequenceGroups
    let begun ← beginAppend metadata store oldSnapshot allFiles entropy
    let (store, filled) ← appendGroups metadata entropy.snapshotId 0 (store, begun) sequenceGroups
    let (store, manifestList, nextRowId) ← filled.finish metadata store entropy.snapshotId
    let summary := updateSnapshotSummary (oldSnapshot.map (·.summary)) (dataContent allFiles)
      (deleteContent allFiles)
    let schema ← metadata.currentSchema
    let (firstRowId, addedRows) ← applyV3RowLineage metadata nextRowId
    .ok (store, snapshotCommit branch oldSnapshot {
      snapshotId := entropy.snapshotId
      parentSnapshotId := oldSnapshot.map (·.snapshotId)
      sequenceNumber := wrapI64 (metadata.lastSequenceNumber + sequenceGroups.length)
      timestampMs := entropy.timestampMs
      manifestList
      summary := ⟨appendOperation nDataFiles nDeleteFiles,
        extendSummary summary (appendSummary allFiles)⟩
      schemaId := some schema.schemaId
      firstRowId, addedRows })

/-- One manifest of `Operation::Replace`, always of content `Data`. -/
def writeReplacement (metadata : TableMetadata) (avro : EntrySchema) (snapshotId : Int)
    (uuid : String) (state : Store V × ManifestListFile V) (i : Nat)
    (entries : List (ManifestEntry V)) : Except Error (Store V × ManifestListFile V) := do
  let begun ← ManifestWriter.new (newManifestLocation metadata.location uuid i) snapshotId avro
    metadata .data
  let filled ← entries.foldlM (ManifestWriter.append metadata) begun
  let (store, manifest) := filled.finish state.1
  let list ← state.2.appendSer manifest
  .ok (store, list)

/-- The manifests of a replacement in order, numbered from `i`. -/
def writeReplacements (metadata : TableMetadata) (avro : EntrySchema) (snapshotId : Int)
    (uuid : String) :
    Store V × ManifestListFile V → Nat → List (List (ManifestEntry V)) →
      Except Error (Store V × ManifestListFile V)
  | state, _, [] => .ok state
  | state, i, part :: parts => do
    let next ← writeReplacement metadata avro snapshotId uuid state i part
    writeReplacements metadata avro snapshotId uuid next (i + 1) parts

/-- `Operation::Replace`.  The snapshot has no parent. -/
def executeReplace (metadata : TableMetadata) (store : Store V) (entropy : Entropy)
    (branch : Option String) (files : List (DataFile V))
    (additionalSummary : Option (HashMap String String)) :
    Except Error (Store V × Option TableRequirement × List TableUpdate) := do
  let fields ← metadata.currentPartitionFields
  let oldSnapshot ← metadata.currentSnapshot branch
  let schema ← metadata.currentSchema
  let names := fields.map (·.name)
  let nSplits := computeNSplits 0 files.length 0
  let sequenceNumber := ManifestWriter.nextSequenceNumber metadata
  let entries := files.map (addedEntry metadata (some entropy.snapshotId) (some sequenceNumber))
  let avro ← entrySchema V fields metadata.formatVersion
  let parts ←
    if nSplits = 0 then Except.ok [entries]
    else do
      let bounding ← boundingPartitionValues files names
      splitDatafiles entries bounding names nSplits
  let (store, list) ← writeReplacements metadata avro entropy.snapshotId entropy.uuid
    (store, ⟨metadata.formatVersion, []⟩) 0 parts
  let manifestList := newManifestListLocation metadata.location entropy.snapshotId 0 entropy.uuid
  let summary := updateSnapshotSummary none (dataContent files) (deleteContent files)
  .ok (store.putManifestList manifestList list, snapshotCommit branch oldSnapshot {
    snapshotId := entropy.snapshotId
    parentSnapshotId := none
    sequenceNumber
    timestampMs := entropy.timestampMs
    manifestList
    summary := ⟨.overwrite, extendSummary summary additionalSummary⟩
    schemaId := some schema.schemaId
    firstRowId := none
    addedRows := none })

/-- The new files of an overwrite, appended with the selected manifest, which is filtered when it
is itself one of the named ones. -/
def overwriteNewFiles (metadata : TableMetadata) (store : Store V) (writer : ManifestListWriter V)
    (stats : FilteredManifestStats V) (files : List (DataFile V)) (snapshotId : Int)
    (filesToOverwrite : HashMap String (List String)) :
    Except Error (Store V × ManifestListWriter V × FilteredManifestStats V) :=
  if files.isEmpty then .ok (store, writer, stats)
  else do
    let nSplits := writer.nSplits files.length .data
    let entries := files.map (addedEntry metadata none none)
    let filter := writer.selectedDataManifest.bind fun manifest =>
      filesToOverwrite.lookup manifest.manifestPath
    let (store, writer, selectedStats) ←
      if nSplits = 0 then writer.appendFiltered metadata store entries snapshotId filter .data
      else writer.appendMultipleFiltered metadata store entries snapshotId nSplits filter .data
    .ok (store, writer, match selectedStats with
      | some selected => stats.append selected
      | none => stats)

/-- The tombstones of the current spec, written to manifests of content `Data`. -/
def writeTombstones (metadata : TableMetadata) (store : Store V) (writer : ManifestListWriter V)
    (filtered : List (ManifestEntry V)) (snapshotId : Int) :
    Except Error (Store V × ManifestListWriter V) :=
  if filtered.isEmpty then .ok (store, writer)
  else do
    let spec ← metadata.defaultPartitionSpec
    let schema ← metadata.currentSchema
    let types ← spec.dataTypes schema.fields
    let promoted ← filtered.mapM fun entry =>
      (entry.dataFile.promotePartitionToTypes spec types).map fun dataFile =>
        { entry with dataFile }
    let nSplits := writer.nSplits filtered.length .data
    if nSplits = 0 then writer.append metadata store promoted snapshotId .data
    else writer.appendMultiple metadata store promoted snapshotId nSplits .data

/-- The list writer of an overwrite and the manifests it has set aside. -/
def beginOverwrite (metadata : TableMetadata) (file : ManifestListFile V)
    (dataFiles : List (DataFile V)) (overwrites : List String) (entropy : Entropy) :
    Except Error (ManifestListWriter V × List (ManifestListEntry V)) :=
  if dataFiles.isEmpty then
    ManifestListWriter.fromExistingForDeletion file overwrites metadata entropy.writerUuid
  else
    ManifestListWriter.fromExistingWithoutOverwrites file dataFiles overwrites metadata
      entropy.writerUuid

/-- `Operation::Overwrite`. -/
def executeOverwrite (metadata : TableMetadata) (store : Store V) (entropy : Entropy)
    (branch : Option String) (dataFiles : List (DataFile V))
    (filesToOverwrite : HashMap String (List String))
    (additionalSummary : Option (HashMap String String)) :
    Except Error (Store V × Option TableRequirement × List TableUpdate) := do
  match ← metadata.currentSnapshot branch with
  | none => .error (.invalidFormat "Snapshot to overwrite")
  | some oldSnapshot =>
    if dataFiles.length = 0 ∧ filesToOverwrite.keys.isEmpty then .ok (store, none, [])
    else do
      let summary := updateSnapshotSummary (some oldSnapshot.summary) dataFiles []
      let overwrites := filesToOverwrite.keys
      let file ← store.getManifestList oldSnapshot.manifestList
      let hydrated ← hydratedList file metadata store
      let rows ← hydrated.read metadata
      let missing := overwrites.filter fun path => !(rows.map (·.manifestPath)).contains path
      if !missing.isEmpty then
        .error (.notFound ("Manifests to overwrite do not exist in current snapshot: " ++
          toString (missing.map String.quote)))
      else do
        let (begun, setAside) ← beginOverwrite metadata hydrated dataFiles overwrites entropy
        let (store, rewritten, stats) ← begun.appendAndFilter metadata store setAside
          filesToOverwrite entropy.snapshotId
        let (store, withData, stats) ← overwriteNewFiles metadata store rewritten stats dataFiles
          entropy.snapshotId filesToOverwrite
        let (store, filled) ← writeTombstones metadata store withData stats.filteredEntries
          entropy.snapshotId
        let (store, manifestList, nextRowId) ← filled.finish metadata store entropy.snapshotId
        let schema ← metadata.currentSchema
        let (firstRowId, addedRows) ← applyV3RowLineage metadata nextRowId
        .ok (store, snapshotCommit branch (some oldSnapshot) {
          snapshotId := entropy.snapshotId
          parentSnapshotId := some oldSnapshot.snapshotId
          sequenceNumber := ManifestWriter.nextSequenceNumber metadata
          timestampMs := entropy.timestampMs
          manifestList
          summary := ⟨.overwrite,
            updateSummaryByFilteredStats (extendSummary summary additionalSummary) stats⟩
          schemaId := some schema.schemaId
          firstRowId, addedRows })

/-- `Operation::Truncate`: an empty list. -/
def executeTruncate (metadata : TableMetadata) (store : Store V) (entropy : Entropy)
    (branch : Option String) :
    Except Error (Store V × Option TableRequirement × List TableUpdate) := do
  let oldSnapshot ← metadata.currentSnapshot branch
  let manifestList := newManifestListLocation metadata.location entropy.snapshotId 0 entropy.uuid
  let summary := (updateSnapshotSummary none ([] : List (DataFile V)) []).insert
    "iceberg-rust.metadata-only-truncate" "true"
  let schema ← metadata.currentSchema
  let (firstRowId, addedRows) ←
    if metadata.formatVersion = .v3 then applyV3RowLineage metadata (some metadata.nextRowId)
    else .ok (none, none)
  .ok (store.putManifestList manifestList ⟨metadata.formatVersion, []⟩,
    snapshotCommit branch oldSnapshot {
      snapshotId := entropy.snapshotId
      parentSnapshotId := oldSnapshot.map (·.snapshotId)
      sequenceNumber := ManifestWriter.nextSequenceNumber metadata
      timestampMs := entropy.timestampMs
      manifestList
      summary := ⟨.overwrite, summary⟩
      schemaId := some schema.schemaId
      firstRowId, addedRows })

/-! ### Metadata operations -/

/-- `Operation::ReplaceSortOrder`. -/
def executeReplaceSortOrder (metadata : TableMetadata) (sortOrder : SortOrder) :
    Except Error (Option TableRequirement × List TableUpdate) :=
  if sortOrder.orderId = 0 ∧ !sortOrder.fields.isEmpty then
    .error (.invalidFormat ("sort order with fields uses order id 0, " ++
      "which is reserved for the unsorted order"))
  else do
    let schema ← metadata.currentSchema
    match sortOrder.fields.find? fun field =>
        !schema.fields.fields.any fun column => column.id = field.sourceId with
    | some field =>
      .error (.notFound ("Sort order field references non-existent schema field ID " ++
        toString field.sourceId))
    | none =>
      .ok (some (.assertDefaultSortOrderId metadata.defaultSortOrderId),
        [.addSortOrder sortOrder, .setDefaultSortOrder sortOrder.orderId])

/-- Whether `ExpireSnapshots` keeps the snapshot at a position of the list sorted by time. -/
def retains (metadata : TableMetadata) (olderThan : Option Int) (retainLast : Option Nat)
    (retainRefSnapshots : Bool) (index : Nat) (snapshot : Snapshot) : Bool :=
  metadata.currentSnapshotId = some snapshot.snapshotId ||
    (retainRefSnapshots && (metadata.refs.values.map (·.snapshotId)).contains snapshot.snapshotId) ||
    retainLast.any (index < ·) ||
    olderThan.any (· ≤ snapshot.timestampMs)

/-- The ids `ExpireSnapshots` removes: the snapshots, newest first, that no rule retains. -/
def snapshotsToExpire (metadata : TableMetadata) (olderThan : Option Int) (retainLast : Option Nat)
    (retainRefSnapshots : Bool) : List Int :=
  let sorted := metadata.snapshots.values.insertionSort fun a b => b.timestampMs ≤ a.timestampMs
  (sorted.zipIdx.filter fun entry =>
    !retains metadata olderThan retainLast retainRefSnapshots entry.2 entry.1).map
      (·.1.snapshotId)

/-- `Operation::ExpireSnapshots`. -/
def executeExpireSnapshots (metadata : TableMetadata) (olderThan : Option Int)
    (retainLast : Option Nat) (retainRefSnapshots dryRun : Bool) :
    Except Error (Option TableRequirement × List TableUpdate) :=
  if olderThan.isNone ∧ retainLast.isNone then
    .error (.invalidFormat
      "Must specify either older_than or retain_last for snapshot expiration")
  else
    let expired := snapshotsToExpire metadata olderThan retainLast retainRefSnapshots
    if dryRun then .ok (none, [])
    else if expired.isEmpty then .ok (none, [])
    else .ok (none, [.removeSnapshots expired])

/-! ### Execution -/

/-- `Operation::execute`. -/
def Operation.execute (operation : Operation V) (metadata : TableMetadata) (store : Store V)
    (entropy : Entropy) : Except Error (Store V × Option TableRequirement × List TableUpdate) :=
  match operation with
  | .append branch dataFiles deleteFiles additionalSummary =>
    executeAppend metadata store entropy branch dataFiles deleteFiles additionalSummary
  | .appendSequenceGroups branch sequenceGroups =>
    executeAppendSequenceGroups metadata store entropy branch sequenceGroups
  | .replace branch files additionalSummary =>
    if metadata.formatVersion = .v3 then
      .error (.notSupported "Iceberg v3 manifest rewrites with row lineage")
    else executeReplace metadata store entropy branch files additionalSummary
  | .overwrite branch dataFiles filesToOverwrite additionalSummary =>
    executeOverwrite metadata store entropy branch dataFiles filesToOverwrite additionalSummary
  | .truncate branch => executeTruncate metadata store entropy branch
  | .updateProperties entries => .ok (store, none, [.setProperties (HashMap.fromIter entries)])
  | .setSnapshotRef (key, value) =>
    .ok (store, some (.assertRefSnapshotId key (metadata.refTarget key)),
      [.setSnapshotRef key value])
  | .addSchema schema => .ok (store, none, [.addSchema schema schema.fields.maxFieldId])
  | .setDefaultSpec specId => .ok (store, none, [.setDefaultSpec specId])
  | .replaceSortOrder sortOrder =>
    (executeReplaceSortOrder metadata sortOrder).map fun commit => (store, commit)
  | .expireSnapshots olderThan retainLast _ retainRefSnapshots dryRun =>
    (executeExpireSnapshots metadata olderThan retainLast retainRefSnapshots dryRun).map
      fun commit => (store, commit)

end IcebergRust

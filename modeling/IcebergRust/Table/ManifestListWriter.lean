import IcebergRust.Transaction.Overwrite

/-!
# Writing a manifest list

`ManifestListWriter` of `iceberg-rust/src/table/manifest_list.rs`: the list of a new
snapshot, built from the old one by copying rows, rewriting a selected manifest with
the new entries, and filtering manifests files are removed from.

* `fromExisting`, `fromExistingWithoutOverwrites` and `fromExistingForDeletion` read
  the old list.
* `appendFiltered` writes the new entries with the selected manifest into one
  manifest, `appendMultipleFiltered` into several.
* `appendAndFilter` rewrites the manifests an overwrite has set aside.

Uploads run concurrently in the source; each goes to a path no other step reads, so
they are sequenced here.
-/

namespace IcebergRust

variable {V : Type} [PartitionValue V]

/-- `new_manifest_location`. -/
def newManifestLocation (location commitUuid : String) (i : Nat) : String :=
  location ++ "/metadata/" ++ commitUuid ++ "-m" ++ toString i ++ ".avro"

/-- `new_manifest_list_location`. -/
def newManifestListLocation (location : String) (snapshotId attempt : Int)
    (commitUuid : String) : String :=
  location ++ "/metadata/snap-" ++ toString snapshotId ++ "-" ++ toString attempt ++ "-" ++
    commitUuid ++ ".avro"

/-- The target number of data files per manifest is dynamic, but not below this number. -/
def minDatafilesPerManifest : Nat := 4

/-- `compute_n_splits`.  The source takes the square root in `f64`. -/
def computeNSplits (existingFileCount newFileCount selectedManifestFileCount : Nat) : Nat :=
  let limit := minDatafilesPerManifest + Nat.sqrt (existingFileCount + newFileCount)
  match (selectedManifestFileCount + newFileCount) / limit with
  | 0 => 0
  | x + 1 => Nat.log2 (x + 1) + 1

structure ManifestListWriter (V : Type) where
  output : ListOutput V
  selectedDataManifest : Option (ManifestListEntry V)
  selectedDeleteManifest : Option (ManifestListEntry V)
  boundingPartitionValues : Rectangle V
  nExistingFiles : Nat
  commitUuid : String
  manifestCount : Nat

namespace ManifestListWriter

/-! ### Beginning a list -/

/-- The row-id assigner of a version 3 table. -/
def tableAssigner (metadata : TableMetadata) : Option RowIdAssigner :=
  if metadata.formatVersion = .v3 then some ⟨metadata.nextRowId⟩ else none

/-- The names of the current partition columns, and the rectangle of the new files. -/
def partitionNamesAndBounds (files : List (DataFile V)) (metadata : TableMetadata) :
    Except Error (List String × Rectangle V) := do
  let fields ← metadata.currentPartitionFields
  let names := fields.map (·.name)
  let bounding ← IcebergRust.boundingPartitionValues files names
  .ok (names, bounding)

/-- `ManifestListWriter::new`. -/
def new (files : List (DataFile V)) (metadata : TableMetadata) (commitUuid : String) :
    Except Error (ManifestListWriter V) := do
  let (_, bounding) ← partitionNamesAndBounds files metadata
  .ok ⟨.start metadata.formatVersion (tableAssigner metadata), none, none, bounding, 0, commitUuid, 0⟩

/-- The checked file count of the version 3 and deletion passes. -/
def checkedFileCount (total : Nat) (manifest : ManifestListEntry V) : Except Error Nat :=
  let count := manifest.addedFilesCount.getD 0 + manifest.existingFilesCount.getD 0
  if 2147483647 < count ∨ count < -2147483648 then .error (.invalidFormat "manifest file count")
  else if count < 0 then .error .tryFromInt
  else if 18446744073709551615 < total + count.toNat then
    .error (.invalidFormat "manifest file count")
  else .ok (total + count.toNat)

/-- The state of a pass that selects nothing: what is copied, what is set aside, and the count. -/
structure CopyState (V : Type) where
  passed : OverwriteOutput V
  fileCountAllEntries : Nat

/-- One row of a pass that selects nothing. -/
def copyStep (overwrites : List String) (state : CopyState V) (manifest : ManifestListEntry V) :
    Except Error (CopyState V) := do
  let fileCountAllEntries ← checkedFileCount state.fileCountAllEntries manifest
  let passed ← passOn overwrites state.passed manifest
  .ok ⟨passed, fileCountAllEntries⟩

/-- The pass of version 3 tables and of deletions: named manifests are set aside, all others are
preserved by path. -/
def copyManifests (rows : List (ManifestListEntry V)) (overwrites : List String)
    (metadata : TableMetadata) : Except Error (CopyState V) :=
  rows.foldlM (copyStep overwrites)
    ⟨⟨.start metadata.formatVersion (tableAssigner metadata), []⟩, 0⟩

/-- `ManifestListWriter::from_existing`. -/
def fromExisting (file : ManifestListFile V) (files : List (DataFile V))
    (metadata : TableMetadata) (commitUuid : String) : Except Error (ManifestListWriter V) := do
  let (names, bounding) ← partitionNamesAndBounds files metadata
  let rows ← file.read metadata
  if metadata.formatVersion = .v3 then do
    -- Rewriting a v3 manifest would lose the inherited row ids of its files.
    let state ← copyManifests rows [] metadata
    .ok ⟨state.passed.output, none, none, bounding, state.fileCountAllEntries, commitUuid, 0⟩
  else do
    let selected ←
      if names.isEmpty then
        selectManifestUnpartitioned rows (.start metadata.formatVersion none) metadata
      else selectManifestPartitioned rows (.start metadata.formatVersion none) bounding metadata
    .ok ⟨selected.output, selected.dataManifest, selected.deleteManifest, bounding,
      selected.fileCountAllEntries, commitUuid, 0⟩

/-- `ManifestListWriter::from_existing_without_overwrites`. -/
def fromExistingWithoutOverwrites (file : ManifestListFile V) (files : List (DataFile V))
    (overwrites : List String) (metadata : TableMetadata) (commitUuid : String) :
    Except Error (ManifestListWriter V × List (ManifestListEntry V)) := do
  let (names, bounding) ← partitionNamesAndBounds files metadata
  let rows ← file.read metadata
  if metadata.formatVersion = .v3 then do
    let state ← copyManifests rows overwrites metadata
    .ok (⟨state.passed.output, none, none, bounding, state.fileCountAllEntries, commitUuid, 0⟩,
      state.passed.manifestsToOverwrite)
  else do
    let selected ←
      if names.isEmpty then
        selectManifestWithoutOverwritesUnpartitioned rows (.start metadata.formatVersion none)
          overwrites metadata
      else
        selectManifestWithoutOverwritesPartitioned rows (.start metadata.formatVersion none)
          bounding overwrites metadata
    .ok (⟨selected.output, selected.manifest, none, bounding, selected.fileCountAllEntries,
      commitUuid, 0⟩, selected.manifestsToOverwrite)

/-- `ManifestListWriter::from_existing_for_deletion`. -/
def fromExistingForDeletion (file : ManifestListFile V) (overwrites : List String)
    (metadata : TableMetadata) (commitUuid : String) :
    Except Error (ManifestListWriter V × List (ManifestListEntry V)) := do
  let rows ← file.read metadata
  let state ← copyManifests rows overwrites metadata
  .ok (⟨state.passed.output, none, none, .unbounded, state.fileCountAllEntries, commitUuid, 0⟩,
    state.passed.manifestsToOverwrite)

/-! ### Appending -/

/-- The manifest selected for a content. -/
def selected (writer : ManifestListWriter V) : ManifestContent → Option (ManifestListEntry V)
  | .data => writer.selectedDataManifest
  | .deletes => writer.selectedDeleteManifest

/-- `Option::take` on the manifest selected for a content. -/
def takeSelected (writer : ManifestListWriter V) : ManifestContent → ManifestListWriter V
  | .data => { writer with selectedDataManifest := none }
  | .deletes => { writer with selectedDeleteManifest := none }

/-- The file count `n_splits` takes for the selected manifest.  The `i32` sum wraps around and is
then read as a `usize`. -/
def selectedFileCount (manifest : Option (ManifestListEntry V)) : Nat :=
  asUsize ((manifest.bind fun row =>
    match row.existingFilesCount, row.addedFilesCount with
    | some x, some y => some (wrapI32 (x + y))
    | some x, none => some x
    | none, some y => some y
    | none, none => none).getD 0)

/-- `ManifestListWriter::n_splits`. -/
def nSplits (writer : ManifestListWriter V) (nDataFiles : Nat) (content : ManifestContent) : Nat :=
  computeNSplits writer.nExistingFiles nDataFiles (selectedFileCount (writer.selected content))

/-- The location `next_manifest_location` returns. -/
def nextLocation (writer : ManifestListWriter V) (metadata : TableMetadata) : String :=
  newManifestLocation metadata.location writer.commitUuid writer.manifestCount

/-- The state `next_manifest_location` leaves. -/
def advance (writer : ManifestListWriter V) : ManifestListWriter V :=
  { writer with manifestCount := writer.manifestCount + 1 }

/-- `append_new_manifest`. -/
def appendNewManifest (writer : ManifestListWriter V) (manifest : ManifestListEntry V) :
    Except Error (ManifestListWriter V) := do
  let output ← appendManifest writer.output manifest
  .ok { writer with output }

/-- The Avro schema for entries of the current spec. -/
def currentEntrySchema (V : Type) [PartitionValue V] (metadata : TableMetadata) :
    Except Error EntrySchema := do
  let fields ← metadata.currentPartitionFields
  entrySchema V fields metadata.formatVersion

/-- The writer an unsplit append starts from: the selected manifest under its new path,
rewritten or filtered, or a new manifest. -/
def beginManifest (store : Store V) (selected : Option (ManifestListEntry V)) (location : String)
    (snapshotId : Int) (filter : Option (List String)) (content : ManifestContent)
    (avro : EntrySchema) (metadata : TableMetadata) :
    Except Error (ManifestWriter V × Option (FilteredManifestStats V)) :=
  match selected with
  | some manifest => do
    let file ← store.getManifest manifest.manifestPath
    let entries ← file.read
    let renamed := { manifest with manifestPath := location }
    match filter with
    | some paths => do
      let (writer, stats) ← ManifestWriter.fromExistingWithFilter entries renamed paths snapshotId
        avro metadata none
      .ok (writer, some stats)
    | none => do
      let writer ← ManifestWriter.fromExisting entries renamed snapshotId avro metadata
      .ok (writer, none)
  | none => do
    let writer ← ManifestWriter.new location snapshotId avro metadata content
    .ok (writer, none)

/-- `append_filtered_concurrently`, its upload awaited. -/
def appendFiltered (metadata : TableMetadata) (store : Store V) (writer : ManifestListWriter V)
    (entries : List (ManifestEntry V)) (snapshotId : Int) (filter : Option (List String))
    (content : ManifestContent) :
    Except Error (Store V × ManifestListWriter V × Option (FilteredManifestStats V)) := do
  let avro ← currentEntrySchema V metadata
  let (begun, stats) ← beginManifest store (writer.selected content) (writer.nextLocation metadata)
    snapshotId filter content avro metadata
  let filled ← entries.foldlM (ManifestWriter.append metadata) begun
  let (stored, manifest) := filled.finish store
  let listed ← ((writer.takeSelected content).advance).appendNewManifest manifest
  .ok (stored, listed, stats)

/-- `append_concurrently` and `append`. -/
def append (metadata : TableMetadata) (store : Store V) (writer : ManifestListWriter V)
    (entries : List (ManifestEntry V)) (snapshotId : Int) (content : ManifestContent) :
    Except Error (Store V × ManifestListWriter V) := do
  let (stored, listed, _) ← appendFiltered metadata store writer entries snapshotId none content
  .ok (stored, listed)

/-- One entry of the selected manifest on the split path: dropped, filtered, or kept as
`Existing`.  A filtered entry keeps its snapshot id here. -/
def splitResolve (manifest : ManifestListEntry V) (filter : Option (List String))
    (state : FilteredManifestStats V × List (ManifestEntry V)) (entry : ManifestEntry V) :
    FilteredManifestStats V × List (ManifestEntry V) :=
  if entry.status = .deleted then state
  else
    let resolved := ManifestWriter.resolveInherited manifest entry
    if filter.any fun paths => entry.dataFile.filePath ∈ paths then
      let stats := state.1.remove entry.dataFile
      ({ stats with
        filteredEntries := stats.filteredEntries ++ [{ resolved with status := .deleted }] }, state.2)
    else (state.1, state.2 ++ [{ resolved with status := .existing }])

/-- The entries of the selected manifest on the split path, and the statistics of the filter. -/
def splitSource (store : Store V) (selected : Option (ManifestListEntry V))
    (filter : Option (List String)) :
    Except Error (FilteredManifestStats V × List (ManifestEntry V)) :=
  match selected with
  | none => .ok (.empty, [])
  | some manifest => do
    let file ← store.getManifest manifest.manifestPath
    let entries ← file.read
    .ok (entries.foldl (splitResolve manifest filter) (.empty, []))

/-- The rectangle the split starts from. -/
def splitBounds (writer : ManifestListWriter V) (selected : Option (ManifestListEntry V)) :
    Except Error (Rectangle V) :=
  match selected.bind (·.partitions) with
  | none => .ok writer.boundingPartitionValues
  | some summaries => (summaryToRectangle summaries).expand writer.boundingPartitionValues

/-- The manifests of the parts of a split, each uploaded; their rows are returned. -/
def writeParts (metadata : TableMetadata) (avro : EntrySchema) (snapshotId : Int)
    (content : ManifestContent) :
    Store V → ManifestListWriter V → List (List (ManifestEntry V)) →
      Except Error (Store V × ManifestListWriter V × List (ManifestListEntry V))
  | store, writer, [] => .ok (store, writer, [])
  | store, writer, part :: parts => do
    let begun ← ManifestWriter.new (writer.nextLocation metadata) snapshotId avro metadata content
    let filled ← part.foldlM (ManifestWriter.append metadata) begun
    let (stored, manifest) := filled.finish store
    let (stored, writer, manifests) ← writeParts metadata avro snapshotId content stored
      writer.advance parts
    .ok (stored, writer, manifest :: manifests)

/-- `append_multiple_filtered_concurrently`, its uploads awaited.  The new entries come before
those of the selected manifest. -/
def appendMultipleFiltered (metadata : TableMetadata) (store : Store V)
    (writer : ManifestListWriter V) (entries : List (ManifestEntry V)) (snapshotId : Int)
    (nSplits : Nat) (filter : Option (List String)) (content : ManifestContent) :
    Except Error (Store V × ManifestListWriter V × Option (FilteredManifestStats V)) := do
  let fields ← metadata.currentPartitionFields
  let avro ← entrySchema V fields metadata.formatVersion
  let bounds ← writer.splitBounds (writer.selected content)
  let (stats, existing) ← splitSource store (writer.selected content) filter
  let parts ← splitDatafiles (entries ++ existing) bounds (fields.map (·.name)) nSplits
  let (stored, advanced, manifests) ← writeParts metadata avro snapshotId content store
    (writer.takeSelected content) parts
  let listed ← manifests.foldlM appendNewManifest advanced
  .ok (stored, listed, filter.map fun _ => stats)

/-- `append_multiple_concurrently`. -/
def appendMultiple (metadata : TableMetadata) (store : Store V) (writer : ManifestListWriter V)
    (entries : List (ManifestEntry V)) (snapshotId : Int) (nSplits : Nat)
    (content : ManifestContent) : Except Error (Store V × ManifestListWriter V) := do
  let (stored, listed, _) ← appendMultipleFiltered metadata store writer entries snapshotId nSplits
    none content
  .ok (stored, listed)

/-! ### Filtering and finishing -/

/-- The schema and spec a manifest of an older spec is rewritten under, from its header. -/
def sourceMetadata (file : ManifestFile V) (manifest : ManifestListEntry V)
    (metadata : TableMetadata) : Option (Schema × PartitionSpec) :=
  if manifest.partitionSpecId ≠ metadata.defaultSpecId then some (file.schema, file.partitionSpec)
  else none

/-- The Avro schema a filtered manifest is written with. -/
def filterEntrySchema (V : Type) [PartitionValue V] (current : EntrySchema)
    (source : Option (Schema × PartitionSpec)) (metadata : TableMetadata) :
    Except Error EntrySchema :=
  match source with
  | none => .ok current
  | some (schema, spec) => do
    let fields ← partitionFields spec schema
    entrySchema V fields metadata.formatVersion

/-- One manifest of `append_and_filter`: read, filtered, and uploaded under its new path. -/
def filterManifest (metadata : TableMetadata) (current : EntrySchema)
    (filesToFilter : HashMap String (List String)) (snapshotId : Int) (store : Store V)
    (location : String) (manifest : ManifestListEntry V) :
    Except Error (Store V × ManifestListEntry V × FilteredManifestStats V) :=
  match filesToFilter.lookup manifest.manifestPath with
  | none => .error (.notFound "Datafiles for manifest")
  | some paths => do
    let file ← store.getManifest manifest.manifestPath
    let source := sourceMetadata file manifest metadata
    let avro ← filterEntrySchema V current source metadata
    let entries ← file.read
    let (filtered, stats) ← ManifestWriter.fromExistingWithFilter entries
      { manifest with manifestPath := location } paths snapshotId avro metadata source
    let (stored, row) := filtered.finish store
    .ok (stored, row, stats)

/-- The concurrent part of `append_and_filter`. -/
def filterManifests (metadata : TableMetadata) (current : EntrySchema)
    (filesToFilter : HashMap String (List String)) (snapshotId : Int) :
    Store V → ManifestListWriter V → List (ManifestListEntry V) →
      Except Error (Store V × ManifestListWriter V ×
        List (ManifestListEntry V × FilteredManifestStats V))
  | store, writer, [] => .ok (store, writer, [])
  | store, writer, manifest :: manifests => do
    let (stored, row, stats) ← filterManifest metadata current filesToFilter snapshotId store
      (writer.nextLocation metadata) manifest
    let (stored, writer, rest) ← filterManifests metadata current filesToFilter snapshotId stored
      writer.advance manifests
    .ok (stored, writer, (row, stats) :: rest)

/-- A filtered manifest is listed unless nothing is left in it. -/
def hasFiles (manifest : ManifestListEntry V) : Bool :=
  manifest.addedFilesCount.getD 0 > 0 || manifest.existingFilesCount.getD 0 > 0 ||
    manifest.deletedFilesCount.getD 0 > 0

/-- Listing one filtered manifest and accumulating its statistics. -/
def listFiltered (state : ManifestListWriter V × FilteredManifestStats V)
    (filtered : ManifestListEntry V × FilteredManifestStats V) :
    Except Error (ManifestListWriter V × FilteredManifestStats V) := do
  let writer ← if hasFiles filtered.1 then state.1.appendNewManifest filtered.1 else .ok state.1
  .ok (writer, state.2.append filtered.2)

/-- `append_and_filter`. -/
def appendAndFilter (metadata : TableMetadata) (store : Store V) (writer : ManifestListWriter V)
    (manifests : List (ManifestListEntry V)) (filesToFilter : HashMap String (List String))
    (snapshotId : Int) :
    Except Error (Store V × ManifestListWriter V × FilteredManifestStats V) := do
  let current ← currentEntrySchema V metadata
  let (stored, writer, filtered) ← filterManifests metadata current filesToFilter snapshotId store
    writer manifests
  let (writer, stats) ← filtered.foldlM listFiltered (writer, .empty)
  .ok (stored, writer, stats)

/-- Listing a manifest that was selected and not rewritten. -/
def appendRemaining (output : ListOutput V) (manifest : Option (ManifestListEntry V)) :
    Except Error (ListOutput V) :=
  match manifest with
  | none => .ok output
  | some row => appendManifest output row

/-- `ManifestListWriter::finish`: the location of the list and the next row id. -/
def finish (metadata : TableMetadata) (store : Store V) (writer : ManifestListWriter V)
    (snapshotId : Int) : Except Error (Store V × String × Option Int) := do
  let withData ← appendRemaining writer.output writer.selectedDataManifest
  let output ← appendRemaining withData writer.selectedDeleteManifest
  let location := newManifestListLocation metadata.location snapshotId 0 writer.commitUuid
  .ok (store.putManifestList location output.writer, location,
    output.rowIdAssigner.map (·.nextRowId))

end ManifestListWriter

end IcebergRust

import IcebergRust.DataFusion.DeletionVectorFilter
import IcebergRust.Table.Scan
import Mathlib.Order.Interval.Finset.Nat

/-!
# The plan of a table scan

`table_scan` of `datafusion_iceberg/src/table/mod.rs`: the columns of the scans, the files with
their partition values, and for every group of files the plan over them and their deletes.

* `scanColumns` describes the columns that `generatePartitionedFile` fills by position.
* `groupPlan` reconciles a group of data files with its deletes, `tableScan` is all plans.
* `ScanPlan.Outputs` are the rows that a plan can output.  What only drops rows (the limit, the row
  filter of the parquet reader) is left out, and so are the statistics.
-/

namespace IcebergRust

open Fallible

/-! ### Columns -/

/-- `DataFusionTableConfig`, for the columns of a scan. -/
structure DataFusionTableConfig where
  enableDataFilePathColumn : Bool
  enableDataFileRowPositionColumn : Bool
  enableManifestFilePathColumn : Bool
  enableRowIdColumn : Bool
  enableLastUpdatedSequenceNumberColumn : Bool
  scanChangedDataFiles : Bool
deriving DecidableEq, Repr

/-- `DATA_FILE_PATH_COLUMN`. -/
def dataFilePathColumn : String := "__data_file_path"

/-- `MANIFEST_FILE_PATH_COLUMN`. -/
def manifestFilePathColumn : String := "__manifest_file_path"

/-- `DATA_FILE_ROW_POSITION_COLUMN`. -/
def dataFileRowPositionColumn : String := "__iceberg_file_row_position"

/-- `DATA_FILE_SEQUENCE_NUMBER_COLUMN`. -/
def dataFileSequenceNumberColumn : String := "__iceberg_data_sequence_number"

/-- `CHANGE_FILE_STATUS_COLUMN`. -/
def changeFileStatusColumn : String := "__iceberg_change_file_status"

/-- `CHANGE_SNAPSHOT_SEQUENCE_NUMBER_COLUMN`. -/
def changeSnapshotSequenceNumberColumn : String := "__iceberg_change_snapshot_sequence_number"

/-- `PHYSICAL_ROW_ID_COLUMN`. -/
def physicalRowIdColumn : String := "__iceberg_physical_row_id"

/-- `PHYSICAL_LAST_UPDATED_SEQUENCE_NUMBER_COLUMN`. -/
def physicalLastUpdatedSequenceNumberColumn : String :=
  "__iceberg_physical_last_updated_sequence_number"

/-- `FIRST_ROW_ID_COLUMN`. -/
def firstRowIdColumn : String := "__iceberg_first_row_id"

/-- `ROW_ID_COLUMN`. -/
def rowIdColumn : String := "_row_id"

/-- `LAST_UPDATED_SEQUENCE_NUMBER_COLUMN`. -/
def lastUpdatedSequenceNumberColumn : String := "_last_updated_sequence_number"

/-- A list with one element, if it is asked for. -/
def onlyIf {α : Type} (asked : Bool) (a : α) : List α := if asked then [a] else []

namespace DataFusionTableConfig

def enableRowLineage (config : DataFusionTableConfig) : Bool :=
  config.enableRowIdColumn || config.enableLastUpdatedSequenceNumberColumn

/-- The columns of the table provider: the schema of `DataFusionTable::new_with_config`. -/
def outputColumns (config : DataFusionTableConfig) (schema : StructType) : List String :=
  schema.fields.map (·.name) ++ onlyIf config.enableDataFilePathColumn dataFilePathColumn ++
    onlyIf config.enableManifestFilePathColumn manifestFilePathColumn ++
    onlyIf config.enableDataFileRowPositionColumn dataFileRowPositionColumn ++
    onlyIf config.enableRowIdColumn rowIdColumn ++
    onlyIf config.enableLastUpdatedSequenceNumberColumn lastUpdatedSequenceNumberColumn ++
    onlyIf config.scanChangedDataFiles changeFileStatusColumn ++
    onlyIf config.scanChangedDataFiles changeSnapshotSequenceNumberColumn

/-- `file_schema`: the columns that are read from a data file. -/
def fileColumns (config : DataFusionTableConfig) (schema : StructType) : List String :=
  schema.fields.map (·.name) ++ onlyIf config.enableRowIdColumn physicalRowIdColumn ++
    onlyIf config.enableLastUpdatedSequenceNumberColumn physicalLastUpdatedSequenceNumberColumn

end DataFusionTableConfig

/-- `unique_internal_column_name`: one of as many suffixes as there are columns is available. -/
def uniqueInternalColumnName (fileColumns partitionColumns : List String) (base : String) :
    String :=
  let taken := fileColumns ++ partitionColumns
  let candidates := (List.range (taken.length + 1)).map fun suffix =>
    if suffix = 0 then base else base ++ "_" ++ toString suffix
  (candidates.find? fun candidate => candidate ∉ taken).getD base

/-- `PositionDeleteDataColumns`. -/
structure PositionDeleteDataColumns where
  filePath : Nat
  rowPosition : Nat
  sequenceNumber : Nat

/-- The columns of a scan behind those of the file. -/
structure ScanColumns where
  /-- `table_partition_cols`. -/
  partitionCols : List String
  /-- `position_delete_file_path_index`. -/
  filePath : Option Nat
  sequenceNumber : Option (String × Nat)
  /-- `row_position_column`, a virtual column behind the partition columns. -/
  rowPosition : Option (String × Nat)

/-- The partition columns up to the manifest path, and the index of the data-file path that
position deletes are joined on. -/
def pathColumns (config : DataFusionTableConfig) (fileColumns partitionFields : List String)
    (hasPositionDeletes : Bool) : List String × Option Nat :=
  let own := fileColumns.length + partitionFields.length
  let columns := partitionFields ++ onlyIf config.enableDataFilePathColumn dataFilePathColumn
  let manifestIndex := columns.length
  let columns := columns ++ onlyIf config.enableManifestFilePathColumn manifestFilePathColumn
  if ¬ hasPositionDeletes then (columns, none)
  else if config.enableDataFilePathColumn then (columns, some own)
  else
    let name := uniqueInternalColumnName fileColumns columns dataFilePathColumn
    -- The data-file path is before the manifest path also where it is internal.
    let index := if config.enableManifestFilePathColumn then manifestIndex else columns.length
    (columns.insertIdx index name, some (fileColumns.length + index))

/-- The columns of the scans.  `partitionFields` are the names of the partition fields whose values
are included. -/
def scanColumns (config : DataFusionTableConfig) (fileColumns partitionFields : List String)
    (hasPositionDeletes : Bool) : ScanColumns :=
  let paths := pathColumns config fileColumns partitionFields hasPositionDeletes
  let columns := paths.1 ++ onlyIf config.enableRowLineage firstRowIdColumn
  let needsSequence := hasPositionDeletes || config.enableLastUpdatedSequenceNumberColumn
  let sequenceName := uniqueInternalColumnName fileColumns columns dataFileSequenceNumberColumn
  let sequenceIndex := fileColumns.length + columns.length
  let columns := columns ++ onlyIf needsSequence sequenceName ++
    onlyIf config.scanChangedDataFiles changeFileStatusColumn ++
    onlyIf config.scanChangedDataFiles changeSnapshotSequenceNumberColumn
  let needsPosition := hasPositionDeletes || config.enableDataFileRowPositionColumn ||
    config.enableRowIdColumn
  let positionName := uniqueInternalColumnName fileColumns columns dataFileRowPositionColumn
  { partitionCols := columns
    filePath := paths.2
    sequenceNumber := if needsSequence then some (sequenceName, sequenceIndex) else none
    rowPosition :=
      if needsPosition then some (positionName, fileColumns.length + columns.length) else none }

/-- `scan_schema`: the columns of the file, the partition columns and the virtual column. -/
def ScanColumns.names (columns : ScanColumns) (fileColumns : List String) : List String :=
  fileColumns ++ columns.partitionCols ++ (columns.rowPosition.map (·.1)).toList

/-! ### Files -/

/-- `ScalarValue`, of the types that the scan itself makes or of another one. -/
inductive ScalarValue (V : Type) where
  | null
  | utf8 (value : String)
  | int64 (value : Int)
  | other (value : V)
deriving DecidableEq, Repr

/-- `PartitionedFileMetadataColumns`. -/
structure PartitionedFileMetadataColumns where
  firstRowId : Bool
  sequenceNumber : Bool
  changeStatus : Bool
  changeSnapshotSequenceNumber : Option Int

/-- `PartitionedFileMetadataColumns::default`. -/
def PartitionedFileMetadataColumns.empty : PartitionedFileMetadataColumns :=
  ⟨false, false, false, none⟩

/-- `PartitionedFile`: the file it is generated from, and its partition values. -/
structure PartitionedFile (V : Type) where
  source : ContentFile V
  partitionValues : List (ScalarValue V)

/-- The text of a status in the change columns. -/
def Status.change : Status → String
  | .added => "ADDED"
  | .existing => "EXISTING"
  | .deleted => "DELETED"

variable {V : Type} (valueToScalarvalue : V → Except DataFusionError (ScalarValue V))

/-- The scalars of a partition tuple. -/
def partitionScalars (tuple : Struct V) : Except DataFusionError (List (ScalarValue V)) :=
  tuple.fields.mapM fun column =>
    match column.2 with
    | none => .ok .null
    | some value => valueToScalarvalue value

/-- The scalars of the tuple of a file, if they are asked for. -/
def includedScalars (file : ContentFile V) (asked : Bool) :
    Except DataFusionError (List (ScalarValue V)) :=
  if asked then partitionScalars valueToScalarvalue file.entry.dataFile.partition else .ok []

/-- The sequence number of a file, if it is asked for. -/
def sequenceScalar (file : ContentFile V) (asked : Bool) :
    Except DataFusionError (List (ScalarValue V)) :=
  if ¬ asked then .ok []
  else match file.entry.sequenceNumber with
    | some sequence => .ok [.int64 sequence]
    | none => .error (.execution ("Data file " ++ file.entry.dataFile.filePath ++
        " has no sequence number"))

/-- `generate_partitioned_file`. -/
def generatePartitionedFile (file : ContentFile V) (includePartitionValues : Bool)
    (enableDataFilePath : Bool) (metadataColumns : PartitionedFileMetadataColumns)
    (manifestFilePath : Option String) : Except DataFusionError (PartitionedFile V) := do
  let tuple ← includedScalars valueToScalarvalue file includePartitionValues
  let sequence ← sequenceScalar file metadataColumns.sequenceNumber
  .ok {
    source := file
    partitionValues := tuple ++ onlyIf enableDataFilePath (.utf8 file.entry.dataFile.filePath) ++
      (manifestFilePath.map .utf8).toList ++
      onlyIf metadataColumns.firstRowId ((file.entry.dataFile.firstRowId.map .int64).getD .null) ++
      sequence ++ onlyIf metadataColumns.changeStatus (.utf8 file.entry.status.change) ++
      (metadataColumns.changeSnapshotSequenceNumber.map .int64).toList }

/-- `has_historical_data_manifests`. -/
def hasHistoricalDataManifests (manifests : List (ManifestListEntry V)) (currentSpecId : Int)
    (scanChangedDataFiles : Bool) : Bool :=
  manifests.any fun manifest =>
    manifest.content = .data && manifest.partitionSpecId ≠ currentSpecId &&
      (manifest.addedFilesCount ≠ some 0 || manifest.existingFilesCount ≠ some 0 ||
        (scanChangedDataFiles && manifest.deletedFilesCount ≠ some 0))

/-! ### Projections -/

/-- `RowLineageKind`. -/
inductive RowLineageKind where
  | rowId
  | lastUpdatedSequenceNumber
deriving DecidableEq, Repr

/-- An output expression: a column of the scan, or a `RowLineageExpr` over three of them. -/
inductive OutputExpr where
  | column (index : Nat)
  | rowLineage (kind : RowLineageKind) (physical firstRowId fallback : Nat)
deriving DecidableEq, Repr

/-- `RowLineageExpr::evaluate`, of one row. -/
def lineageValue (kind : RowLineageKind) (physical firstRowId fallback : ScalarValue V) :
    ScalarValue V :=
  match firstRowId, physical with
  | .int64 first, .null =>
    match kind, fallback with
    | .rowId, .int64 position => .int64 (first + position)
    | .rowId, _ => .null
    | .lastUpdatedSequenceNumber, sequence => sequence
  | .int64 _, value => value
  | _, _ => .null

def OutputExpr.evaluate (row : List (ScalarValue V)) : OutputExpr → ScalarValue V
  | .column index => row.getD index .null
  | .rowLineage kind physical firstRowId fallback =>
    lineageValue kind (row.getD physical .null) (row.getD firstRowId .null)
      (row.getD fallback .null)

/-- `projected_column`: the first column of the name, and where it is in the projection. -/
def projectedColumn (scanSchema : List String) (scanProjection : List Nat) (name : String) :
    Except DataFusionError (List Nat × Nat) :=
  match scanSchema.findIdx? fun column => column = name with
  | none => .error (.fieldNotFound name)
  | some scanIndex =>
    match scanProjection.findIdx? fun index => index = scanIndex with
    | some index => .ok (scanProjection, index)
    | none => .ok (scanProjection ++ [scanIndex], scanProjection.length)

/-- A `RowLineageExpr` over three columns of the scan. -/
def projectedLineage (scanSchema : List String) (kind : RowLineageKind)
    (physical firstRowId fallback : String) (scanProjection : List Nat) :
    Except DataFusionError (List Nat × OutputExpr) := do
  let (scanProjection, physical) ← projectedColumn scanSchema scanProjection physical
  let (scanProjection, firstRowId) ← projectedColumn scanSchema scanProjection firstRowId
  let (scanProjection, fallback) ← projectedColumn scanSchema scanProjection fallback
  .ok (scanProjection, .rowLineage kind physical firstRowId fallback)

/-- The expression of a requested column of `row_lineage_projection`. -/
def projectedExpression (scanSchema : List String) (config : DataFusionTableConfig)
    (rowPositionColumnName sequenceNumberColumnName : String) (scanProjection : List Nat)
    (name : String) : Except DataFusionError (List Nat × OutputExpr) :=
  if config.enableRowIdColumn ∧ name = rowIdColumn then
    projectedLineage scanSchema .rowId physicalRowIdColumn firstRowIdColumn rowPositionColumnName
      scanProjection
  else if config.enableLastUpdatedSequenceNumberColumn ∧
      name = lastUpdatedSequenceNumberColumn then
    projectedLineage scanSchema .lastUpdatedSequenceNumber physicalLastUpdatedSequenceNumberColumn
      firstRowIdColumn sequenceNumberColumnName scanProjection
  else
    (projectedColumn scanSchema scanProjection name).map fun projected =>
      (projected.1, .column projected.2)

/-- One requested column of `row_lineage_projection`. -/
def projectionStep (scanSchema : List String) (config : DataFusionTableConfig)
    (rowPositionColumnName sequenceNumberColumnName : String)
    (projections : List Nat × List (OutputExpr × String)) (name : String) :
    Except DataFusionError (List Nat × List (OutputExpr × String)) := do
  let (scanProjection, expression) ← projectedExpression scanSchema config rowPositionColumnName
    sequenceNumberColumnName projections.1 name
  .ok (scanProjection, projections.2 ++ [(expression, name)])

/-- `row_lineage_projection`, of the names of the requested columns. -/
def rowLineageProjection (config : DataFusionTableConfig) (fileColumns : List String)
    (columns : ScanColumns) (requested : List String) :
    Except DataFusionError (List Nat × List (OutputExpr × String)) :=
  requested.foldlM (projectionStep (columns.names fileColumns) config
    ((columns.rowPosition.map (·.1)).getD dataFileRowPositionColumn)
    ((columns.sequenceNumber.map (·.1)).getD dataFileSequenceNumberColumn)) ([], [])

/-- `push` of an index that the projection does not contain. -/
def addIndex (projection : List Nat) (index : Nat) : List Nat :=
  if index ∈ projection then projection else projection ++ [index]

/-- Where a projection has a column that position deletes need. -/
def projectedIndex (projection : List Nat) (scanIndex : Nat) : Except DataFusionError Nat :=
  match projection.findIdx? fun index => index = scanIndex with
  | some index => .ok index
  | none => .error (.plan ("Position delete scan column " ++ toString scanIndex ++
      " is missing from the projection"))

/-- `PositionDeleteDataColumns::project`. -/
def PositionDeleteDataColumns.project (columns : PositionDeleteDataColumns)
    (projection : List Nat) : Except DataFusionError PositionDeleteDataColumns := do
  let filePath ← projectedIndex projection columns.filePath
  let rowPosition ← projectedIndex projection columns.rowPosition
  let sequenceNumber ← projectedIndex projection columns.sequenceNumber
  .ok ⟨filePath, rowPosition, sequenceNumber⟩

/-! ### Plans -/

/-- The plans of a table scan. -/
inductive ScanPlan (V : Type) where
  /-- `DataSourceExec` over a file group, with the projection. -/
  | source (files : List (PartitionedFile V)) (projection : List Nat)
  | union (left right : ScanPlan V)
  /-- `HashJoinExec` of type `RightAnti` with an equality-delete file on its left, joined on columns
  of both sides. -/
  | equalityAnti (delete : PartitionedFile V) (on : List (String × Nat)) (right : ScanPlan V)
  /-- `FilterExec` by a `DeletionVectorPredicate`. -/
  | vectorFilter (vectors : List (ContentFile V)) (columns : PositionDeleteDataColumns)
      (input : ScanPlan V)
  /-- `HashJoinExec` of type `RightAnti` with position-delete files on its left. -/
  | positionAnti (deletes : List (ContentFile V)) (columns : PositionDeleteDataColumns)
      (right : ScanPlan V)
  /-- `ProjectionExec`. -/
  | projection (outputs : List (OutputExpr × String)) (input : ScanPlan V)

/-- What `table_scan` has fixed before it plans the groups. -/
structure ScanContext (V : Type) where
  config : DataFusionTableConfig
  schema : StructType
  includePartitionValues : Bool
  hasPositionDeletes : Bool
  columns : ScanColumns
  /-- `change_manifest_sequence_numbers`. -/
  changeSequences : Option (HashMap String Int)
  scanProjection : List Nat
  outputs : List (OutputExpr × String)

namespace ScanContext

variable (context : ScanContext V)

/-- `include_data_file_path_column`. -/
def includeDataFilePathColumn : Bool :=
  context.config.enableDataFilePathColumn || context.hasPositionDeletes

/-- A data file with the path of a manifest: the arguments that the three call sites share. -/
def partitionedFile (file : ContentFile V) (manifestPath : String) :
    Except DataFusionError (PartitionedFile V) :=
  generatePartitionedFile valueToScalarvalue file context.includePartitionValues
    context.includeDataFilePathColumn
    { firstRowId := context.config.enableRowLineage
      sequenceNumber :=
        context.hasPositionDeletes || context.config.enableLastUpdatedSequenceNumberColumn
      changeStatus := context.config.scanChangedDataFiles
      changeSnapshotSequenceNumber :=
        context.changeSequences.bind fun sequences => sequences.lookup file.manifestPath }
    (if context.config.enableManifestFilePathColumn then some manifestPath else none)

/-- A data file with the path of its own manifest. -/
def ownFile (file : ContentFile V) : Except DataFusionError (PartitionedFile V) :=
  context.partitionedFile valueToScalarvalue file file.manifestPath

/-- `equality_projection` before the columns of position deletes. -/
def equalityProjection (equalityDeletes : List (ContentFile V)) : List Nat :=
  ((equalityDeletes.flatMap fun delete =>
    delete.entry.dataFile.equalityIds.getD []).filterMap fun id =>
      context.schema.fields.findIdx? fun field => field.id = id).foldl addIndex
    context.scanProjection

/-- `position_delete_data_columns`. -/
def positionDeleteDataColumns : Option PositionDeleteDataColumns := do
  let filePath ← context.columns.filePath
  let rowPosition ← context.columns.rowPosition
  let sequenceNumber ← context.columns.sequenceNumber
  some ⟨filePath, rowPosition.2, sequenceNumber.2⟩

/-- The full projection of a group, and where it has the columns of position deletes. -/
def groupProjection (index : PartitionDeleteFileIndex V) :
    Except DataFusionError (List Nat × Option PositionDeleteDataColumns) :=
  let projection := context.equalityProjection index.equalityDeletes
  if index.positionDeletes.isEmpty then .ok (projection, none)
  else match context.positionDeleteDataColumns with
    | none => .error (.plan "Position delete files require internal scan columns")
    | some columns => do
      let projection := [columns.filePath, columns.rowPosition, columns.sequenceNumber].foldl
        addIndex projection
      let projected ← columns.project projection
      .ok (projection, some projected)

/-- The columns an equality delete is joined on: by name on its side, by index on the other. -/
def joinKey (projection : List Nat) (id : Int) : Except DataFusionError (String × Nat) :=
  match context.schema.get id with
  | none => .error (.execution "called `Option::unwrap()` on a `None` value")
  | some field =>
    let names := projection.map fun index =>
      (context.columns.names (context.config.fileColumns context.schema)).getD index ""
    match names.findIdx? fun name => name = field.name with
    | some index => .ok (field.name, index)
    | none => .error (.fieldNotFound field.name)

end ScanContext

/-- The sequence number of an entry, which every entry that is read has. -/
def ContentFile.sequenceNumber (file : ContentFile V) : Int := file.entry.sequenceNumber.getD 0

/-- `sort_by` the sequence number. -/
def sortBySequence (files : List (ContentFile V)) : List (ContentFile V) :=
  files.insertionSort fun file other => file.sequenceNumber ≤ other.sequenceNumber

/-- A scan beside a plan, if there is one. -/
def withScan (plan : Option (ScanPlan V)) (scan : ScanPlan V) : ScanPlan V :=
  match plan with
  | some plan => .union plan scan
  | none => scan

namespace ScanContext

variable (context : ScanContext V)

/-- One equality delete of a group: the data files before it, which are still left, are scanned
with the manifest path of the delete, and everything before it is joined with the delete. -/
def equalityStep (projection : List Nat) (state : Option (ScanPlan V) × List (ContentFile V))
    (delete : ContentFile V) :
    Except DataFusionError (Option (ScanPlan V) × List (ContentFile V)) := do
  let earlier := fun (file : ContentFile V) => decide (file.sequenceNumber < delete.sequenceNumber)
  let dataFiles ← (state.2.takeWhile earlier).mapM fun file =>
    context.partitionedFile valueToScalarvalue file delete.manifestPath
  let deleteFile ← generatePartitionedFile valueToScalarvalue delete context.includePartitionValues
    context.config.enableDataFilePathColumn .empty
    (if context.config.enableManifestFilePathColumn then some delete.manifestPath else none)
  let on ← (delete.entry.dataFile.equalityIds.getD []).mapM (context.joinKey projection)
  let right := withScan state.1 (.source dataFiles projection)
  .ok (some (.equalityAnti deleteFile on right), state.2.dropWhile earlier)

end ScanContext

/-- One file of the first loop of `apply_position_deletes`: position-delete files and deletion
vectors, the latter if they refer to an active data file. -/
def classifyStep (active : List String)
    (files : List (ContentFile V) × List (ContentFile V)) (delete : ContentFile V) :
    Except DataFusionError (List (ContentFile V) × List (ContentFile V)) :=
  let dataFile := delete.entry.dataFile
  match dataFile.contentOffset, dataFile.contentSizeInBytes, dataFile.referencedDataFile with
  | none, none, none => .ok (files.1 ++ [delete], files.2)
  | some _, some _, some referenced =>
    if dataFile.fileFormat ≠ .puffin then
      .error (.execution ("Iceberg deletion vector " ++ dataFile.filePath ++
        " must use PUFFIN file format"))
    else if referenced ∈ active then .ok (files.1, files.2 ++ [delete])
    else .ok files
  | _, _, _ => .error (.execution ("Iceberg deletion vector " ++ dataFile.filePath ++
      " must set referenced_data_file, content_offset, and content_size_in_bytes together"))

/-- What `load_deletion_vectors` checks of a file before it reads the vector. -/
def checkDeletionVector (delete : ContentFile V) : Except DataFusionError Unit :=
  let dataFile := delete.entry.dataFile
  let maxU64 : Int := 18446744073709551615
  match dataFile.contentOffset, dataFile.contentSizeInBytes with
  | none, _ => .error (.execution "Deletion vector has no content offset")
  | some _, none => .error (.execution "Deletion vector has no content size")
  | some offset, some size =>
    if offset < 0 then
      .error (.execution ("Deletion vector " ++ dataFile.filePath ++
        " has a negative content offset"))
    else if size < 0 then
      .error (.execution ("Deletion vector " ++ dataFile.filePath ++
        " has a negative content size"))
    else if maxU64 < offset + size then
      .error (.execution ("Deletion vector " ++ dataFile.filePath ++ " byte range overflows"))
    else if dataFile.recordCount < 0 then
      .error (.execution ("Deletion vector " ++ dataFile.filePath ++
        " has a negative record count"))
    else .ok ()

/-- What `apply_position_deletes` checks of a position-delete file. -/
def checkPositionDelete (delete : ContentFile V) : Except DataFusionError Unit :=
  let dataFile := delete.entry.dataFile
  if dataFile.fileSizeInBytes < 0 then
    .error (.execution ("Position delete file has a negative size: " ++
      toString dataFile.fileSizeInBytes))
  else if delete.entry.sequenceNumber = none then
    .error (.execution ("Position delete file " ++ dataFile.filePath ++ " has no sequence number"))
  else .ok ()

/-- `apply_position_deletes`. -/
def applyPositionDeletes (plan : ScanPlan V) (deletes : List (ContentFile V))
    (active : List String) (columns : PositionDeleteDataColumns) :
    Except DataFusionError (ScanPlan V) := do
  let files ← deletes.foldlM (classifyStep active) ([], [])
  let _ ← files.2.mapM checkDeletionVector
  let plan := if files.2.isEmpty then plan else .vectorFilter files.2 columns plan
  let _ ← files.1.mapM checkPositionDelete
  .ok (if files.1.isEmpty then plan else .positionAnti files.1 columns plan)

/-- The plan over a plan that may be empty and a file group that may be. -/
def withAdditional (plan : Option (ScanPlan V)) (files : List (PartitionedFile V))
    (projection : List Nat) : Option (ScanPlan V) :=
  if files.isEmpty then plan else some (withScan plan (.source files projection))

/-- What `table_scan` does with the plan of a group once it has scanned its files. -/
def finishGroup (context : ScanContext V) (plan : Option (ScanPlan V))
    (positionDeletes : List (ContentFile V)) (active : List String)
    (columns : Option PositionDeleteDataColumns) : Except DataFusionError (ScanPlan V) :=
  match plan, columns with
  | none, _ => .error (.external (.invalidFormat "Delete plan"))
  | some plan, none => .ok (.projection context.outputs plan)
  | some plan, some columns =>
    (applyPositionDeletes plan positionDeletes active columns).map (.projection context.outputs)

/-- The plan of a group of data files with deletes. -/
def groupPlan (context : ScanContext V) (dataFiles : List (ContentFile V))
    (index : PartitionDeleteFileIndex V) : Except DataFusionError (ScanPlan V) := do
  let equalityDeletes := sortBySequence index.equalityDeletes
  let dataFiles := sortBySequence dataFiles
  let (projection, columns) ← context.groupProjection { index with equalityDeletes }
  let (plan, left) ← equalityDeletes.foldlM (context.equalityStep valueToScalarvalue projection)
    (none, dataFiles)
  let additional ← left.mapM (context.ownFile valueToScalarvalue)
  let active := dataFiles.map fun file => file.entry.dataFile.filePath
  finishGroup context (withAdditional plan additional projection) index.positionDeletes active
    columns

/-- The plan of a file group without deletes, if it has files. -/
def plainPlan (context : ScanContext V) (files : List (PartitionedFile V)) : List (ScanPlan V) :=
  if files.isEmpty then []
  else if context.config.enableRowLineage then
    [.projection context.outputs (.source files context.scanProjection)]
  else [.source files context.scanProjection]

/-- The names of the columns of a plan. -/
def ScanPlan.columns (context : ScanContext V) : ScanPlan V → List String
  | .projection outputs _ => outputs.map (·.2)
  | _ => context.scanProjection.map fun index =>
      (context.columns.names (context.config.fileColumns context.schema)).getD index ""

/-- What a scan reads: a manifest and its entries. -/
structure ScannedManifest (V : Type) where
  row : ManifestListEntry V
  entries : List (ManifestEntry V)

/-- The arguments of a scan. -/
structure TableScan (V : Type) where
  config : DataFusionTableConfig
  schema : StructType
  defaultSpecId : Int
  specs : HashMap Int PartitionSpec
  manifests : List (ScannedManifest V)
  /-- The id of the order that data files are scanned in, if the table declares one. -/
  declaredOrdering : Option Int
  /-- The names of the requested columns. -/
  requested : List String

namespace TableScan

variable (scan : TableScan V)

/-- The entries that a scan can read, with the paths of their manifests. -/
def entries : List (ContentFile V) :=
  scan.manifests.flatMap fun manifest => manifest.entries.map fun entry =>
    ⟨manifest.row.manifestPath, inheritFromRow manifest.row entry⟩

/-- `spec_ids_by_manifest`. -/
def specIdsByManifest : HashMap String Int :=
  HashMap.fromIter (scan.manifests.map fun manifest =>
    (manifest.row.manifestPath, manifest.row.partitionSpecId))

/-- `change_manifest_sequence_numbers`. -/
def changeManifestSequenceNumbers : Option (HashMap String Int) :=
  if scan.config.scanChangedDataFiles then
    some (HashMap.fromIter (scan.manifests.map fun manifest =>
      (manifest.row.manifestPath, manifest.row.sequenceNumber)))
  else none

/-- `include_partition_values`. -/
def includePartitionValues : Bool :=
  !hasHistoricalDataManifests (scan.manifests.map (·.row)) scan.defaultSpecId
    scan.config.scanChangedDataFiles

/-- The names of the partition fields whose values are included. -/
def partitionFields : List String :=
  if scan.includePartitionValues then
    ((scan.specs.lookup scan.defaultSpecId).map fun spec => spec.fields.map (·.name)).getD []
  else []

/-- The columns of the scans of a table. -/
def columns (hasPositionDeletes : Bool) : ScanColumns :=
  scanColumns scan.config (scan.config.fileColumns scan.schema) scan.partitionFields
    hasPositionDeletes

/-- What is fixed before the groups are planned. -/
def context (hasPositionDeletes : Bool) : Except DataFusionError (ScanContext V) := do
  let columns := scan.columns hasPositionDeletes
  let (scanProjection, outputs) ← rowLineageProjection scan.config
    (scan.config.fileColumns scan.schema) columns scan.requested
  .ok {
    config := scan.config
    schema := scan.schema
    includePartitionValues := scan.includePartitionValues
    hasPositionDeletes, columns
    changeSequences := scan.changeManifestSequenceNumbers
    scanProjection, outputs }

/-- Whether a file attests the declared order. -/
def attests (file : ContentFile V) : Bool :=
  match scan.declaredOrdering with
  | some order => file.entry.dataFile.sortOrderId = some order
  | none => false

variable [DecidableEq V]

/-- `table_scan`, of the files that are left after pruning; `shuffle` is the order in which
`group_content_files` merges groups. -/
def plans
    (shuffle : List (PartitionKey V × List (ContentFile V)) →
      List (PartitionKey V × List (ContentFile V)))
    (files : List (ContentFile V)) :
    Except DataFusionError (ScanContext V × List (ScanPlan V)) := do
  let (data, deletes) ← groupContentFiles shuffle files scan.specIdsByManifest scan.specs
    scan.config.scanChangedDataFiles
  let hasPositionDeletes := deletes.values.any fun index => !index.positionDeletes.isEmpty
  let context ← scan.context hasPositionDeletes
  let grouped ← deletes.iter.mapM fun group =>
    groupPlan valueToScalarvalue context ((data.lookup group.1).getD []) group.2
  let rest := (data.iter.filter fun group => (deletes.lookup group.1).isNone).flatMap (·.2)
  let unattested ← (rest.filter fun file => !scan.attests file).mapM
    (context.ownFile valueToScalarvalue)
  let attested ← (rest.filter scan.attests).mapM (context.ownFile valueToScalarvalue)
  .ok (context, grouped ++ plainPlan context unattested ++ plainPlan context attested)

end TableScan

/-! ### Rows -/

/-- What the files of a table hold: rows by the names of their columns, and deletion vectors. -/
structure StoredRows (V : Type) where
  rows : Content → String → List (String → ScalarValue V)
  vector : ContentFile V → DeletionVector

/-- The text of a cell. -/
def ScalarValue.text : ScalarValue V → Option String
  | .utf8 value => some value
  | _ => none

/-- The integer of a cell. -/
def ScalarValue.integer : ScalarValue V → Option Int
  | .int64 value => some value
  | _ => none

/-- `load_deletion_vectors`: vectors of one data file are united. -/
def loadDeletionVectors (stored : StoredRows V) (deletes : List (ContentFile V)) :
    HashMap String DeletionVector :=
  deletes.foldl (fun vectors delete =>
    let path := delete.entry.dataFile.referencedDataFile.getD ""
    let before := ((vectors.lookup path).map (·.positions)).getD ∅
    vectors.insert path ⟨before ∪ (stored.vector delete).positions⟩) ∅

/-- The columns of a batch that the deletion vector filter reads. -/
def vectorBatch (columns : PositionDeleteDataColumns) (rows : List (List (ScalarValue V))) :
    RecordBatch where
  columns := [.utf8 (rows.map fun row => (row.getD columns.filePath .null).text),
    .int64 (rows.map fun row => (row.getD columns.rowPosition .null).integer)]
  numRows := rows.length

/-- Whether a row of a position-delete file deletes a row: the same path and position, and a
sequence number that is not before that of the data file. -/
def deletesPosition (columns : PositionDeleteDataColumns) (delete : ContentFile V)
    (position : String → ScalarValue V) (row : List (ScalarValue V)) : Prop :=
  row.getD columns.filePath .null ≠ .null ∧
    position "file_path" = row.getD columns.filePath .null ∧
    row.getD columns.rowPosition .null ≠ .null ∧
    position "pos" = row.getD columns.rowPosition .null ∧
    ∃ sequence, row.getD columns.sequenceNumber .null = .int64 sequence ∧
      sequence ≤ delete.sequenceNumber

/-- The cells of a row of a file: its columns, the partition values, and the position. -/
def PartitionedFile.cells (file : PartitionedFile V) (fileColumns : List String)
    (cells : String → ScalarValue V) (position : Nat) : List (ScalarValue V) :=
  fileColumns.map cells ++ file.partitionValues ++ [.int64 position]

/-- The rows that a plan can output, each with the data file that holds it. -/
def ScanPlan.Outputs (fileColumns : List String) (stored : StoredRows V) :
    ScanPlan V → ContentFile V → List (ScalarValue V) → Prop
  | .source files indices, origin, row =>
    ∃ file ∈ files, file.source = origin ∧ ∃ (position : Nat) (cells : String → ScalarValue V),
      (stored.rows .data origin.entry.dataFile.filePath)[position]? = some cells ∧
      row = indices.map fun index => (file.cells fileColumns cells position).getD index .null
  | .union left right, origin, row =>
    left.Outputs fileColumns stored origin row ∨ right.Outputs fileColumns stored origin row
  | .equalityAnti delete on right, origin, row =>
    right.Outputs fileColumns stored origin row ∧
    ¬ ∃ key ∈ stored.rows .equalityDeletes delete.source.entry.dataFile.filePath,
      ∀ column ∈ on, row.getD column.2 .null ≠ .null ∧ key column.1 = row.getD column.2 .null
  | .vectorFilter vectors columns input, origin, row =>
    (∀ delete ∈ vectors,
      ((stored.vector delete).positions.card : Int) = delete.entry.dataFile.recordCount) ∧
    input.Outputs fileColumns stored origin row ∧
    -- A row is judged in the batch it comes in.
    ∃ batch index value, batch[index]? = some row ∧
      (∀ other ∈ batch, ∃ source, input.Outputs fileColumns stored source other) ∧
      (DeletionVectorPredicate.scanned (loadDeletionVectors stored vectors)).evaluate
        (vectorBatch columns batch) = .ok value ∧
      value.keeps index = true
  | .positionAnti deletes columns right, origin, row =>
    right.Outputs fileColumns stored origin row ∧
    ¬ ∃ delete ∈ deletes, ∃ position ∈
      stored.rows .positionDeletes delete.entry.dataFile.filePath,
        deletesPosition columns delete position row
  | .projection outputs input, origin, row =>
    ∃ scanned, input.Outputs fileColumns stored origin scanned ∧
      row = outputs.map fun output => output.1.evaluate scanned

end IcebergRust

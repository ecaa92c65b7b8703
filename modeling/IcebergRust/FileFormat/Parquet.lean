import IcebergRust.FileFormat.Metrics
import IcebergRust.Spec.Manifest
import IcebergRust.Spec.ValueBytes

/-!
# Data files from Parquet metadata

`file_format/parquet.rs`: the entry of a manifest for a file, from the footer of the file.

* `ParquetMetaData` is what the footer says of the row groups and their columns.
* `collectColumn` is one turn of the inner loop of `parquet_to_datafile_impl`: it counts rows and
  nulls, merges the bounds and infers a partition value from the statistics of a column.
* The bounds are cut once, after the last row group.
-/

namespace IcebergRust

/-! ### Footers -/

/-- `parquet::basic::Type`. -/
inductive PhysicalType where
  | boolean
  | int32
  | int64
  | int96
  | float
  | double
  | byteArray
  | fixedLenByteArray
deriving DecidableEq, Repr

/-- The statistics of a column in a row group, each of them optional. -/
structure ColumnStatistics where
  nullCount : Option (BitVec 64)
  distinctCount : Option (BitVec 64)
  minBytes : Option (List UInt8)
  maxBytes : Option (List UInt8)
deriving DecidableEq

/-- A leaf column: its field id, and the names on the path to it. -/
structure ColumnDescriptor where
  fieldId : Option Int
  path : List String
  physicalType : PhysicalType
deriving DecidableEq, Repr

/-- `ColumnChunkMetaData`. -/
structure ColumnChunkMetaData where
  column : ColumnDescriptor
  compressedSize : BitVec 64
  statistics : Option ColumnStatistics
deriving DecidableEq

/-- `RowGroupMetaData`. -/
structure RowGroupMetaData where
  numRows : BitVec 64
  columns : List ColumnChunkMetaData
deriving DecidableEq

/-- `ParquetMetaData`: every row group has a chunk of every column. -/
structure ParquetMetaData where
  numRows : BitVec 64
  keyValueMetadata : Option (List (String × Option String))
  columns : List ColumnDescriptor
  rowGroups : List RowGroupMetaData
  aligned : ∀ group ∈ rowGroups, group.columns.map (·.column) = columns

/-- What the functions call outside the repository: beside the transforms, the parser of UUIDs and
the floating-point estimate of `estimate_distinct_count`. -/
structure FileLibraries where
  values : Value.Libraries
  parseUuid : String → Except Error (BitVec 128)
  estimateDistinctCount : Int × Int → Int × Int → Int → Int → Int

/-- `attested_sort_order_id`. -/
def attestedSortOrderId (file : ParquetMetaData) : Option Int :=
  (file.keyValueMetadata.bind fun entries =>
    ((entries.find? fun entry => entry.1 = "iceberg.sort-order-id").bind (·.2))).bind fun value =>
      (parseI64 value).filter fun id => decide (-2147483648 ≤ id ∧ id ≤ 2147483647)

/-- `is_row_lineage_field_id`. -/
def isRowLineageFieldId (id : Int) : Bool := id = 2147483540 ∨ id = 2147483539

namespace ColumnDescriptor

/-- The name of a leaf. -/
def name (column : ColumnDescriptor) : String := column.path.getLast?.getD ""

/-- The dotted path of a leaf. -/
def dotted (column : ColumnDescriptor) : String := ".".intercalate column.path

/-- A column of row lineage, which no metrics describe. -/
def isRowLineage (column : ColumnDescriptor) : Bool := column.fieldId.any isRowLineageFieldId

/-- The encoding of the statistics of a column. -/
def hint (column : ColumnDescriptor) : Option PhysicalTypeHint :=
  match column.physicalType with
  | .int32 | .int64 => some .nativeLittleEndian
  | .byteArray => some .byteArray
  | _ => none

end ColumnDescriptor

/-! ### Collecting -/

/-- A column as the schema and the configuration see it. -/
structure ResolvedColumn where
  id : Int
  dataType : IcebergType
  mode : MetricsMode
  hint : Option PhysicalTypeHint
  name : String

namespace ResolvedColumn

/-- A variant. -/
def isVariant (column : ResolvedColumn) : Bool := column.dataType = .primitive .variant

/-- A list, a map or a struct. -/
def isContainer (column : ResolvedColumn) : Bool :=
  match column.dataType with
  | .primitive _ => false
  | _ => true

/-- A type with bounds. -/
def hasBounds (column : ResolvedColumn) : Bool := !column.isContainer && !column.isVariant

end ResolvedColumn

/-- The position of the top-level field a column hangs off. -/
def topLevelIndex (schema : Schema) (columnPath : String) : Option Nat :=
  (splitAt '.' columnPath).head?.bind fun root =>
    (HashMap.fromIter (schema.fields.fields.zipIdx.map fun field => (field.1.name, field.2))).lookup
      root

/-- Looking a column up in the schema. -/
def resolveColumn (schema : Schema) (config : MetricsConfig) (column : ColumnDescriptor) :
    Except Error ResolvedColumn :=
  match schema.fields.getName column.dotted with
  | none => .error (.schema column.name "")
  | some named =>
    match schema.fields.get named.id with
    | none => .error (.schema column.name "")
    | some field => .ok {
        id := named.id
        dataType := field.fieldType
        mode := config.modeFor column.dotted (topLevelIndex schema column.dotted)
        hint := column.hint
        name := column.name }

/-- What is collected over the columns of all row groups. -/
structure Collected where
  columnSizes : HashMap Int Int
  valueCounts : HashMap Int Int
  nullValueCounts : HashMap Int Int
  distinctCounts : Option (HashMap Int Int)
  lowerBounds : HashMap Int Value
  upperBounds : HashMap Int Value
  columnMetricsModes : HashMap Int MetricsMode
  partition : Struct Value

/-- What is collected in a row group: the multi-leaf fields that are counted already, and the
null counts of variants. -/
structure GroupCollected where
  collected : Collected
  countedLogicalValues : List Int
  variantNullCounts : HashMap Int Int

/-- Adding to the count of a field. -/
def addCount (counts : HashMap Int Int) (id count : Int) : HashMap Int Int :=
  counts.insert id (match counts.lookup id with
    | some old => wrapI64 (old + count)
    | none => count)

/-- The rows of a column chunk: a variant or a container counts once in a row group. -/
def countRows (group : RowGroupMetaData) (column : ResolvedColumn) (compressedSize : BitVec 64)
    (state : GroupCollected) : GroupCollected :=
  let sized := { state.collected with
    columnMetricsModes := state.collected.columnMetricsModes.insert column.id column.mode
    columnSizes := addCount state.collected.columnSizes column.id compressedSize.toInt }
  if column.mode.recordsCounts then
    if column.isVariant || column.isContainer then
      if column.id ∈ state.countedLogicalValues then { state with collected := sized }
      else { state with
        collected := { sized with
          valueCounts := addCount sized.valueCounts column.id group.numRows.toInt }
        countedLogicalValues := column.id :: state.countedLogicalValues }
    else { state with
      collected := { sized with
        valueCounts := addCount sized.valueCounts column.id group.numRows.toInt } }
  else { state with collected := sized }

/-- The nulls of a column chunk: a variant has as many as any of its leaves. -/
def countNulls (column : ResolvedColumn) (statistics : ColumnStatistics) (state : GroupCollected) :
    GroupCollected :=
  match statistics.nullCount.filter fun _ => column.mode.recordsCounts with
  | none => state
  | some count =>
    if column.isVariant then { state with
      variantNullCounts := state.variantNullCounts.insert column.id
        (match state.variantNullCounts.lookup column.id with
          | some old => max old count.toInt
          | none => count.toInt) }
    else if column.isContainer then state
    else { state with collected := { state.collected with
      nullValueCounts := addCount state.collected.nullValueCounts column.id count.toInt } }

section Statistics

variable (libraries : FileLibraries) (column : ResolvedColumn) (statistics : ColumnStatistics)

/-- A value of the statistics of a column. -/
def decode (bytes : List UInt8) : Except Error Value :=
  Value.tryFromBytesWithHint libraries.parseUuid bytes column.dataType column.hint

/-- The distinct count of a column after one more chunk, from the ranges of `int` and `long`. -/
def mergeDistinctCount (counts : HashMap Int Int) (distinct : Int) (min max : Value)
    (currentMin currentMax : Option Value) : HashMap Int Int :=
  let estimate (low high min max : Int) :=
    counts.insert column.id (match counts.lookup column.id with
      | some old => wrapI64 (old +
          libraries.estimateDistinctCount (low, high) (min, max) old distinct)
      | none => distinct)
  match min, max, currentMin, currentMax with
  | .int min, .int max, some (.int low), some (.int high) =>
    estimate low.toInt high.toInt min.toInt max.toInt
  | .longInt min, .longInt max, some (.longInt low), some (.longInt high) =>
    estimate low.toInt high.toInt min.toInt max.toInt
  | _, _, none, none =>
    if counts.lookup column.id = none then counts.insert column.id distinct else counts
  | _, _, _, _ => counts

/-- The distinct values of a column chunk. -/
def countDistinct (state : Collected) : Except Error Collected :=
  match state.distinctCounts with
  | none => .ok state
  | some counts =>
    if column.mode.recordsCounts && column.hasBounds then
      match statistics.distinctCount, statistics.minBytes, statistics.maxBytes with
      | some distinct, some minBytes, some maxBytes => do
        let min ← decode libraries column minBytes
        let max ← decode libraries column maxBytes
        .ok { state with distinctCounts := some (mergeDistinctCount libraries column counts
          distinct.toInt min max (state.lowerBounds.lookup column.id)
          (state.upperBounds.lookup column.id)) }
      | _, _, _ => .ok state
    else .ok state

/-- The pairs of values the merge of bounds compares: both of a numeric type but decimals, both
dates or both times. -/
def comparesAs : Value → Value → Option (Int × Int)
  | .int current, .int new => some (current.toInt, new.toInt)
  | .longInt current, .longInt new => some (current.toInt, new.toInt)
  | .float current, .float new => some (current.rank, new.rank)
  | .double current, .double new => some (current.rank, new.rank)
  | .date current, .date new => some (current.toInt, new.toInt)
  | .time current, .time new => some (current.toInt, new.toInt)
  | .timestamp current, .timestamp new => some (current.toInt, new.toInt)
  | .timestampTZ current, .timestampTZ new => some (current.toInt, new.toInt)
  | .timestampNano current, .timestampNano new => some (current.toInt, new.toInt)
  | .timestampTZNano current, .timestampTZNano new => some (current.toInt, new.toInt)
  | _, _ => none

/-- The lower bound after one more chunk: pairs that are not compared keep the current one. -/
def mergeLower (current : Option Value) (new : Value) : Value :=
  match current with
  | none => new
  | some current =>
    match comparesAs current new with
    | some (a, b) => if a > b then new else current
    | none => current

/-- The upper bound after one more chunk. -/
def mergeUpper (current : Option Value) (new : Value) : Value :=
  match current with
  | none => new
  | some current =>
    match comparesAs current new with
    | some (a, b) => if a < b then new else current
    | none => current

/-- One of the bounds of a column after one more chunk. -/
def mergeBound (merge : Option Value → Value → Value) (bytes : Option (List UInt8))
    (bounds : HashMap Int Value) : Except Error (HashMap Int Value) :=
  match bytes with
  | some bytes =>
    if column.mode.recordsBounds && column.hasBounds then do
      let new ← decode libraries column bytes
      .ok (bounds.insert column.id (merge (bounds.lookup column.id) new))
    else .ok bounds
  | none => .ok bounds

/-- Inferring the partition value of a field from the first chunk of its source column with both
bounds. -/
def inferPartition (partitionFields : HashMap String PartitionField) (partition : Struct Value) :
    Except Error (Struct Value) :=
  match partitionFields.lookup column.name with
  | none => .ok partition
  | some field =>
    match partition.get field.name with
    | some none =>
      match statistics.minBytes, statistics.maxBytes with
      | some minBytes, some maxBytes => do
        let min ← decode libraries column minBytes
        let min ← min.transform libraries.values field.transform
        let max ← decode libraries column maxBytes
        let max ← max.transform libraries.values field.transform
        if min.same max then .ok (partition.set field.name (some min))
        else .error (.invalidFormat "Partition value of data file")
      | _, _ => .ok partition
    | _ => .ok partition

end Statistics

/-- The fields whose partition values are inferred, by the names of their source columns;
nothing where the caller knows the values. -/
structure CollectContext where
  libraries : FileLibraries
  schema : Schema
  config : MetricsConfig
  partitionFields : Option (HashMap String PartitionField)

/-- The partition tuple after a column chunk. -/
def inferred (context : CollectContext) (column : ResolvedColumn) (statistics : ColumnStatistics)
    (partition : Struct Value) : Except Error (Struct Value) :=
  match context.partitionFields with
  | some fields => inferPartition context.libraries column statistics fields partition
  | none => .ok partition

/-- The statistics of a column chunk. -/
def collectStatistics (context : CollectContext) (column : ResolvedColumn)
    (statistics : ColumnStatistics) (state : GroupCollected) : Except Error GroupCollected := do
  let state := countNulls column statistics state
  let collected ← countDistinct context.libraries column statistics state.collected
  let lowerBounds ← mergeBound context.libraries column mergeLower statistics.minBytes
    collected.lowerBounds
  let upperBounds ← mergeBound context.libraries column mergeUpper statistics.maxBytes
    collected.upperBounds
  let partition ← inferred context column statistics collected.partition
  .ok { state with collected := { collected with lowerBounds, upperBounds, partition } }

/-- One column of a row group. -/
def collectColumn (context : CollectContext) (group : RowGroupMetaData) (state : GroupCollected)
    (chunk : ColumnChunkMetaData) : Except Error GroupCollected :=
  if chunk.column.isRowLineage then .ok state
  else do
    let column ← resolveColumn context.schema context.config chunk.column
    let counted := countRows group column chunk.compressedSize state
    match chunk.statistics with
    | none => Except.ok counted
    | some statistics => collectStatistics context column statistics counted

/-- One row group. -/
def collectGroup (context : CollectContext) (collected : Collected) (group : RowGroupMetaData) :
    Except Error Collected := do
  let state ← group.columns.foldlM (collectColumn context group) ⟨collected, [], ∅⟩
  .ok { state.collected with
    nullValueCounts := state.variantNullCounts.iter.foldl
      (fun counts entry => addCount counts entry.1 entry.2) state.collected.nullValueCounts }

/-! ### The data file -/

/-- The lower bounds, cut as the modes of their columns say. -/
def truncateLowerBounds (modes : HashMap Int MetricsMode) (bounds : HashMap Int Value) :
    HashMap Int Value :=
  HashMap.fromIter (bounds.iter.map fun entry =>
    (entry.1, match modes.lookup entry.1 with
      | some (.truncate length) => truncateLowerBound entry.2 length
      | _ => entry.2))

/-- The upper bounds; one that cannot be raised is dropped. -/
def truncateUpperBounds (modes : HashMap Int MetricsMode) (bounds : HashMap Int Value) :
    HashMap Int Value :=
  HashMap.fromIter (bounds.iter.filterMap fun entry =>
    (match modes.lookup entry.1 with
      | some (.truncate length) => truncateUpperBound entry.2 length
      | _ => some entry.2).map fun value => (entry.1, value))

/-- `parquet_to_datafile_impl`. -/
def parquetToDatafileImpl (libraries : FileLibraries) (location : String) (fileSize : BitVec 64)
    (file : ParquetMetaData) (schema : Schema) (partitionFields : List BoundPartitionField)
    (equalityIds : Option (List Int)) (tableProperties : HashMap String String)
    (partitionValues : Option (List (Option Value))) : Except Error (DataFile Value) :=
  if partitionValues.any fun values => values.length ≠ partitionFields.length then
    .error (.invalidFormat "Partition value count")
  else do
    let writeDistinctCounts : Bool :=
      tableProperties.lookup "write.metadata.metrics.distinct-counts.enabled" = some "true"
    let partition : Struct Value := ⟨match partitionValues with
      | some values => List.zipWith (fun field value => (field.name, value)) partitionFields values
      | none => partitionFields.map fun field => (field.name, none)⟩
    let collected ← file.rowGroups.foldlM (collectGroup {
        libraries, schema
        config := .fromTableProperties tableProperties
        partitionFields := if partitionValues.isNone then
          some (HashMap.fromIter (partitionFields.map fun field =>
            (field.sourceName, field.partitionField)))
        else none })
      ⟨∅, ∅, ∅, if writeDistinctCounts then some ∅ else none, ∅, ∅, ∅, partition⟩
    .ok {
      content := if equalityIds.isNone then .data else .equalityDeletes
      filePath := location
      fileFormat := .parquet
      partition := collected.partition
      recordCount := file.numRows.toInt
      fileSizeInBytes := fileSize.toInt
      columnSizes := some collected.columnSizes
      valueCounts := some collected.valueCounts
      nullValueCounts := some collected.nullValueCounts
      nanValueCounts := none
      distinctCounts := collected.distinctCounts
      lowerBounds := some (truncateLowerBounds collected.columnMetricsModes collected.lowerBounds)
      upperBounds := some (truncateUpperBounds collected.columnMetricsModes collected.upperBounds)
      keyMetadata := none
      splitOffsets := none
      equalityIds
      sortOrderId := attestedSortOrderId file
      firstRowId := none
      referencedDataFile := none
      contentOffset := none
      contentSizeInBytes := none }

/-- `parquet_to_datafile`. -/
def parquetToDatafile (libraries : FileLibraries) (location : String) (fileSize : BitVec 64)
    (file : ParquetMetaData) (schema : Schema) (partitionFields : List BoundPartitionField)
    (equalityIds : Option (List Int)) (tableProperties : HashMap String String) :
    Except Error (DataFile Value) :=
  parquetToDatafileImpl libraries location fileSize file schema partitionFields equalityIds
    tableProperties none

/-- `parquet_to_datafile_with_partition`. -/
def parquetToDatafileWithPartition (libraries : FileLibraries) (location : String)
    (fileSize : BitVec 64) (file : ParquetMetaData) (schema : Schema)
    (partitionFields : List BoundPartitionField) (equalityIds : Option (List Int))
    (tableProperties : HashMap String String) (partitionValues : List (Option Value)) :
    Except Error (DataFile Value) :=
  parquetToDatafileImpl libraries location fileSize file schema partitionFields equalityIds
    tableProperties (some partitionValues)

/-- Libraries for columns that need none of them. -/
def footerLibraries : FileLibraries where
  values := ⟨fun _ => 0, fun _ => none⟩
  parseUuid := fun text => .error (.invalidFormat text)
  estimateDistinctCount := fun _ _ _ new => new

end IcebergRust

import IcebergRust.Spec.Manifest
import Mathlib.Data.List.OfFn

/-!
# Partition values of `long` columns

The instance of `PartitionValue` for the variant `Value::LongInt`: what a table whose
partition columns are all of type `long`, or which has none, runs on; and the metadata
such a table is created with.
-/

namespace IcebergRust

/-- `Value::LongInt`. -/
structure LongValue where
  value : BitVec 64
deriving DecidableEq, Repr

namespace LongValue

/-- `i64::to_le_bytes`. -/
def toLeBytes (long : LongValue) : List UInt8 :=
  (List.range 8).map fun i => ⟨long.value.extractLsb' (8 * i) 8⟩

/-- `i64::from_le_bytes` of eight bytes. -/
def fromLeBytes (bytes : List UInt8) : LongValue :=
  ⟨BitVec.ofNat 64 (bytes.foldr (fun byte n => n * 256 + byte.toNat) 0)⟩

/-- `i32::from_le_bytes` of four bytes, widened. -/
def fromLeBytes32 (bytes : List UInt8) : LongValue :=
  ⟨(BitVec.ofNat 32 (bytes.foldr (fun byte n => n * 256 + byte.toNat) 0)).signExtend 64⟩

def compare (a b : LongValue) : Ordering := Ord.compare a.value.toInt b.value.toInt

/-- Reading a value of type `long` from bytes. -/
def ofBytes (bytes : List UInt8) : IcebergType → Except Error LongValue
  | .primitive .long =>
    if bytes.length = 8 then .ok (fromLeBytes bytes) else .error .tryFromInt
  | _ => .error (.type "bytes" "long")

instance : PartitionValue LongValue where
  datatype _ := .primitive .long
  promoteIceberg long source target :=
    if source = target then .ok long else .error (.notSupported "Iceberg schema promotion")
  decimalUnchanged _ _ := false
  castPartition long type :=
    if type = .primitive .long then .ok long else .error (.notSupported "cast")
  partialCmp a b := some (a.compare b)
  variantCmp a b := some (a.compare b)
  trySub a b := .ok ⟨a.value - b.value⟩
  isFloating _ := false
  isNan _ := false
  toBytes := toLeBytes
  tryFromBytes := ofBytes
  decodeBound bytes type :=
    -- A bound written before the column was promoted from `int` has four bytes.
    if type = .primitive .long ∧ bytes.length = 4 then .ok (fromLeBytes32 bytes)
    else ofBytes bytes type
  parsePartitionSchema _ := .ok ()
  encodePartition columns tuple :=
    if columns.map (·.1) = tuple.fields.map (·.1) ∧ columns.all fun c => c.2 = .primitive .long then
      .ok tuple
    else .error (.avro "partition")

end LongValue

/-- A data file of an unpartitioned table. -/
def longFile (filePath : String) (recordCount : Int) : DataFile LongValue where
  content := .data
  filePath
  fileFormat := .parquet
  partition := ⟨[]⟩
  recordCount
  fileSizeInBytes := 100
  columnSizes := none
  valueCounts := none
  nullValueCounts := none
  nanValueCounts := none
  distinctCounts := none
  lowerBounds := none
  upperBounds := none
  keyMetadata := none
  splitOffsets := none
  equalityIds := none
  sortOrderId := none
  firstRowId := none
  referencedDataFile := none
  contentOffset := none
  contentSizeInBytes := none

/-- The metadata a table of one `long` column is created with: unpartitioned and empty. -/
def longTable (formatVersion : FormatVersion) : TableMetadata where
  formatVersion
  tableUuid := ⟨1⟩
  location := "s3://warehouse/table"
  lastSequenceNumber := 0
  lastUpdatedMs := 0
  lastColumnId := 1
  schemas := AList.singleton 0
    ⟨0, none, ⟨[⟨1, "x", true, .primitive .long, none, none, none⟩]⟩⟩
  currentSchemaId := 0
  partitionSpecs := AList.singleton 0 ⟨0, []⟩
  defaultSpecId := 0
  lastPartitionId := 999
  properties := ∅
  currentSnapshotId := none
  snapshots := ∅
  snapshotLog := []
  metadataLog := []
  sortOrders := AList.singleton 0 ⟨0, []⟩
  defaultSortOrderId := 0
  refs := ∅
  nextRowId := 0

end IcebergRust

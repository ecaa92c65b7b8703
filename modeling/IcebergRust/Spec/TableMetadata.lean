import IcebergRust.Spec.Schema

/-!
# Table metadata

`table_metadata.rs` and `snapshot.rs` of the spec crate: the state a catalog
keeps for a table, its snapshots and its named references, and the lookups the
operations start from.

* `TableMetadata.currentSnapshot` resolves a branch name (or `main`) to a
  snapshot, with the source's distinction between an absent branch and metadata
  whose `main` branch is missing.
-/

namespace IcebergRust

inductive FormatVersion where
  | v1
  | v2
  | v3
deriving DecidableEq, Repr

/-- `i32::from(FormatVersion)`. -/
def FormatVersion.toInt : FormatVersion → Int
  | .v1 => 1
  | .v2 => 2
  | .v3 => 3

/-! ### UUIDs -/

/-- A 128-bit identifier. -/
structure Uuid where
  value : BitVec 128
deriving DecidableEq, Repr

namespace Uuid

def hexDigit (n : Nat) : Char := (Nat.digitChar n)

/-- The 32 lower-case hexadecimal digits, most significant first. -/
def digits (uuid : Uuid) : List Char :=
  (List.range 32).reverse.map fun i => hexDigit (uuid.value.toNat / 16 ^ i % 16)

/-- `Display`: the hyphenated form. -/
def display (uuid : Uuid) : String :=
  let ds := uuid.digits
  String.ofList (ds.take 8 ++ '-' :: (ds.drop 8).take 4 ++ '-' :: (ds.drop 12).take 4 ++
    '-' :: (ds.drop 16).take 4 ++ '-' :: ds.drop 20)

def hexValue (c : Char) : Option Nat :=
  if '0' ≤ c ∧ c ≤ '9' then some (c.toNat - '0'.toNat)
  else if 'a' ≤ c ∧ c ≤ 'f' then some (c.toNat - 'a'.toNat + 10)
  else if 'A' ≤ c ∧ c ≤ 'F' then some (c.toNat - 'A'.toNat + 10)
  else none

/-- The hyphens of the 8-4-4-4-12 form, removed; other text is returned as it is. -/
def unhyphenate (text : List Char) : List Char :=
  if text.length = 36 ∧ [8, 13, 18, 23].all fun i => text[i]? = some '-' then
    text.take 8 ++ (text.drop 9).take 4 ++ (text.drop 14).take 4 ++ (text.drop 19).take 4 ++
      text.drop 24
  else text

/-- The braced and the `urn:uuid:` forms enclose the hyphenated one. -/
def unwrapText (text : List Char) : List Char :=
  if text.length = 38 ∧ text.head? = some '{' ∧ text.getLast? = some '}' then
    (text.drop 1).take 36
  else if text.length = 45 ∧ text.take 9 = "urn:uuid:".toList then text.drop 9
  else text

/-- `Uuid::parse_str`: 32 hexadecimal digits, plain, hyphenated, braced or as a URN. -/
def parseStr (text : String) : Except Error Uuid :=
  let body := unhyphenate (unwrapText text.toList)
  match body.mapM hexValue with
  | some ds =>
    if ds.length = 32 then .ok ⟨BitVec.ofNat 128 (ds.foldl (fun n d => n * 16 + d) 0)⟩
    else .error (.uuid text)
  | none => .error (.uuid text)

end Uuid

/-! ### Snapshots and references -/

/-- `Operation` of `snapshot.rs`, the kind of change a summary records. -/
inductive SnapshotOperation where
  | append
  | replace
  | overwrite
  | delete
deriving DecidableEq, Repr

structure Summary where
  operation : SnapshotOperation
  other : HashMap String String
deriving DecidableEq

structure Snapshot where
  snapshotId : Int
  parentSnapshotId : Option Int
  sequenceNumber : Int
  timestampMs : Int
  manifestList : String
  summary : Summary
  schemaId : Option Int
  firstRowId : Option Int
  addedRows : Option Int
deriving DecidableEq

inductive SnapshotRetention where
  | branch (minSnapshotsToKeep : Option Int) (maxSnapshotAgeMs : Option Int)
      (maxRefAgeMs : Option Int)
  | tag (maxRefAgeMs : Int)
deriving DecidableEq, Repr

instance : Inhabited SnapshotRetention := ⟨.branch none none none⟩

structure SnapshotReference where
  snapshotId : Int
  retention : SnapshotRetention
deriving DecidableEq, Repr

structure SnapshotLog where
  snapshotId : Int
  timestampMs : Int
deriving DecidableEq, Repr

structure MetadataLog where
  metadataFile : String
  timestampMs : Int
deriving DecidableEq, Repr

/-! ### Metadata -/

structure TableMetadata where
  formatVersion : FormatVersion
  tableUuid : Uuid
  location : String
  lastSequenceNumber : Int
  lastUpdatedMs : Int
  lastColumnId : Int
  schemas : HashMap Int Schema
  currentSchemaId : Int
  partitionSpecs : HashMap Int PartitionSpec
  defaultSpecId : Int
  lastPartitionId : Int
  properties : HashMap String String
  currentSnapshotId : Option Int
  snapshots : HashMap Int Snapshot
  snapshotLog : List SnapshotLog
  metadataLog : List MetadataLog
  sortOrders : HashMap Int SortOrder
  defaultSortOrderId : Int
  refs : HashMap String SnapshotReference
  nextRowId : Int
deriving DecidableEq

namespace TableMetadata

variable (metadata : TableMetadata)

/-- `TableMetadata::current_schema`. -/
def currentSchema : Except Error Schema :=
  match metadata.schemas.lookup metadata.currentSchemaId with
  | some schema => .ok schema
  | none => .error (.invalidFormat "schema")

/-- `TableMetadata::schema`: the schema recorded by a snapshot, else the current one. -/
def schema (snapshotId : Int) : Except Error Schema :=
  let schemaId := ((metadata.snapshots.lookup snapshotId).bind (·.schemaId)).getD
    metadata.currentSchemaId
  match metadata.schemas.lookup schemaId with
  | some schema => .ok schema
  | none => .error (.invalidFormat "schema")

/-- `TableMetadata::default_partition_spec`. -/
def defaultPartitionSpec : Except Error PartitionSpec :=
  match metadata.partitionSpecs.lookup metadata.defaultSpecId with
  | some spec => .ok spec
  | none => .error (.invalidFormat "partition spec")

/-- `TableMetadata::default_sort_order`. -/
def defaultSortOrder : Except Error SortOrder :=
  match metadata.sortOrders.lookup metadata.defaultSortOrderId with
  | some order => .ok order
  | none => .error (.invalidFormat "sort order")

/-- `TableMetadata::current_partition_fields`. -/
def currentPartitionFields : Except Error (List BoundPartitionField) := do
  let schema ← metadata.currentSchema
  let spec ← metadata.defaultPartitionSpec
  partitionFields spec schema

/-- `TableMetadata::partition_fields`: the default spec bound to a snapshot's schema. -/
def snapshotPartitionFields (snapshotId : Int) : Except Error (List BoundPartitionField) := do
  let schema ← metadata.schema snapshotId
  let spec ← metadata.defaultPartitionSpec
  partitionFields spec schema

/-- The snapshot a reference names.  Without a name it is `main`'s, falling back to
`current_snapshot_id`. -/
def refSnapshotId : Option String → Option Int
  | none => ((metadata.refs.lookup "main").map (·.snapshotId)).or metadata.currentSnapshotId
  | some reference => (metadata.refs.lookup reference).map (·.snapshotId)

/-- `TableMetadata::current_snapshot`. -/
def currentSnapshot (snapshotRef : Option String) : Except Error (Option Snapshot) :=
  match metadata.refSnapshotId snapshotRef with
  | some snapshotId => .ok (metadata.snapshots.lookup snapshotId)
  | none =>
    if metadata.snapshots.entries.isEmpty ∨
        (snapshotRef.isSome ∧ snapshotRef ≠ some "main") then .ok none
    else .error (.invalidFormat "snapshots")

/-- The head of a branch is one of the snapshots. -/
theorem exists_lookup_of_currentSnapshot {branch : Option String} {old : Option Snapshot}
    (read : metadata.currentSnapshot branch = .ok old) :
    ∀ snapshot, old = some snapshot → ∃ id, metadata.snapshots.lookup id = some snapshot := by
  rintro snapshot rfl
  simp only [currentSnapshot] at read
  split at read
  · rename_i id _
    injection read with found
    exact ⟨id, found⟩
  · split at read <;> cases read

/-- `TableMetadata::sequence_number`. -/
def sequenceNumber (snapshotId : Int) : Option Int :=
  (metadata.snapshots.lookup snapshotId).map (·.sequenceNumber)

end TableMetadata

end IcebergRust

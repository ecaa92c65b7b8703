import IcebergRust.Spec.TableMetadata

/-!
# Requirements and updates of a commit

`iceberg-rust/src/catalog/commit.rs`: what a transaction asserts about the current
metadata and what it changes.  A catalog accepts a commit when
`checkTableRequirements` holds of its current metadata and `applyTableUpdates`
succeeds on it.

* `applyTableUpdate` is one turn of the loop, with the ids added so far.
-/

namespace IcebergRust

inductive TableUpdate where
  | assignUuid (uuid : String)
  | upgradeFormatVersion (formatVersion : Int)
  | addSchema (schema : Schema) (lastColumnId : Option Int)
  | setCurrentSchema (schemaId : Int)
  | addSpec (spec : PartitionSpec)
  | setDefaultSpec (specId : Int)
  | addSortOrder (sortOrder : SortOrder)
  | setDefaultSortOrder (sortOrderId : Int)
  | addSnapshot (snapshot : Snapshot)
  | setSnapshotRef (refName : String) (snapshotReference : SnapshotReference)
  | removeSnapshots (snapshotIds : List Int)
  | removeSnapshotRef (refName : String)
  | setLocation (location : String)
  | setProperties (updates : HashMap String String)
  | removeProperties (removals : List String)

inductive TableRequirement where
  | assertCreate
  | assertTableUuid (uuid : Uuid)
  | assertRefSnapshotId (ref : String) (snapshotId : Option Int)
  | assertLastAssignedFieldId (lastAssignedFieldId : Int)
  | assertCurrentSchemaId (currentSchemaId : Int)
  | assertLastAssignedPartitionId (lastAssignedPartitionId : Int)
  | assertDefaultSpecId (defaultSpecId : Int)
  | assertDefaultSortOrderId (defaultSortOrderId : Int)
deriving DecidableEq, Repr

/-- The snapshot a reference points at. -/
def TableMetadata.refTarget (metadata : TableMetadata) (name : String) : Option Int :=
  (metadata.refs.lookup name).map (·.snapshotId)

/-- One requirement of `check_table_requirements`. -/
def checkTableRequirement (metadata : TableMetadata) : TableRequirement → Bool
  -- Whether the table exists is checked elsewhere.
  | .assertCreate => true
  | .assertTableUuid uuid => metadata.tableUuid = uuid
  | .assertRefSnapshotId ref snapshotId => metadata.refTarget ref = snapshotId
  | .assertLastAssignedFieldId id => metadata.lastColumnId = id
  | .assertCurrentSchemaId id => metadata.currentSchemaId = id
  | .assertLastAssignedPartitionId id => metadata.lastPartitionId = id
  | .assertDefaultSpecId id => metadata.defaultSpecId = id
  | .assertDefaultSortOrderId id => metadata.defaultSortOrderId = id

/-- `check_table_requirements`. -/
def checkTableRequirements (requirements : List TableRequirement) (metadata : TableMetadata) :
    Bool :=
  requirements.all (checkTableRequirement metadata)

/-! ### Applying updates -/

/-- The metadata being updated and the ids added so far, for updates that refer to the last one
with `-1`. -/
structure ApplyState where
  metadata : TableMetadata
  addedSchemaId : Option Int
  addedSpecId : Option Int
  addedSortOrderId : Option Int

/-- The row-lineage checks of a version 3 `AddSnapshot`: the next row id after the snapshot. -/
def snapshotNextRowId (metadata : TableMetadata) (snapshot : Snapshot) : Except Error Int :=
  if metadata.formatVersion ≠ .v3 then .ok metadata.nextRowId
  else match snapshot.firstRowId, snapshot.addedRows with
    | none, _ => .error (.invalidFormat "v3 snapshot first-row-id")
    | some _, none => .error (.invalidFormat "v3 snapshot added-rows")
    | some firstRowId, some addedRows =>
      if firstRowId < 0 ∨ addedRows < 0 then
        .error (.invalidFormat "v3 row lineage values must be non-negative")
      else if firstRowId < metadata.nextRowId then
        .error (.invalidFormat "v3 snapshot first-row-id is lower than next-row-id")
      else checkedAddI64 firstRowId addedRows (.invalidFormat "next row id overflow")

/-- `AddSnapshot`. -/
def addSnapshot (metadata : TableMetadata) (snapshot : Snapshot) : Except Error TableMetadata :=
  if metadata.formatVersion ≠ .v1 ∧ snapshot.sequenceNumber ≤ metadata.lastSequenceNumber then
    .error (.commitConflict metadata.tableUuid.display)
  else do
    let nextRowId ← snapshotNextRowId metadata snapshot
    .ok { metadata with
      nextRowId
      snapshotLog := metadata.snapshotLog ++ [⟨snapshot.snapshotId, snapshot.timestampMs⟩]
      lastSequenceNumber := snapshot.sequenceNumber
      snapshots := metadata.snapshots.insert snapshot.snapshotId snapshot }

/-- `SetSnapshotRef`: the reference `main` moves the current snapshot. -/
def setSnapshotRef (metadata : TableMetadata) (refName : String)
    (snapshotReference : SnapshotReference) : TableMetadata :=
  { metadata with
    currentSnapshotId :=
      if refName = "main" then some snapshotReference.snapshotId else metadata.currentSnapshotId
    refs := metadata.refs.insert refName snapshotReference }

/-- `RemoveSnapshots`: the log keeps the entries of the snapshots that are left. -/
def removeSnapshots (metadata : TableMetadata) (snapshotIds : List Int) : TableMetadata :=
  let snapshots := snapshotIds.foldl (fun snapshots id => snapshots.erase id) metadata.snapshots
  { metadata with
    snapshots
    snapshotLog := metadata.snapshotLog.filter fun entry => entry.snapshotId ∈ snapshots }

/-- The id an update names: `-1` stands for the one added last. -/
def lastAdded (id : Int) (added : Option Int) (missing : String) : Except Error Int :=
  if id = -1 then
    match added with
    | some addedId => .ok addedId
    | none => .error (.invalidFormat missing)
  else .ok id

/-- One update of `apply_table_updates`. -/
def applyTableUpdate (state : ApplyState) (update : TableUpdate) : Except Error ApplyState :=
  let metadata := state.metadata
  match update with
  | .upgradeFormatVersion formatVersion =>
    if metadata.formatVersion.toInt ≠ formatVersion then
      .error (.panicked "not implemented: Table format upgrade")
    else .ok state
  | .assignUuid uuid => do
    let tableUuid ← Uuid.parseStr uuid
    .ok { state with metadata := { metadata with tableUuid } }
  | .addSchema schema lastColumnId =>
    .ok { state with
      metadata := { metadata with
        schemas := metadata.schemas.insert schema.schemaId schema
        lastColumnId := lastColumnId.getD metadata.lastColumnId }
      addedSchemaId := some schema.schemaId }
  | .setCurrentSchema schemaId => do
    let currentSchemaId ← lastAdded schemaId state.addedSchemaId
      "Cannot set current schema to -1 without adding a schema first"
    .ok { state with metadata := { metadata with currentSchemaId } }
  | .addSpec spec =>
    .ok { state with
      metadata := { metadata with
        partitionSpecs := metadata.partitionSpecs.insert spec.specId spec }
      addedSpecId := some spec.specId }
  | .setDefaultSpec specId => do
    let defaultSpecId ← lastAdded specId state.addedSpecId
      "Cannot set default spec to -1 without adding a spec first"
    .ok { state with metadata := { metadata with defaultSpecId } }
  | .addSortOrder sortOrder =>
    .ok { state with
      metadata := { metadata with
        sortOrders := metadata.sortOrders.insert sortOrder.orderId sortOrder }
      addedSortOrderId := some sortOrder.orderId }
  | .setDefaultSortOrder sortOrderId => do
    let defaultSortOrderId ← lastAdded sortOrderId state.addedSortOrderId
      "Cannot set default sort order to -1 without adding a sort order first"
    .ok { state with metadata := { metadata with defaultSortOrderId } }
  | .addSnapshot snapshot => do
    let metadata ← addSnapshot metadata snapshot
    .ok { state with metadata }
  | .setSnapshotRef refName snapshotReference =>
    .ok { state with metadata := setSnapshotRef metadata refName snapshotReference }
  | .removeSnapshots snapshotIds =>
    .ok { state with metadata := removeSnapshots metadata snapshotIds }
  | .removeSnapshotRef refName =>
    .ok { state with metadata := { metadata with refs := metadata.refs.erase refName } }
  | .setLocation location => .ok { state with metadata := { metadata with location } }
  | .setProperties updates =>
    .ok { state with
      metadata := { metadata with properties := metadata.properties.extend updates.iter } }
  | .removeProperties removals =>
    .ok { state with
      metadata := { metadata with
        properties := removals.foldl (fun properties key => properties.erase key)
          metadata.properties } }

/-- `apply_table_updates` at wall-clock time `now`. -/
def applyTableUpdates (metadata : TableMetadata) (updates : List TableUpdate) (now : Int) :
    Except Error TableMetadata := do
  let state ← updates.foldlM applyTableUpdate ⟨metadata, none, none, none⟩
  .ok { state.metadata with lastUpdatedMs := now }

end IcebergRust

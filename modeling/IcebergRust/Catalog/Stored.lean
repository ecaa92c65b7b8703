import IcebergRust.Catalog.Effect
import IcebergRust.Spec.Decimal
import IcebergRust.Spec.RoundTrip

/-!
# Metadata files of a table's life

Whether the metadata a table goes through, from its creation on by any updates, can be
stored and loaded again.

* `CreateTable.tryInto` is what a table starts with: the schema and the spec are put under
  id 0 whatever their own ids are.
* `consistent_of_reached` is the invariant of `applyTableUpdates`, and `reached_survives_iff`
  says which reachable metadata is loaded as it was stored.
-/

namespace IcebergRust

open Fallible

/-! ### Creation -/

structure CreateTable where
  name : String
  location : Option String
  schema : Schema
  partitionSpec : Option PartitionSpec
  writeOrder : Option SortOrder
  properties : Option (HashMap String String)

/-- `FormatVersion::try_from`. -/
def FormatVersion.tryFrom : Nat → Except Error FormatVersion
  | 1 => .ok .v1
  | 2 => .ok .v2
  | 3 => .ok .v3
  | _ => .error (.conversion "u8" "format version")

namespace CreateTable

/-- The format version asked for in the properties, version 2 if there is none. -/
def formatVersion (create : CreateTable) : Except Error FormatVersion :=
  match create.properties.bind (·.lookup "format-version") with
  | none => .ok .v2
  | some text =>
    match parseU8 text with
    | none => .error (.parseInt text)
    | some version => FormatVersion.tryFrom version

/-- `TryInto<TableMetadata> for CreateTable`, with a new UUID at wall-clock time `now`. -/
def tryInto (create : CreateTable) (tableUuid : Uuid) (now : Int) : Except Error TableMetadata := do
  let formatVersion ← create.formatVersion
  let writeOrder := create.writeOrder.getD default
  match create.location with
  | none => .error (.notFound ("Location for table " ++ create.name))
  | some location => .ok {
      formatVersion
      tableUuid
      location
      lastSequenceNumber := 0
      lastUpdatedMs := now
      lastColumnId := create.schema.fields.maxFieldId.getD 0
      schemas := HashMap.fromIter [(0, create.schema)]
      currentSchemaId := 0
      partitionSpecs := HashMap.fromIter [(0, create.partitionSpec.getD default)]
      defaultSpecId := 0
      lastPartitionId :=
        (create.partitionSpec.bind fun spec => (spec.fields.map (·.fieldId)).max?).getD 0
      properties := create.properties.getD ∅
      currentSnapshotId := none
      snapshots := ∅
      snapshotLog := []
      metadataLog := []
      sortOrders := HashMap.fromIter [(writeOrder.orderId, writeOrder)]
      defaultSortOrderId := writeOrder.orderId
      refs := ∅
      nextRowId := 0 }

end CreateTable

/-- Metadata a table can have: as it is created, and after any updates. -/
inductive Reached : TableMetadata → Prop
  | created {create : CreateTable} {tableUuid : Uuid} {now : Int} {metadata : TableMetadata}
      (run : create.tryInto tableUuid now = .ok metadata) : Reached metadata
  | updated {metadata after : TableMetadata} {updates : List TableUpdate} {now : Int}
      (before : Reached metadata) (run : applyTableUpdates metadata updates now = .ok after) :
      Reached after

/-! ### The invariant -/

theorem keyed_empty {β : Type} (key : β → Int) : Keyed key (∅ : HashMap Int β) := by
  intro k value found
  cases found

variable {metadata : TableMetadata}

theorem consistent_created {create : CreateTable} {tableUuid : Uuid} {now : Int}
    (run : create.tryInto tableUuid now = .ok metadata) : Consistent metadata := by
  simp only [CreateTable.tryInto, bind_eq_ok] at run
  obtain ⟨formatVersion, -, run⟩ := run
  split at run
  · cases run
  · injection run with same
    subst same
    exact ⟨keyed_empty _, (keyed_empty SortOrder.orderId).insert _, fun _ => rfl⟩

theorem keyed_single {β : Type} {key : β → Int} {value : β} {k : Int} (own : key value = k) :
    Keyed key (HashMap.fromIter [(k, value)]) := by
  subst own
  exact (keyed_empty key).insert value

/-- A table created under its own ids can be stored, in every version. -/
theorem storable_created {create : CreateTable} {tableUuid : Uuid} {now : Int}
    (run : create.tryInto tableUuid now = .ok metadata) (schema : create.schema.schemaId = 0)
    (spec : (create.partitionSpec.getD default).specId = 0) : Storable metadata := by
  simp only [CreateTable.tryInto, bind_eq_ok] at run
  obtain ⟨formatVersion, -, run⟩ := run
  split at run
  · cases run
  · injection run with same
    subst same
    have unwritten : ∀ (id : Int) (snapshot : Snapshot), (∅ : HashMap Int Snapshot).lookup id =
        some snapshot → False := by
      intro id snapshot found
      cases found
    exact {
      schemas := keyed_single schema
      partitionSpecs := keyed_single spec
      currentSchema := AList.mem_insert _ |>.mpr (.inl rfl)
      currentSnapshot := by simp
      rowIds := fun _ id snapshot found => (unwritten id snapshot found).elim
      main := fun _ present => absurd present (by simp)
      only := fun _ _ => rfl
      sequenceNumbers := fun _ => ⟨rfl, fun id snapshot found => (unwritten id snapshot found).elim⟩ }

theorem keyed_eraseAll (keyed : Keyed Snapshot.snapshotId metadata.snapshots) (ids : List Int) :
    Keyed Snapshot.snapshotId (ids.foldl (fun left id => left.erase id) metadata.snapshots) := by
  generalize metadata.snapshots = snapshots at keyed
  induction ids generalizing snapshots with
  | nil => exact keyed
  | cons gone ids ih => exact ih _ (keyed.erase gone)

theorem consistent_update {state after : ApplyState} {update : TableUpdate}
    (consistent : Consistent state.metadata) (run : applyTableUpdate state update = .ok after) :
    Consistent after.metadata := by
  obtain ⟨snapshots, sortOrders, nextRowId⟩ := consistent
  cases applyTableUpdate_applied run with
  | sortOrder sortOrder => exact ⟨snapshots, sortOrders.insert sortOrder, nextRowId⟩
  | snapshot snapshot nextRowId' advances lineage =>
    refine ⟨snapshots.insert snapshot, sortOrders, ?_⟩
    intro before
    have before' : state.metadata.formatVersion ≠ .v3 := before
    rw [snapshotNextRowId, if_pos before'] at lineage
    injection lineage with same
    exact same.symm.trans (nextRowId before')
  | removed ids => exact ⟨keyed_eraseAll snapshots ids, sortOrders, nextRowId⟩
  | _ => exact ⟨snapshots, sortOrders, nextRowId⟩

theorem consistent_of_reached (reached : Reached metadata) : Consistent metadata := by
  induction reached with
  | created run => exact consistent_created run
  | @updated metadata after updates now before run ih =>
    obtain ⟨state, applied, run⟩ := bind_eq_ok.mp run
    injection run with same
    subst same
    have kept : Consistent state.metadata :=
      foldlM_invariant (fun state : ApplyState => Consistent state.metadata)
        (fun update _ a b here stepped => consistent_update here stepped) applied ih
    exact ⟨kept.snapshots, kept.sortOrders, kept.nextRowId⟩

/-- Reachable metadata is loaded as it was stored exactly if its version can express it. -/
theorem reached_survives_iff {metadata : TableMetadata} (reached : Reached metadata) :
    Survives metadata ↔ Storable metadata :=
  survives_iff (consistent_of_reached reached)

/-! ### Created tables -/

/-- The request to create an unpartitioned table of one `long` column in some format version. -/
def createTable (schemaId : Int) (version : String) : CreateTable where
  name := "table"
  location := some "s3://warehouse/table"
  schema := ⟨schemaId, none, ⟨[⟨1, "x", true, .primitive .long, none, none, none⟩]⟩⟩
  partitionSpec := none
  writeOrder := none
  properties := some (HashMap.fromIter [("format-version", version)])

/-- A table created from a schema with id 0 is loaded as it was stored. -/
theorem reached_survives_iff_created :
    ∃ metadata, (createTable 0 "2").tryInto ⟨1⟩ 0 = .ok metadata ∧ Survives metadata := by
  have run : (createTable 0 "2").tryInto ⟨1⟩ 0 = .ok _ := rfl
  exact ⟨_, run, (reached_survives_iff (.created run)).mpr (storable_created run rfl rfl)⟩

/-- The first snapshot of a version 1 table and a tag on it. -/
def taggedSnapshot : List TableUpdate :=
  [.addSnapshot ⟨1, none, 1, 0, "s3://warehouse/table/metadata/snap-1.avro", ⟨.append, ∅⟩, some 0,
      none, none⟩,
    .setSnapshotRef "main" ⟨1, default⟩, .setSnapshotRef "release" ⟨1, .tag 1000⟩]

/-- A version 2 table created from a schema with id 5 cannot be loaded, and a version 1 table
loses its tag. -/
theorem created_lost :
    (∃ metadata, Reached metadata ∧ metadata.formatVersion = .v2 ∧ ¬ Survives metadata) ∧
    ∃ metadata, Reached metadata ∧ metadata.formatVersion = .v1 ∧ ¬ Survives metadata := by
  constructor
  · have created : Reached _ := .created (rfl : (createTable 5 "2").tryInto ⟨1⟩ 0 = .ok _)
    refine ⟨_, created, rfl, ?_⟩
    rw [survives_iff (consistent_of_reached created)]
    intro storable
    exact absurd (storable.schemas 0 _ rfl) (by decide)
  · have created : Reached _ := .created (rfl : (createTable 0 "1").tryInto ⟨1⟩ 0 = .ok _)
    have tagged : Reached _ := created.updated (rfl : applyTableUpdates _ taggedSnapshot 1 = .ok _)
    refine ⟨_, tagged, rfl, ?_⟩
    rw [survives_iff (consistent_of_reached tagged)]
    intro storable
    exact absurd (storable.only rfl "release") (by decide +kernel)

end IcebergRust

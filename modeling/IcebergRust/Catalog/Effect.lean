import IcebergRust.Lib.Fallible
import IcebergRust.Catalog.Commit

/-!
# What an update changes

For each part of the metadata that concurrent commits compete for, the part after an
update as a function of the part before.  `applyTableUpdate_effect` is the frame lemma:
it says for every update what becomes of all these parts at once, and
`applyTableUpdates_effect` is its lift to a whole commit.
-/

namespace IcebergRust

open Fallible

namespace TableUpdate

/-- The schemas after an update. -/
def schemas (schemas : HashMap Int Schema) : TableUpdate → HashMap Int Schema
  | .addSchema schema _ => schemas.insert schema.schemaId schema
  | _ => schemas

/-- The partition specs after an update. -/
def partitionSpecs (specs : HashMap Int PartitionSpec) : TableUpdate → HashMap Int PartitionSpec
  | .addSpec spec => specs.insert spec.specId spec
  | _ => specs

/-- The snapshots after an update. -/
def snapshots (snapshots : HashMap Int Snapshot) : TableUpdate → HashMap Int Snapshot
  | .addSnapshot snapshot => snapshots.insert snapshot.snapshotId snapshot
  | .removeSnapshots ids => ids.foldl (fun left id => left.erase id) snapshots
  | _ => snapshots

/-- The references after an update. -/
def refs (refs : HashMap String SnapshotReference) :
    TableUpdate → HashMap String SnapshotReference
  | .setSnapshotRef name reference => refs.insert name reference
  | .removeSnapshotRef name => refs.erase name
  | _ => refs

/-- The current snapshot after an update. -/
def currentSnapshotId (current : Option Int) : TableUpdate → Option Int
  | .setSnapshotRef name reference => if name = "main" then some reference.snapshotId else current
  | _ => current

/-- The last sequence number after an update. -/
def lastSequenceNumber (last : Int) : TableUpdate → Int
  | .addSnapshot snapshot => snapshot.sequenceNumber
  | _ => last

end TableUpdate

/-- The parts of the metadata after updates, as functions of the parts before. -/
structure Effect (before after : TableMetadata) (updates : List TableUpdate) : Prop where
  formatVersion : after.formatVersion = before.formatVersion
  schemas : after.schemas = updates.foldl TableUpdate.schemas before.schemas
  partitionSpecs :
    after.partitionSpecs = updates.foldl TableUpdate.partitionSpecs before.partitionSpecs
  snapshots : after.snapshots = updates.foldl TableUpdate.snapshots before.snapshots
  refs : after.refs = updates.foldl TableUpdate.refs before.refs
  currentSnapshotId :
    after.currentSnapshotId = updates.foldl TableUpdate.currentSnapshotId before.currentSnapshotId
  lastSequenceNumber : after.lastSequenceNumber =
    updates.foldl TableUpdate.lastSequenceNumber before.lastSequenceNumber

theorem Effect.refl (metadata : TableMetadata) : Effect metadata metadata [] :=
  ⟨rfl, rfl, rfl, rfl, rfl, rfl, rfl⟩

theorem Effect.trans {a b c : TableMetadata} {first second : List TableUpdate}
    (one : Effect a b first) (two : Effect b c second) : Effect a c (first ++ second) where
  formatVersion := two.formatVersion.trans one.formatVersion
  schemas := by rw [two.schemas, one.schemas, List.foldl_append]
  partitionSpecs := by rw [two.partitionSpecs, one.partitionSpecs, List.foldl_append]
  snapshots := by rw [two.snapshots, one.snapshots, List.foldl_append]
  refs := by rw [two.refs, one.refs, List.foldl_append]
  currentSnapshotId := by rw [two.currentSnapshotId, one.currentSnapshotId, List.foldl_append]
  lastSequenceNumber := by rw [two.lastSequenceNumber, one.lastSequenceNumber, List.foldl_append]

/-- A snapshot is only added to version 2 and 3 metadata if it advances the sequence number. -/
def Advances (metadata : TableMetadata) (snapshot : Snapshot) : Prop :=
  metadata.formatVersion ≠ .v1 → metadata.lastSequenceNumber < snapshot.sequenceNumber

variable {metadata after : TableMetadata} {updates : List TableUpdate}

theorem addSnapshot_eq_ok {snapshot : Snapshot} (run : addSnapshot metadata snapshot = .ok after) :
    Advances metadata snapshot ∧ ∃ nextRowId, snapshotNextRowId metadata snapshot = .ok nextRowId ∧
      after = { metadata with
        nextRowId
        snapshotLog := metadata.snapshotLog ++ [⟨snapshot.snapshotId, snapshot.timestampMs⟩]
        lastSequenceNumber := snapshot.sequenceNumber
        snapshots := metadata.snapshots.insert snapshot.snapshotId snapshot } := by
  simp only [addSnapshot, guard_eq_ok, bind_eq_ok] at run
  obtain ⟨sequenced, nextRowId, lineage, run⟩ := run
  injection run with same
  refine ⟨fun versioned => ?_, nextRowId, lineage, same.symm⟩
  by_contra stale
  exact sequenced ⟨versioned, Int.not_lt.mp stale⟩

/-- What a successful update leaves, by its kind. -/
inductive Applied (state : ApplyState) : TableUpdate → ApplyState → Prop
  | kept (formatVersion : Int) : Applied state (.upgradeFormatVersion formatVersion) state
  | uuid (text : String) (tableUuid : Uuid) :
      Applied state (.assignUuid text) { state with metadata := { state.metadata with tableUuid } }
  | schema (schema : Schema) (lastColumnId : Option Int) :
      Applied state (.addSchema schema lastColumnId) { state with
        metadata := { state.metadata with
          schemas := state.metadata.schemas.insert schema.schemaId schema
          lastColumnId := lastColumnId.getD state.metadata.lastColumnId }
        addedSchemaId := some schema.schemaId }
  | currentSchema (schemaId currentSchemaId : Int) (missing : String)
      (named : lastAdded schemaId state.addedSchemaId missing = .ok currentSchemaId) :
      Applied state (.setCurrentSchema schemaId)
        { state with metadata := { state.metadata with currentSchemaId } }
  | spec (spec : PartitionSpec) :
      Applied state (.addSpec spec) { state with
        metadata := { state.metadata with
          partitionSpecs := state.metadata.partitionSpecs.insert spec.specId spec }
        addedSpecId := some spec.specId }
  | defaultSpec (specId defaultSpecId : Int) (missing : String)
      (named : lastAdded specId state.addedSpecId missing = .ok defaultSpecId) :
      Applied state (.setDefaultSpec specId)
        { state with metadata := { state.metadata with defaultSpecId } }
  | sortOrder (sortOrder : SortOrder) :
      Applied state (.addSortOrder sortOrder) { state with
        metadata := { state.metadata with
          sortOrders := state.metadata.sortOrders.insert sortOrder.orderId sortOrder }
        addedSortOrderId := some sortOrder.orderId }
  | defaultSortOrder (sortOrderId defaultSortOrderId : Int) (missing : String)
      (named : lastAdded sortOrderId state.addedSortOrderId missing = .ok defaultSortOrderId) :
      Applied state (.setDefaultSortOrder sortOrderId)
        { state with metadata := { state.metadata with defaultSortOrderId } }
  | snapshot (snapshot : Snapshot) (nextRowId : Int) (advances : Advances state.metadata snapshot)
      (lineage : snapshotNextRowId state.metadata snapshot = .ok nextRowId) :
      Applied state (.addSnapshot snapshot) { state with
        metadata := { state.metadata with
          nextRowId
          snapshotLog := state.metadata.snapshotLog ++ [⟨snapshot.snapshotId, snapshot.timestampMs⟩]
          lastSequenceNumber := snapshot.sequenceNumber
          snapshots := state.metadata.snapshots.insert snapshot.snapshotId snapshot } }
  | ref (name : String) (reference : SnapshotReference) :
      Applied state (.setSnapshotRef name reference)
        { state with metadata := setSnapshotRef state.metadata name reference }
  | removed (ids : List Int) :
      Applied state (.removeSnapshots ids)
        { state with metadata := removeSnapshots state.metadata ids }
  | unset (name : String) :
      Applied state (.removeSnapshotRef name)
        { state with metadata := { state.metadata with refs := state.metadata.refs.erase name } }
  | location (location : String) :
      Applied state (.setLocation location)
        { state with metadata := { state.metadata with location } }
  | properties (updates : HashMap String String) :
      Applied state (.setProperties updates) { state with
        metadata := { state.metadata with
          properties := state.metadata.properties.extend updates.iter } }
  | removals (removals : List String) :
      Applied state (.removeProperties removals) { state with
        metadata := { state.metadata with
          properties := removals.foldl (fun properties key => properties.erase key)
            state.metadata.properties } }

theorem applyTableUpdate_applied {state after : ApplyState} {update : TableUpdate}
    (run : applyTableUpdate state update = .ok after) : Applied state update after := by
  cases update with
  | upgradeFormatVersion version =>
    obtain ⟨-, run⟩ := guard_eq_ok.mp run
    cases run
    exact .kept version
  | assignUuid uuid =>
    obtain ⟨parsed, -, run⟩ := bind_eq_ok.mp run
    cases run
    exact .uuid uuid parsed
  | setCurrentSchema schemaId =>
    obtain ⟨id, named, run⟩ := bind_eq_ok.mp run
    cases run
    exact .currentSchema schemaId id _ named
  | setDefaultSpec specId =>
    obtain ⟨id, named, run⟩ := bind_eq_ok.mp run
    cases run
    exact .defaultSpec specId id _ named
  | setDefaultSortOrder sortOrderId =>
    obtain ⟨id, named, run⟩ := bind_eq_ok.mp run
    cases run
    exact .defaultSortOrder sortOrderId id _ named
  | addSnapshot snapshot =>
    obtain ⟨added, adds, run⟩ := bind_eq_ok.mp run
    cases run
    obtain ⟨advances, nextRowId, lineage, rfl⟩ := addSnapshot_eq_ok adds
    exact .snapshot snapshot nextRowId advances lineage
  | addSchema schema lastColumnId => cases run; exact .schema schema lastColumnId
  | addSpec spec => cases run; exact .spec spec
  | addSortOrder sortOrder => cases run; exact .sortOrder sortOrder
  | setSnapshotRef name reference => cases run; exact .ref name reference
  | removeSnapshots ids => cases run; exact .removed ids
  | removeSnapshotRef name => cases run; exact .unset name
  | setLocation location => cases run; exact .location location
  | setProperties updates => cases run; exact .properties updates
  | removeProperties removals => cases run; exact .removals removals

theorem applyTableUpdate_effect {state after : ApplyState} {update : TableUpdate}
    (run : applyTableUpdate state update = .ok after) :
    Effect state.metadata after.metadata [update] := by
  cases applyTableUpdate_applied run <;> exact ⟨rfl, rfl, rfl, rfl, rfl, rfl, rfl⟩

/-- A property of what has been applied and the state, step by step. -/
theorem applyTableUpdates_prefix {now : Int} (I : List TableUpdate → ApplyState → Prop)
    (keeps : ∀ done update state next, I done state → Applied state update next →
      I (done ++ [update]) next) (run : applyTableUpdates metadata updates now = .ok after)
    (start : I [] ⟨metadata, none, none, none⟩) :
    ∃ state, I updates state ∧ after = { state.metadata with lastUpdatedMs := now } := by
  obtain ⟨state, folded, same⟩ := bind_eq_ok.mp run
  injection same with same
  refine ⟨state, ?_, same.symm⟩
  exact foldlM_prefix_invariant I (fun done update a b _ here stepped =>
    keeps done update a b here (applyTableUpdate_applied stepped)) folded start

theorem foldlM_effect {state after : ApplyState}
    (run : updates.foldlM applyTableUpdate state = .ok after) :
    Effect state.metadata after.metadata updates := by
  refine foldlM_prefix_invariant (fun done s => Effect state.metadata s.metadata done)
    ?_ run (.refl _)
  intro done update a b _ here stepped
  exact here.trans (applyTableUpdate_effect stepped)

/-- What a whole commit changes. -/
theorem applyTableUpdates_effect {now : Int}
    (run : applyTableUpdates metadata updates now = .ok after) : Effect metadata after updates := by
  obtain ⟨state, folded, same⟩ := bind_eq_ok.mp run
  cases same
  obtain ⟨h1, h2, h3, h4, h5, h6, h7⟩ := foldlM_effect folded
  exact ⟨h1, h2, h3, h4, h5, h6, h7⟩

end IcebergRust

import IcebergRust.Lib.Fallible
import IcebergRust.Spec.MetadataJson

/-!
# Storing and loading table metadata

What survives `serialize` and `deserialize`.

* `toEnum_ofEnum`: the JSON form of a mirror is read back as that mirror, whichever of the
  three it is.  What is lost is lost between the metadata and its mirror.
* Maps are written as lists of their values, so an entry comes back under its own id
  (`lookup_byKey`).
* `survives_iff`: the metadata that is loaded is the same exactly if `Storable` holds of what
  was stored.
-/

namespace IcebergRust

open Fallible

/-! ### Maps written as lists -/

section Maps

variable {κ β γ : Type} [DecidableEq κ]

/-- Every value is stored under its own key. -/
def Keyed (key : β → κ) (map : HashMap κ β) : Prop :=
  ∀ k value, map.lookup k = some value → key value = k

variable {key : β → κ} {map : HashMap κ β}

theorem Keyed.insert (keyed : Keyed key map) (value : β) :
    Keyed key (map.insert (key value) value) := by
  intro k bound found
  by_cases here : k = key value
  · rw [here, AList.lookup_insert] at found
    injection found with same
    rw [← same, here]
  · rw [AList.lookup_insert_ne here] at found
    exact keyed k bound found

theorem Keyed.erase (keyed : Keyed key map) (gone : κ) : Keyed key (map.erase gone) := by
  intro k bound found
  by_cases here : k = gone
  · rw [here, AList.lookup_erase] at found
    cases found
  · rw [AList.lookup_erase_ne here] at found
    exact keyed k bound found

/-- The map that is read from the values of another one. -/
def byKey (key : β → κ) (f : β → γ) (values : List β) : HashMap κ γ :=
  HashMap.fromIter (values.map fun value => (key value, f value))

theorem lookup_byKey_eq_some {f : β → γ} {values : List β} {k : κ} {loaded : γ}
    (found : (byKey key f values).lookup k = some loaded) :
    ∃ value ∈ values, key value = k ∧ f value = loaded := by
  have search := (HashMap.lookup_extend ∅ (values.map fun value => (key value, f value)) k).symm.trans
    found
  have nowhere : (∅ : HashMap κ γ).lookup k = none := rfl
  rw [nowhere, Option.or_none, Option.map_eq_some_iff] at search
  obtain ⟨pair, hit, same⟩ := search
  have member := List.mem_reverse.mp (List.mem_of_find?_eq_some hit)
  obtain ⟨value, within, rfl⟩ := List.mem_map.mp member
  exact ⟨value, within, by simpa using List.find?_some hit, same⟩

theorem lookup_byKey_isSome {f : β → γ} {values : List β} {value : β} (member : value ∈ values) :
    ((byKey key f values).lookup (key value)).isSome := by
  have search := HashMap.lookup_extend (∅ : HashMap κ γ)
    (values.map fun value => (key value, f value)) (key value)
  have hit : ((values.map fun value => (key value, f value)).reverse.find?
      fun pair => decide (pair.1 = key value)).isSome := by
    rw [List.find?_isSome]
    exact ⟨(key value, f value), List.mem_reverse.mpr (List.mem_map_of_mem member), by simp⟩
  obtain ⟨pair, found⟩ := Option.isSome_iff_exists.mp hit
  rw [found] at search
  exact Option.isSome_iff_exists.mpr ⟨_, search⟩

/-- Values stored under their own keys come back where they were. -/
theorem lookup_byKey (keyed : Keyed key map) (f : β → γ) (k : κ) :
    (byKey key f map.values).lookup k = (map.lookup k).map f := by
  cases loaded : (byKey key f map.values).lookup k with
  | some value =>
    obtain ⟨stored, member, here, rfl⟩ := lookup_byKey_eq_some loaded
    obtain ⟨k', found⟩ := HashMap.mem_values_iff.mp member
    rw [← here, keyed k' stored found, found]
    rfl
  | none =>
    cases found : map.lookup k with
    | none => rfl
    | some stored =>
      have present : ((byKey key f map.values).lookup (key stored)).isSome :=
        lookup_byKey_isSome (HashMap.mem_values_iff.mpr ⟨k, found⟩)
      rw [keyed k stored found, loaded] at present
      cases present

/-- The map that comes back is the one stored exactly if that had each value under its own key. -/
theorem byKey_same_iff :
    (∀ k, (byKey key id map.values).lookup k = map.lookup k) ↔ Keyed key map := by
  constructor
  · intro same k value found
    rw [← same k] at found
    obtain ⟨stored, -, here, rfl⟩ := lookup_byKey_eq_some found
    exact here
  · intro keyed k
    rw [lookup_byKey keyed, Option.map_id_fun, id]

end Maps

/-! ### The JSON form of a mirror -/

theorem mapM_map_eq_some {α β : Type} {f : α → β} {g : β → Option α} (back : ∀ x, g (f x) = some x)
    (xs : List α) : (xs.map f).mapM g = some xs := by
  induction xs with
  | nil => rfl
  | cons x xs ih => simp [back, ih]

theorem skipEmpty_getD {α : Type} (list : List α) : (skipEmpty list).getD [] = list := by
  cases list <;> rfl

theorem skipEmptyMap_getD {κ β : Type} (map : HashMap κ β) : (skipEmptyMap map).getD ∅ = map := by
  unfold skipEmptyMap
  split
  · rename_i empty
    exact (AList.ext (List.isEmpty_iff.mp empty)).symm
  · rfl

namespace MetadataObject

theorem toVersioned_ofVersioned {S : Type} {write : S → SnapshotObject}
    {read : SnapshotObject → Option S} (back : ∀ s, read (write s) = some s)
    (metadata : VersionedMetadata S) (formatVersion : Nat) (nextRowId : Option Int) :
    (ofVersioned metadata formatVersion nextRowId write).toVersioned read = some metadata := by
  have schemas : (metadata.schemas.map SchemaV2.object).mapM SchemaV1.withId =
      some metadata.schemas :=
    mapM_map_eq_some (f := SchemaV2.object) (g := SchemaV1.withId) (fun _ => rfl) _
  have snapshots : readList read (metadata.snapshots.map (·.map write)) =
      some metadata.snapshots := by
    cases metadata.snapshots with
    | none => rfl
    | some snapshots => simp [readList, mapM_map_eq_some back]
  simp only [toVersioned, ofVersioned, schemas, snapshots, Option.bind_eq_bind, Option.bind_some,
    skipEmpty_getD, skipEmptyMap_getD]

/-- Reading what was written takes the mirror that wrote it. -/
theorem toEnum_ofEnum (metadata : TableMetadataEnum) : (ofEnum metadata).toEnum = some metadata := by
  cases metadata with
  | v3 metadata =>
    have read : (ofEnum (.v3 metadata)).toV3 = some metadata := by
      show (do
        let nextRowId ← some metadata.nextRowId
        let versioned ← (ofVersioned metadata.toVersionedMetadata 3 (some metadata.nextRowId)
          SnapshotObject.ofV3).toVersioned SnapshotObject.toV3
        some (TableMetadataV3.mk versioned nextRowId)) = _
      rw [@toVersioned_ofVersioned _ _ SnapshotObject.toV3 (fun _ => rfl)]
      rfl
    rw [toEnum, read]
    rfl
  | v2 metadata =>
    have read : (ofEnum (.v2 metadata)).toV2 = some metadata :=
      @toVersioned_ofVersioned _ _ SnapshotObject.toV2 (fun _ => rfl) _ _ _
    rw [toEnum, read]
    rfl
  | v1 metadata =>
    have read : (ofEnum (.v1 metadata)).toV1 = some metadata := by
      have snapshots : (metadata.snapshots.map (·.map SnapshotObject.ofV1)).map
          (·.map SnapshotObject.toV1) = metadata.snapshots := by
        cases metadata.snapshots with
        | none => rfl
        | some snapshots =>
          rw [Option.map_some, Option.map_some, List.map_map]
          exact congrArg some (List.map_id _)
      simp only [toV1, ofEnum, ofV1, if_true, Option.bind_eq_bind, Option.bind_some,
        skipEmpty_getD, skipEmptyMap_getD, snapshots]
    rw [toEnum, read]
    rfl

end MetadataObject

/-- Storing and loading. -/
def roundTrip (metadata : TableMetadata) : Except Error TableMetadata := do
  let object ← serialize metadata
  deserialize object

theorem roundTrip_eq (metadata : TableMetadata) :
    roundTrip metadata = (metadata.toEnum >>= TableMetadataEnum.tryInto) := by
  unfold roundTrip serialize
  cases metadata.toEnum with
  | error e => rfl
  | ok mirror =>
    show deserialize (.ofEnum mirror) = mirror.tryInto
    rw [deserialize, MetadataObject.toEnum_ofEnum]

/-! ### What comes back -/

/-- The metadata that is loaded, where loading succeeds, as versions 2 and 3 have it: `convert` is
what becomes of a snapshot. -/
def reloaded (metadata : TableMetadata) (formatVersion : FormatVersion) (nextRowId : Int)
    (convert : Snapshot → Snapshot) : TableMetadata :=
  { metadata with
    formatVersion
    schemas := byKey Schema.schemaId id metadata.schemas.values
    partitionSpecs := byKey PartitionSpec.specId id metadata.partitionSpecs.values
    currentSnapshotId := fileSnapshotId metadata.currentSnapshotId
    snapshots := byKey Snapshot.snapshotId convert metadata.snapshots.values
    sortOrders := byKey SortOrder.orderId id metadata.sortOrders.values
    refs := withMain metadata.refs (fileSnapshotId metadata.currentSnapshotId)
    nextRowId }

/-- As version 1 has it. -/
def reloadedV1 (metadata : TableMetadata) : TableMetadata :=
  { reloaded metadata .v1 0 (fun snapshot => snapshot.toV1.toSnapshot) with
    lastSequenceNumber := 0
    refs := mainOnly (fileSnapshotId metadata.currentSnapshotId) }

theorem fileSnapshotId_or (id : Option Int) :
    fileSnapshotId (id.or (some (-1))) = fileSnapshotId id := by
  cases id <;> rfl

theorem versioned_tryInto {S : Type} (metadata : TableMetadata) (formatVersion : FormatVersion)
    (nextRowId : Int) {write : Snapshot → S} {read : S → Snapshot} {snapshotId : S → Int}
    (same : ∀ snapshot, snapshotId (write snapshot) = snapshot.snapshotId) :
    (metadata.versioned write).tryInto formatVersion nextRowId snapshotId read =
      if metadata.currentSchemaId ∈ byKey Schema.schemaId id metadata.schemas.values then
        .ok (reloaded metadata formatVersion nextRowId fun snapshot => read (write snapshot))
      else .error (.invalidFormat "schema") := by
  have snapshots : (metadata.snapshots.values.map write).map (fun s => (snapshotId s, read s)) =
      metadata.snapshots.values.map fun s => (s.snapshotId, read (write s)) := by
    rw [List.map_map]
    exact List.map_congr_left fun s _ => by simp [same]
  have schemas : (metadata.schemas.values.map Schema.toV2).map (fun s => (s.schemaId, s.toSchema)) =
      metadata.schemas.values.map fun s => (s.schemaId, id s) := List.map_map
  simp only [VersionedMetadata.tryInto, TableMetadata.versioned, fileSnapshotId_or,
    Option.map_some, Option.getD_some, snapshots, schemas]
  rfl

theorem map_zipIdx_fst {α β : Type} (f : α → β) (xs : List α) (n : Nat) :
    (xs.zipIdx n).map (fun p => f p.1) = xs.map f := by
  induction xs generalizing n with
  | nil => rfl
  | cons x xs ih => simp [List.zipIdx_cons, ih]

theorem toV1_tryInto {metadata : TableMetadata} {mirror : TableMetadataV1}
    (written : metadata.toV1 = .ok mirror) : mirror.tryInto = reloadedV1 metadata := by
  unfold TableMetadata.toV1 at written
  split at written
  · cases written
  · injection written with same
    subst same
    have schemas : (metadata.schemas.values.map Schema.toV1).zipIdx.map
        (fun pair => (pair.1.schemaId.getD (wrapI32 pair.2), pair.1.toSchema)) =
        metadata.schemas.values.map fun s => (s.schemaId, id s) := by
      rw [List.zipIdx_map, List.map_map]
      exact map_zipIdx_fst (fun s : Schema => (s.schemaId, id s)) _ 0
    have snapshots : (metadata.snapshots.values.map Snapshot.toV1).map
        (fun s => (s.snapshotId, s.toSnapshot)) =
        metadata.snapshots.values.map fun s => (s.snapshotId, s.toV1.toSnapshot) := List.map_map
    simp only [TableMetadataV1.tryInto, Option.getD_some, Option.map_some, fileSnapshotId_or,
      schemas, snapshots]
    rfl

/-! ### The same metadata -/

/-- Equality of metadata: maps are equal if they have the same entries. -/
structure TableMetadata.Same (a b : TableMetadata) : Prop where
  formatVersion : a.formatVersion = b.formatVersion
  tableUuid : a.tableUuid = b.tableUuid
  location : a.location = b.location
  lastSequenceNumber : a.lastSequenceNumber = b.lastSequenceNumber
  lastUpdatedMs : a.lastUpdatedMs = b.lastUpdatedMs
  lastColumnId : a.lastColumnId = b.lastColumnId
  schemas : ∀ id, a.schemas.lookup id = b.schemas.lookup id
  currentSchemaId : a.currentSchemaId = b.currentSchemaId
  partitionSpecs : ∀ id, a.partitionSpecs.lookup id = b.partitionSpecs.lookup id
  defaultSpecId : a.defaultSpecId = b.defaultSpecId
  lastPartitionId : a.lastPartitionId = b.lastPartitionId
  properties : ∀ key, a.properties.lookup key = b.properties.lookup key
  currentSnapshotId : a.currentSnapshotId = b.currentSnapshotId
  snapshots : ∀ id, a.snapshots.lookup id = b.snapshots.lookup id
  snapshotLog : a.snapshotLog = b.snapshotLog
  metadataLog : a.metadataLog = b.metadataLog
  sortOrders : ∀ id, a.sortOrders.lookup id = b.sortOrders.lookup id
  defaultSortOrderId : a.defaultSortOrderId = b.defaultSortOrderId
  refs : ∀ name, a.refs.lookup name = b.refs.lookup name
  nextRowId : a.nextRowId = b.nextRowId

/-- Loading succeeds and yields the metadata that was stored. -/
def Survives (metadata : TableMetadata) : Prop :=
  ∃ loaded, roundTrip metadata = .ok loaded ∧ loaded.Same metadata

/-- What a file of this version can express. -/
structure Storable (metadata : TableMetadata) : Prop where
  schemas : Keyed Schema.schemaId metadata.schemas
  partitionSpecs : Keyed PartitionSpec.specId metadata.partitionSpecs
  currentSchema : metadata.currentSchemaId ∈ metadata.schemas
  currentSnapshot : metadata.currentSnapshotId ≠ some (-1)
  /-- Before version 3 a snapshot has no row ids. -/
  rowIds : metadata.formatVersion ≠ .v3 → ∀ id snapshot,
    metadata.snapshots.lookup id = some snapshot →
      snapshot.firstRowId = none ∧ snapshot.addedRows = none
  /-- From version 2 on a file has references, `main` among them if there is a snapshot. -/
  main : metadata.formatVersion ≠ .v1 → metadata.currentSnapshotId.isSome → "main" ∈ metadata.refs
  /-- In version 1 `main` is the only one, with the default retention. -/
  only : metadata.formatVersion = .v1 → ∀ name,
    metadata.refs.lookup name = (mainOnly metadata.currentSnapshotId).lookup name
  /-- Nor has version 1 sequence numbers. -/
  sequenceNumbers : metadata.formatVersion = .v1 → metadata.lastSequenceNumber = 0 ∧
    ∀ id snapshot, metadata.snapshots.lookup id = some snapshot → snapshot.sequenceNumber = 0

/-- What holds of all metadata a catalog keeps. -/
structure Consistent (metadata : TableMetadata) : Prop where
  snapshots : Keyed Snapshot.snapshotId metadata.snapshots
  sortOrders : Keyed SortOrder.orderId metadata.sortOrders
  nextRowId : metadata.formatVersion ≠ .v3 → metadata.nextRowId = 0

/-! ### Field by field -/

section Fields

variable {metadata : TableMetadata}

theorem fileSnapshotId_eq_iff {id : Option Int} : fileSnapshotId id = id ↔ id ≠ some (-1) := by
  unfold fileSnapshotId
  split
  · rename_i reserved
    simp [reserved]
  · rename_i ordinary
    simp [ordinary]

theorem withMain_same_iff {refs : HashMap String SnapshotReference} {current : Option Int} :
    (∀ name, (withMain refs current).lookup name = refs.lookup name) ↔
      (current.isSome → "main" ∈ refs) := by
  cases current with
  | none => simp [withMain]
  | some id =>
    by_cases there : "main" ∈ refs
    · simp [withMain, there]
    · have absent : refs.lookup "main" = none := AList.lookup_eq_none.mpr there
      simp only [withMain, if_false, Option.isSome_some, there, imp_false, not_true, iff_false]
      intro same
      have here := same "main"
      rw [AList.lookup_insert, absent] at here
      cases here

/-- Converting snapshots keeps the map exactly if it keeps each of them. -/
theorem snapshots_same_iff (keyed : Keyed Snapshot.snapshotId metadata.snapshots)
    (convert : Snapshot → Snapshot) :
    (∀ id, (byKey Snapshot.snapshotId convert metadata.snapshots.values).lookup id =
      metadata.snapshots.lookup id) ↔
      ∀ id snapshot, metadata.snapshots.lookup id = some snapshot → convert snapshot = snapshot := by
  simp only [lookup_byKey keyed]
  constructor
  · intro same id snapshot found
    have here := same id
    rw [found, Option.map_some] at here
    injection here
  · intro kept id
    cases found : metadata.snapshots.lookup id with
    | none => rfl
    | some snapshot => rw [Option.map_some, kept id snapshot found]

theorem toV2_toSnapshot_eq_iff {snapshot : Snapshot} :
    snapshot.toV2.toSnapshot = snapshot ↔ snapshot.firstRowId = none ∧ snapshot.addedRows = none := by
  cases snapshot
  simp [Snapshot.toV2, SnapshotV2.toSnapshot, eq_comm]

theorem toV1_toSnapshot_eq_iff {snapshot : Snapshot} :
    snapshot.toV1.toSnapshot = snapshot ↔
      snapshot.sequenceNumber = 0 ∧ snapshot.firstRowId = none ∧ snapshot.addedRows = none := by
  cases snapshot
  simp [Snapshot.toV1, SnapshotV1.toSnapshot, eq_comm]

theorem mem_byKey (keyed : Keyed Schema.schemaId metadata.schemas) (id' : Int) :
    id' ∈ byKey Schema.schemaId id metadata.schemas.values ↔ id' ∈ metadata.schemas := by
  rw [← AList.lookup_isSome, ← AList.lookup_isSome, byKey_same_iff.mpr keyed]

end Fields

/-! ### Version by version -/

section Versions

variable {metadata : TableMetadata}

/-- What versions 2 and 3 need, up to the snapshots. -/
theorem reloaded_same_iff {nextRowId : Int} {convert : Snapshot → Snapshot}
    (consistent : Consistent metadata) (rows : nextRowId = metadata.nextRowId) :
    (metadata.currentSchemaId ∈ byKey Schema.schemaId id metadata.schemas.values ∧
      (reloaded metadata metadata.formatVersion nextRowId convert).Same metadata) ↔
      Keyed Schema.schemaId metadata.schemas ∧
      Keyed PartitionSpec.specId metadata.partitionSpecs ∧
      metadata.currentSchemaId ∈ metadata.schemas ∧
      metadata.currentSnapshotId ≠ some (-1) ∧
      (metadata.currentSnapshotId.isSome → "main" ∈ metadata.refs) ∧
      (∀ id snapshot, metadata.snapshots.lookup id = some snapshot → convert snapshot = snapshot) := by
  constructor
  · rintro ⟨current, same⟩
    have keyed := byKey_same_iff.mp same.schemas
    have here := same.currentSnapshotId
    have refs := same.refs
    refine ⟨keyed, byKey_same_iff.mp same.partitionSpecs, (mem_byKey keyed _).mp current,
      fileSnapshotId_eq_iff.mp here, ?_, (snapshots_same_iff consistent.snapshots convert).mp
        same.snapshots⟩
    simp only [reloaded, fileSnapshotId_eq_iff.mpr (fileSnapshotId_eq_iff.mp here)] at refs
    exact withMain_same_iff.mp refs
  · rintro ⟨keyed, specs, current, ordinary, main, snapshots⟩
    refine ⟨(mem_byKey keyed _).mpr current, ?_⟩
    have here := fileSnapshotId_eq_iff.mpr ordinary
    exact {
      formatVersion := rfl
      tableUuid := rfl
      location := rfl
      lastSequenceNumber := rfl
      lastUpdatedMs := rfl
      lastColumnId := rfl
      schemas := byKey_same_iff.mpr keyed
      currentSchemaId := rfl
      partitionSpecs := byKey_same_iff.mpr specs
      defaultSpecId := rfl
      lastPartitionId := rfl
      properties := fun _ => rfl
      currentSnapshotId := here
      snapshots := (snapshots_same_iff consistent.snapshots convert).mpr snapshots
      snapshotLog := rfl
      metadataLog := rfl
      sortOrders := byKey_same_iff.mpr consistent.sortOrders
      defaultSortOrderId := rfl
      refs := by
        simp only [reloaded, here]
        exact withMain_same_iff.mpr main
      nextRowId := rows }

/-- Versions 2 and 3 differ in what becomes of the snapshots only. -/
theorem survives_later {nextRowId : Int} {convert : Snapshot → Snapshot}
    (consistent : Consistent metadata) (later : metadata.formatVersion ≠ .v1)
    (rows : nextRowId = metadata.nextRowId)
    (run : roundTrip metadata =
      if metadata.currentSchemaId ∈ byKey Schema.schemaId id metadata.schemas.values then
        .ok (reloaded metadata metadata.formatVersion nextRowId convert)
      else .error (.invalidFormat "schema"))
    (kept : (∀ id snapshot, metadata.snapshots.lookup id = some snapshot →
        convert snapshot = snapshot) ↔
      (metadata.formatVersion ≠ .v3 → ∀ id snapshot,
        metadata.snapshots.lookup id = some snapshot →
          snapshot.firstRowId = none ∧ snapshot.addedRows = none)) :
    Survives metadata ↔ Storable metadata := by
  have survives : Survives metadata ↔
      metadata.currentSchemaId ∈ byKey Schema.schemaId id metadata.schemas.values ∧
        (reloaded metadata metadata.formatVersion nextRowId convert).Same metadata := by
    unfold Survives
    rw [run]
    split
    · rename_i present
      simp [present]
    · rename_i missing
      simp [missing]
  rw [survives, reloaded_same_iff consistent rows, kept]
  constructor
  · rintro ⟨schemas, specs, current, ordinary, main, rowIds⟩
    exact {
      schemas := schemas
      partitionSpecs := specs
      currentSchema := current
      currentSnapshot := ordinary
      rowIds := rowIds
      main := fun _ => main
      only := fun first => absurd first later
      sequenceNumbers := fun first => absurd first later }
  · intro storable
    exact ⟨storable.schemas, storable.partitionSpecs, storable.currentSchema,
      storable.currentSnapshot, storable.main later, storable.rowIds⟩

theorem survives_v3 (consistent : Consistent metadata) (version : metadata.formatVersion = .v3) :
    Survives metadata ↔ Storable metadata := by
  refine @survives_later _ _ (fun s => s.toV3.toSnapshot) consistent ?_ rfl ?_ ?_
  · rw [version]
    decide
  · rw [roundTrip_eq, TableMetadata.toEnum, version]
    exact versioned_tryInto metadata .v3 metadata.nextRowId (fun _ => rfl)
  · exact iff_of_true (fun _ _ _ => rfl) fun before => absurd version before

theorem survives_v2 (consistent : Consistent metadata) (version : metadata.formatVersion = .v2) :
    Survives metadata ↔ Storable metadata := by
  have before : metadata.formatVersion ≠ .v3 := by
    rw [version]
    decide
  refine @survives_later _ _ (fun s => s.toV2.toSnapshot) consistent ?_
    (consistent.nextRowId before).symm ?_ ?_
  · rw [version]
    decide
  · rw [roundTrip_eq, TableMetadata.toEnum, version]
    exact versioned_tryInto metadata .v2 0 (fun _ => rfl)
  · simp only [toV2_toSnapshot_eq_iff, before, ne_eq, not_false_eq_true, true_implies]

theorem survives_v1 (consistent : Consistent metadata) (version : metadata.formatVersion = .v1) :
    Survives metadata ↔ Storable metadata := by
  have before : metadata.formatVersion ≠ .v3 := by
    rw [version]
    decide
  have survives : Survives metadata ↔
      metadata.currentSchemaId ∈ metadata.schemas ∧ (reloadedV1 metadata).Same metadata := by
    unfold Survives
    rw [roundTrip_eq, TableMetadata.toEnum, version]
    cases written : metadata.toV1 with
    | error e =>
      have missing : metadata.currentSchemaId ∉ metadata.schemas := by
        unfold TableMetadata.toV1 at written
        split at written
        · rename_i absent
          exact AList.lookup_eq_none.mp absent
        · cases written
      simp [missing, Except.map, bind, Except.bind]
    | ok mirror =>
      have present : metadata.currentSchemaId ∈ metadata.schemas := by
        unfold TableMetadata.toV1 at written
        split at written
        · cases written
        · rename_i schema found
          exact AList.lookup_isSome.mp (by rw [found]; rfl)
      have loads : ((Except.ok mirror).map TableMetadataEnum.v1 >>= TableMetadataEnum.tryInto :
          Except Error TableMetadata) = .ok (reloadedV1 metadata) := by
        show Except.ok mirror.tryInto = _
        rw [toV1_tryInto written]
      rw [loads]
      simp [present]
  rw [survives]
  constructor
  · rintro ⟨current, same⟩
    have ordinary := fileSnapshotId_eq_iff.mp same.currentSnapshotId
    have here := fileSnapshotId_eq_iff.mpr ordinary
    have refs := same.refs
    have snapshots := (snapshots_same_iff consistent.snapshots _).mp same.snapshots
    simp only [reloadedV1, here] at refs
    exact {
      schemas := byKey_same_iff.mp same.schemas
      partitionSpecs := byKey_same_iff.mp same.partitionSpecs
      currentSchema := current
      currentSnapshot := ordinary
      rowIds := fun _ id snapshot found =>
        (toV1_toSnapshot_eq_iff.mp (snapshots id snapshot found)).2
      main := fun later => absurd version later
      only := fun _ name => (refs name).symm
      sequenceNumbers := fun _ => ⟨same.lastSequenceNumber.symm, fun id snapshot found =>
        (toV1_toSnapshot_eq_iff.mp (snapshots id snapshot found)).1⟩ }
  · intro storable
    have here := fileSnapshotId_eq_iff.mpr storable.currentSnapshot
    obtain ⟨last, numbers⟩ := storable.sequenceNumbers version
    refine ⟨storable.currentSchema, ?_⟩
    exact {
      formatVersion := version.symm
      tableUuid := rfl
      location := rfl
      lastSequenceNumber := last.symm
      lastUpdatedMs := rfl
      lastColumnId := rfl
      schemas := byKey_same_iff.mpr storable.schemas
      currentSchemaId := rfl
      partitionSpecs := byKey_same_iff.mpr storable.partitionSpecs
      defaultSpecId := rfl
      lastPartitionId := rfl
      properties := fun _ => rfl
      currentSnapshotId := here
      snapshots := (snapshots_same_iff consistent.snapshots _).mpr fun id snapshot found =>
        toV1_toSnapshot_eq_iff.mpr ⟨numbers id snapshot found,
          storable.rowIds before id snapshot found⟩
      snapshotLog := rfl
      metadataLog := rfl
      sortOrders := byKey_same_iff.mpr consistent.sortOrders
      defaultSortOrderId := rfl
      refs := by
        intro name
        simp only [reloadedV1, here]
        exact (storable.only version name).symm
      nextRowId := (consistent.nextRowId before).symm }

end Versions

/-- Storing and loading keeps consistent metadata exactly if its version can express it. -/
theorem survives_iff {metadata : TableMetadata} (consistent : Consistent metadata) :
    Survives metadata ↔ Storable metadata := by
  cases version : metadata.formatVersion with
  | v3 => exact survives_v3 consistent version
  | v2 => exact survives_v2 consistent version
  | v1 => exact survives_v1 consistent version

end IcebergRust

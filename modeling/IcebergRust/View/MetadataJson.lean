import IcebergRust.Spec.Identifier
import IcebergRust.Spec.RoundTrip
import IcebergRust.View.Metadata

/-!
# The JSON form of view metadata

The `_serde` module of `view_metadata.rs`: a file holds the versions and the schemas of a view as
lists, and a version without its storage table where `Materialization::is_none` says so.

* `roundTrip_eq_ok` takes loading apart.
* `GeneralViewMetadata.survives_iff`: the view that is loaded is the one that was stored exactly if
  every version and every schema is stored under its own id and every storage table comes back.
-/

namespace IcebergRust.View

open Fallible

/-- `Materialization`. -/
class Materialization (T : Type) where
  /-- `Materialization::is_none`: the storage table is skipped. -/
  isNone : T → Bool
  /-- What is read where the field is missing. -/
  missing : Except Error T

/-- Of a plain view the storage table is never written. -/
instance : Materialization (Option Unit) where
  isNone _ := true
  missing := .ok none

instance : Materialization Identifier where
  isNone _ := false
  missing := .error (.json "missing field `storage-table`")

variable {T : Type}

/-- `ViewMetadataV1`; a version of it has a storage table or skips it. -/
structure ViewMetadataV1 (T : Type) where
  viewUuid : Uuid
  location : String
  currentVersionId : Int
  versions : List (Version (Option T))
  versionLog : List VersionLogStruct
  schemas : List SchemaV2
  properties : Option (HashMap String String)

variable [Materialization T]

/-- `Serialize for Version`. -/
def Version.toObject (version : Version T) : Version (Option T) :=
  { version with
    storageTable := if Materialization.isNone version.storageTable then none
      else some version.storageTable }

/-- The storage table of a version, where it may have been skipped. -/
def orMissing : Option T → Except Error T
  | some storageTable => .ok storageTable
  | none => Materialization.missing

/-- `Deserialize for Version`. -/
def Version.ofObject (version : Version (Option T)) : Except Error (Version T) :=
  (orMissing version.storageTable).map fun storageTable => { version with storageTable }

/-- `From<GeneralViewMetadata<T>> for ViewMetadataV1<T>`. -/
def GeneralViewMetadata.toV1 (metadata : GeneralViewMetadata T) : ViewMetadataV1 T where
  viewUuid := metadata.viewUuid
  location := metadata.location
  currentVersionId := metadata.currentVersionId
  versions := metadata.versions.values.map Version.toObject
  versionLog := metadata.versionLog
  schemas := metadata.schemas.values.map Schema.toV2
  properties := skipEmptyMap metadata.properties

/-- `TryFrom<ViewMetadataV1<T>> for GeneralViewMetadata<T>`, after the versions are read. -/
def ViewMetadataV1.tryInto (metadata : ViewMetadataV1 T) :
    Except Error (GeneralViewMetadata T) := do
  let versions ← metadata.versions.mapM Version.ofObject
  .ok {
    viewUuid := metadata.viewUuid
    formatVersion := .v1
    location := metadata.location
    currentVersionId := metadata.currentVersionId
    versions := HashMap.fromIter (versions.map fun version => (version.versionId, version))
    versionLog := metadata.versionLog
    properties := metadata.properties.getD ∅
    schemas := HashMap.fromIter
      (metadata.schemas.map fun schema => (schema.schemaId, schema.toSchema)) }

/-- Storing and loading view metadata. -/
def GeneralViewMetadata.roundTrip (metadata : GeneralViewMetadata T) :
    Except Error (GeneralViewMetadata T) := metadata.toV1.tryInto

/-- Equality of view metadata: maps are equal if they have the same entries. -/
structure GeneralViewMetadata.Same (a b : GeneralViewMetadata T) : Prop where
  viewUuid : a.viewUuid = b.viewUuid
  formatVersion : a.formatVersion = b.formatVersion
  location : a.location = b.location
  currentVersionId : a.currentVersionId = b.currentVersionId
  versions : ∀ id, a.versions.lookup id = b.versions.lookup id
  versionLog : a.versionLog = b.versionLog
  schemas : ∀ id, a.schemas.lookup id = b.schemas.lookup id
  properties : ∀ key, a.properties.lookup key = b.properties.lookup key

/-- Loading succeeds and yields the view metadata that was stored. -/
def GeneralViewMetadata.Survives (metadata : GeneralViewMetadata T) : Prop :=
  ∃ loaded, metadata.roundTrip = .ok loaded ∧ loaded.Same metadata

/-- A storage table that comes back: it is written, or it is what is read where it is missing. -/
def Kept (storageTable : T) : Prop :=
  Materialization.isNone storageTable = true → Materialization.missing = .ok storageTable

/-- A version after it was stored and loaded. -/
def Version.reread (version : Version T) : Except Error (Version T) :=
  Version.ofObject version.toObject

variable {version reread : Version T}

theorem reread_eq_self : version.reread = .ok version ↔ Kept version.storageTable := by
  unfold Version.reread Version.ofObject Version.toObject Kept
  by_cases skipped : Materialization.isNone version.storageTable = true
  · rw [if_pos skipped, map_eq_ok]
    constructor
    · rintro ⟨storageTable, missing, same⟩ _
      rw [← same]
      exact missing
    · intro missing
      exact ⟨version.storageTable, missing skipped, rfl⟩
  · rw [if_neg skipped]
    exact iff_of_true rfl fun here => absurd here skipped

/-- What was loaded once comes back, under the id it was stored with. -/
theorem reread_spec (run : version.reread = .ok reread) :
    reread.versionId = version.versionId ∧ Kept reread.storageTable := by
  obtain ⟨storageTable, read, rfl⟩ := map_eq_ok.mp run
  refine ⟨rfl, fun skipped => ?_⟩
  unfold Version.toObject at read
  by_cases here : Materialization.isNone version.storageTable = true
  · rw [if_pos here] at read
    exact read
  · rw [if_neg here] at read
    cases read
    exact absurd skipped here

variable {metadata loaded : GeneralViewMetadata T}

/-- What is loaded: the versions one by one, and the maps under the ids of their values. -/
theorem roundTrip_eq_ok : metadata.roundTrip = .ok loaded ↔
    ∃ versions, metadata.versions.values.mapM Version.reread = .ok versions ∧
      loaded = { metadata with
        versions := byKey Version.versionId id versions
        schemas := byKey Schema.schemaId id metadata.schemas.values } := by
  have objects : (metadata.versions.values.map Version.toObject).mapM
      (Version.ofObject : Version (Option T) → Except Error (Version T)) =
        metadata.versions.values.mapM Version.reread := List.mapM_map
  have schemas : (metadata.schemas.values.map Schema.toV2).map
      (fun schema => (schema.schemaId, schema.toSchema)) =
        metadata.schemas.values.map fun schema => (schema.schemaId, schema) := List.map_map
  unfold GeneralViewMetadata.roundTrip ViewMetadataV1.tryInto GeneralViewMetadata.toV1
  simp only [objects, schemas, skipEmptyMap_getD, bind_eq_ok, Except.ok.injEq]
  refine exists_congr fun versions => and_congr_right fun _ => ?_
  have v1 : metadata.formatVersion = .v1 := by
    cases metadata.formatVersion
    rfl
  rw [← v1, eq_comm]
  exact Iff.rfl

/-- The view metadata that is loaded is the same exactly if everything is stored under its own id
and every storage table comes back. -/
theorem GeneralViewMetadata.survives_iff : metadata.Survives ↔
    Keyed Version.versionId metadata.versions ∧ Keyed Schema.schemaId metadata.schemas ∧
      ∀ id version, metadata.versions.lookup id = some version → Kept version.storageTable := by
  constructor
  · rintro ⟨loaded, run, same⟩
    obtain ⟨versions, read, rfl⟩ := roundTrip_eq_ok.mp run
    have own : ∀ id version, metadata.versions.lookup id = some version →
        version ∈ versions ∧ version.versionId = id := by
      intro id version found
      have stored := (same.versions id).trans found
      obtain ⟨value, member, here, rfl⟩ := lookup_byKey_eq_some stored
      exact ⟨member, here⟩
    refine ⟨fun id version found => (own id version found).2, byKey_same_iff.mp same.schemas, ?_⟩
    intro id version found
    obtain ⟨stored, -, run⟩ := exists_of_mem_mapM read (own id version found).1
    exact (reread_spec run).2
  · rintro ⟨versions, schemas, kept⟩
    have read : metadata.versions.values.mapM Version.reread = .ok metadata.versions.values := by
      refine mapM_eq_ok.mpr (List.forall₂_same.mpr ?_)
      intro version member
      obtain ⟨id, found⟩ := HashMap.mem_values_iff.mp member
      exact reread_eq_self.mpr (kept id version found)
    refine ⟨_, roundTrip_eq_ok.mpr ⟨_, read, rfl⟩, ?_⟩
    exact {
      viewUuid := rfl
      formatVersion := rfl
      location := rfl
      currentVersionId := rfl
      versions := byKey_same_iff.mpr versions
      versionLog := rfl
      schemas := byKey_same_iff.mpr schemas
      properties := fun _ => rfl }

end IcebergRust.View

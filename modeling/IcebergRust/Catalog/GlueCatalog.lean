import IcebergRust.Catalog.VersionTokens

/-!
# The Glue catalog

`iceberg-glue-catalog/src/lib.rs`, one request to the service or the object store at a time.

* A creation asks for the token with a request of its own, and caches it with its own metadata
  whatever location comes with it.
* An update asks for the token as well, but keeps its own metadata only if it finds its own
  location.
-/

namespace IcebergRust.GlueCatalog

open VersionTokens

/-- What an update reads where it does not find its own location: `update_table` parses the bytes
as JSON, the other two go through `get_metadata`. -/
def reread (commit : TabularCommit) (location : String) (file : TabularFile) :
    Except Error TabularMetadata :=
  match commit with
  | .table _ _ =>
    match file.fromSlice with
    | .ok (.table metadata) => .ok (.table metadata)
    | .ok _ => .error (.invalidFormat "JSON")
    | .error error => .error error
  | _ => file.parse location

/-- The next step of a call. -/
def advance (token : Nat) (call : Call) (shared : Shared) : Shared × Option Call :=
  match call with
  | .located catalog identifier token location =>
    (shared, fetch catalog identifier token location shared)
  | .fetched catalog identifier token metadata =>
    (shared.cache catalog identifier token metadata, none)
  | .creating catalog identifier version _ =>
    (shared.putMetadata version, some (.written catalog identifier version))
  | .written catalog identifier version =>
    createEntity identifier.key token (some version) (.created catalog identifier version) shared
  | .created catalog identifier version =>
    match shared.entities identifier.key with
    | none => (shared, none)
    | some entity =>
      (shared.reread (some version.location) entity.current,
        some (.fetched catalog identifier entity.token version.metadata))
  | .computed catalog update =>
    (shared.putMetadata update.version, some (.staged catalog update))
  | .staged catalog update =>
    applyUpdate update.identifier.key update.token token update.version (some update) call
      (.committed catalog update) shared
  | .committed catalog update =>
    match shared.entities update.identifier.key with
    | none => (shared, none)
    | some entity =>
      match entity.current with
      | none => (shared, none)
      | some version =>
        if version.location = update.version.location then
          (shared, some (.fetched catalog update.identifier entity.token update.version.metadata))
        else (shared, some (.refetching catalog update entity.token version.location))
  | .refetching catalog update token location =>
    match (shared.files location).map (reread update.commit location) with
    | some (.ok metadata) =>
      (shared, some (.fetched catalog update.identifier token metadata))
    | _ => (shared, none)
  | .registered _ _ _ _ | .granted _ _ _ _ _ | .binding _ _ _ _ => (shared, none)

def system : Interleaving.System Shared Call Request Nat :=
  ⟨begin TabularMetadata.newMetadataLocation, advance⟩

/-- A run of any number of instances. -/
def runGlue (events : List Event) : Interleaving.State Shared Call :=
  Interleaving.run system ⟨.empty, []⟩ events

end IcebergRust.GlueCatalog

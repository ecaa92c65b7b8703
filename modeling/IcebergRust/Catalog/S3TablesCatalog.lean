import IcebergRust.Catalog.VersionTokens

/-!
# The S3 Tables catalog

`iceberg-s3tables-catalog/src/lib.rs`, one request to the service or the object store at a time.

* The service creates an entity without a location; a creation asks for its token and its
  warehouse location, writes the first metadata there, and updates the entity.
* The answer to an update holds the new token and the location that was passed.
-/

namespace IcebergRust.S3TablesCatalog

open VersionTokens

/-- Where an update writes: the name of the file of a view is not that of `new_metadata_location`. -/
def metadataLocation (metadata : TabularMetadata) (transactionUuid : Uuid) : String :=
  match metadata with
  | .table _ => metadata.newMetadataLocation transactionUuid
  | _ => metadata.location ++ "/metadata/" ++ toString metadata.sequenceNumber ++ "-" ++
      transactionUuid.display ++ ".metadata.json"

/-- The next step of a call. The metadata of a creation has the warehouse location that the service
answers with. -/
def advance (token : Nat) (call : Call) (shared : Shared) : Shared × Option Call :=
  match call with
  | .located catalog identifier token location =>
    (shared, fetch catalog identifier token location shared)
  | .fetched catalog identifier token metadata =>
    (shared.cache catalog identifier token metadata, none)
  | .creating catalog identifier version transactionUuid =>
    createEntity identifier.key token none
      (.registered catalog identifier version transactionUuid) shared
  | .registered catalog identifier version transactionUuid =>
    match shared.entities identifier.key with
    | none => (shared, none)
    | some entity =>
      (shared.reread none entity.current,
        some (.granted catalog identifier version transactionUuid entity.token))
  | .granted catalog identifier version _ token =>
    (shared.putMetadata version, some (.binding catalog identifier version token))
  | .binding catalog identifier version old =>
    applyUpdate identifier.key old token version none call
      (.fetched catalog identifier token version.metadata) shared
  | .computed catalog update =>
    (shared.putMetadata update.version, some (.staged catalog update))
  | .staged catalog update =>
    applyUpdate update.identifier.key update.token token update.version (some update) call
      (.fetched catalog update.identifier token update.version.metadata) shared
  | .written _ _ _ | .created _ _ _ | .committed _ _ | .refetching _ _ _ _ => (shared, none)

def system : Interleaving.System Shared Call Request Nat := ⟨begin metadataLocation, advance⟩

/-- A run of any number of instances. -/
def runS3Tables (events : List Event) : Interleaving.State Shared Call :=
  Interleaving.run system ⟨.empty, []⟩ events

end IcebergRust.S3TablesCatalog

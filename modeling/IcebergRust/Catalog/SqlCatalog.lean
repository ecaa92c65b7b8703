import IcebergRust.Catalog.MetadataFile
import IcebergRust.Lib.Interleaving
import IcebergRust.Transaction.Transaction
import Mathlib.Logic.Function.Basic

/-!
# The SQL catalog

`iceberg-sql-catalog/src/lib.rs`: the row of one table in the database, the metadata files
in the object store, and any number of catalog instances with a cache each.

* `commitMetadata` is what `update_table` computes from a cache entry: the updates applied,
  and the metadata log with the superseded location, cut to the configured length.
* `begin` and `advance` are `load_tabular` and `update_table`, one SQL statement, object
  store request or cache access at a time.
-/

namespace IcebergRust.SqlCatalog

open TableTransaction

/-- Metadata and the location it is stored at. -/
structure Version where
  location : String
  metadata : TableMetadata

/-! ### The metadata log -/

/-- `str::parse::<usize>`. -/
def parseUsize (text : String) : Option Nat :=
  let value := match text.toList with
    | '+' :: digits => parseDigits digits
    | digits => parseDigits digits
  value.filter fun n => decide (n < 18446744073709551616)

/-- `write.metadata.previous-versions-max`. -/
def previousVersionsMax (metadata : TableMetadata) : Nat :=
  ((metadata.properties.lookup "write.metadata.previous-versions-max").bind parseUsize).getD 100

/-- `write.metadata.delete-after-commit.enabled`. -/
def deleteAfterCommit (metadata : TableMetadata) : Bool :=
  ((metadata.properties.lookup "write.metadata.delete-after-commit.enabled").map
    fun v => decide (v = "true")).getD false

/-- The metadata log with the superseded location, and the files cut off it. -/
def supersede (previous : Version) (metadata : TableMetadata) : TableMetadata × List String :=
  let metadataLog := metadata.metadataLog ++ [⟨previous.location, previous.metadata.lastUpdatedMs⟩]
  let max := previousVersionsMax metadata
  if max < metadataLog.length then
    let remove := metadataLog.length - max
    ({ metadata with metadataLog := metadataLog.drop remove },
      (metadataLog.take remove).map (·.metadataFile))
  else ({ metadata with metadataLog }, [])

/-- The metadata of a commit, and the metadata files that expire with it. -/
def commitMetadata (previous : Version) (commit : CommitTable) (now : Int) :
    Except Error (TableMetadata × List String) :=
  if checkTableRequirements commit.requirements previous.metadata then do
    let metadata ← applyTableUpdates previous.metadata commit.updates now
    .ok (supersede previous metadata)
  else .error (.invalidFormat "Table requirements not valid")

/-! ### State -/

/-- The row of the table in `iceberg_tables`. -/
structure TableRow where
  metadataLocation : String
  previousMetadataLocation : Option String
deriving DecidableEq

/-- An update on its way, with the cache entry it was computed from. -/
structure Update where
  previous : Version
  commit : CommitTable
  now : Int
  transactionUuid : Uuid
  metadata : TableMetadata
  expiredMetadataFiles : List String

namespace Update

variable (update : Update)

def version : Version :=
  ⟨newMetadataLocation update.metadata update.transactionUuid, update.metadata⟩

/-- The files deleted once the commit has landed. -/
def deletes : List String :=
  if deleteAfterCommit update.metadata then update.expiredMetadataFiles else []

end Update

/-- What the instances share, and the cache of each. The accepted updates are listed newest
first, and `uuids` are those drawn so far. -/
structure Shared where
  row : TableRow
  files : String → Option MetadataFile
  caches : Nat → Option Version
  uuids : List Uuid
  accepted : List Update

namespace Shared

variable (shared : Shared)

def putMetadata (version : Version) : Shared :=
  { shared with
    files := Function.update shared.files version.location
      (some (serializeMetadata version.location version.metadata)) }

def delete (location : String) : Shared :=
  { shared with files := Function.update shared.files location none }

def cache (catalog : Nat) (entry : Option Version) : Shared :=
  { shared with caches := Function.update shared.caches catalog entry }

/-- `swap_metadata_location`, where it matches the row. -/
def swapMetadataLocation (update : Update) : Shared :=
  { shared with
    row := ⟨update.version.location, some update.previous.location⟩
    accepted := update :: shared.accepted }

end Shared

/-! ### Calls -/

inductive Request where
  | loadTabular (catalog : Nat)
  | updateTable (catalog : Nat) (commit : CommitTable) (now : Int) (transactionUuid : Uuid)

/-- A call between two steps. -/
inductive Call where
  /-- `load_tabular` has read the row. -/
  | selected (catalog : Nat) (location : String)
  /-- `load_tabular` has read the file. -/
  | fetched (catalog : Nat) (version : Version)
  /-- `update_table` has computed the new metadata. -/
  | prepared (catalog : Nat) (update : Update)
  /-- `update_table` has written the new metadata. -/
  | written (catalog : Nat) (update : Update)
  /-- The conditional update has matched no row. -/
  | lost (catalog : Nat)
  /-- The conditional update has matched, and these files are still to be deleted. -/
  | swapped (catalog : Nat) (update : Update) (expired : List String)

/-- A call up to its first pause. A UUID is never drawn again. -/
def begin (request : Request) (shared : Shared) : Shared × Option Call :=
  match request with
  | .loadTabular catalog => (shared, some (.selected catalog shared.row.metadataLocation))
  | .updateTable catalog commit now transactionUuid =>
    if transactionUuid ∈ shared.uuids then (shared, none)
    else match shared.caches catalog with
      | none => (shared, none)
      | some previous =>
        match commitMetadata previous commit now with
        | .error _ => (shared, none)
        | .ok (metadata, expiredMetadataFiles) =>
          ({ shared with uuids := transactionUuid :: shared.uuids },
            some (.prepared catalog
              ⟨previous, commit, now, transactionUuid, metadata, expiredMetadataFiles⟩))

/-- The next step of a call. A deletion may fail, which the code ignores. -/
def advance (deleted : Bool) (call : Call) (shared : Shared) : Shared × Option Call :=
  match call with
  | .selected catalog location =>
    match (shared.files location).map MetadataFile.fromSlice with
    | some (.ok metadata) => (shared, some (.fetched catalog ⟨location, metadata⟩))
    | _ => (shared, none)
  | .fetched catalog version => (shared.cache catalog (some version), none)
  | .prepared catalog update =>
    (shared.putMetadata update.version, some (.written catalog update))
  | .written catalog update =>
    if shared.row.metadataLocation = update.previous.location then
      (shared.swapMetadataLocation update, some (.swapped catalog update update.deletes))
    else (shared, some (.lost catalog))
  | .lost catalog => (shared.cache catalog none, none)
  | .swapped catalog update (location :: expired) =>
    (if deleted then shared.delete location else shared, some (.swapped catalog update expired))
  | .swapped catalog update [] => (shared.cache catalog (some update.version), none)

def system : Interleaving.System Shared Call Request Bool := ⟨begin, advance⟩

abbrev Event := Interleaving.Event Request Bool

/-- The first version of a table. -/
def createdVersion (metadata : TableMetadata) (transactionUuid : Uuid) : Version :=
  ⟨newMetadataLocation metadata transactionUuid, metadata⟩

/-- The state `create_table` of an instance leaves. -/
def created (catalog : Nat) (metadata : TableMetadata) (transactionUuid : Uuid) :
    Interleaving.State Shared Call :=
  let version := createdVersion metadata transactionUuid
  { shared :=
      { row := ⟨version.location, none⟩
        files := fun location =>
          if location = version.location then
            some (serializeMetadata version.location version.metadata)
          else none
        caches := fun other => if other = catalog then some version else none
        uuids := [transactionUuid]
        accepted := [] }
    calls := [] }

/-- A run of any number of instances. -/
def runSql (catalog : Nat) (metadata : TableMetadata) (transactionUuid : Uuid)
    (events : List Event) : Interleaving.State Shared Call :=
  Interleaving.run system (created catalog metadata transactionUuid) events

end IcebergRust.SqlCatalog

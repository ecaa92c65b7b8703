import IcebergRust.Catalog.MetadataFile
import IcebergRust.Lib.Interleaving
import IcebergRust.Transaction.Transaction
import Mathlib.Data.List.Sort
import Mathlib.Logic.Function.Basic

/-!
# The file catalog

`iceberg-file-catalog/src/lib.rs`: the metadata files of one table in an object store whose
`copy_if_not_exists` is atomic, and any number of catalog instances with a cache each.

* The versions of a table are numbered files; `metadataLocation` finds the one with the
  highest number in a listing.
* `update_table` computes from its cache entry, writes a file of its own, and copies it to
  the next number, under the name that fits its encoding.
* `begin` and `advance` are `load_tabular`, `update_table`, `create_table` and `drop_table`,
  one object store request or cache access at a time.
-/

namespace IcebergRust.FileCatalog

open TableTransaction

/-! ### Names -/

/-- The name of a file in a metadata directory: `v{version}.metadata.json` or
`v{version}.gz.metadata.json`, and what `new_metadata_location` draws. -/
inductive MetadataName where
  | versioned (version : Nat) (gzipped : Bool)
  | unique (sequenceNumber : Int) (transactionUuid : Uuid) (gzipped : Bool)
deriving DecidableEq

/-- A file in the metadata directory of a table location. -/
structure MetadataPath where
  location : String
  name : MetadataName
deriving DecidableEq

namespace MetadataPath

variable (path : MetadataPath)

/-- Whether the path is one that `metadata_location` looks at. -/
def isVersioned : Bool :=
  match path.name with
  | .versioned _ _ => true
  | .unique _ _ _ => false

/-- The number `metadata_location` sorts by. -/
def version : Nat :=
  match path.name with
  | .versioned version _ => version
  | .unique _ _ _ => 0

end MetadataPath

/-- `parse_version`: the name of a file that is not numbered has a hyphen in it. -/
def parseVersion (path : MetadataPath) : Except Error Nat :=
  match path.name with
  | .versioned version _ => .ok version
  | .unique _ _ _ => .error (.invalidFormat "Metadata location")

/-- `new_filesystem_metadata_location`: the addition wraps around. -/
def newFilesystemMetadataLocation (location : String) (previous : MetadataPath) (gzipped : Bool) :
    Except Error MetadataPath := do
  let version ← parseVersion previous
  .ok ⟨location, .versioned ((version + 1) % 18446744073709551616) gzipped⟩

/-- `metadata_location`: of the numbered files the last one in a stable sort by number. -/
def metadataLocation (listing : List MetadataPath) : Option MetadataPath :=
  ((listing.filter MetadataPath.isVersioned).insertionSort
    fun x y => x.version ≤ y.version).getLast?

/-! ### State -/

/-- Metadata and the file it is in. -/
structure Version where
  path : MetadataPath
  metadata : TableMetadata

abbrev Files := HashMap MetadataPath MetadataFile

/-- The files below a table location. -/
def filesBelow (table : String) (files : Files) : List MetadataPath :=
  files.keys.filter fun path => path.location = table

/-- A listing in some order the object store may choose. -/
def arrange (order paths : List MetadataPath) : List MetadataPath :=
  if order.Perm paths then order else paths

/-- An update on its way, with the cache entry it was computed from. -/
structure Update where
  previous : Version
  commit : CommitTable
  now : Int
  transactionUuid : Uuid
  metadata : TableMetadata

namespace Update

variable (update : Update)

def gzipped : Bool := metadataIsGzipped update.metadata.properties

/-- `new_metadata_location`. -/
def tempMetadataLocation : MetadataPath :=
  ⟨update.metadata.location,
    .unique update.metadata.lastSequenceNumber update.transactionUuid update.gzipped⟩

end Update

/-- An update when its new version becomes visible: what is in the object store just before, and
which drops have begun and not completed. -/
structure Accepted where
  update : Update
  target : MetadataPath
  found : Files
  content : MetadataFile
  dropping : List Nat

/-- What the instances share, and the cache of each. The accepted updates are listed newest first,
`created` are the files that were there whenever a first version was written, and `uuids` and
`drops` what has been drawn so far. -/
structure Shared where
  files : Files
  caches : Nat → Option Version
  uuids : List Uuid
  drops : Nat
  dropping : List Nat
  accepted : List Accepted
  created : List Files

namespace Shared

variable (shared : Shared)

def cache (catalog : Nat) (entry : Option Version) : Shared :=
  { shared with caches := Function.update shared.caches catalog entry }

def put (path : MetadataPath) (content : MetadataFile) : Shared :=
  { shared with files := shared.files.insert path content }

def delete (path : MetadataPath) : Shared := { shared with files := shared.files.erase path }

/-- `copy_if_not_exists`, where it succeeds. -/
def copy (update : Update) (target : MetadataPath) (content : MetadataFile) : Shared :=
  { shared with
    files := shared.files.insert target content
    accepted := ⟨update, target, shared.files, content, shared.dropping⟩ :: shared.accepted }

/-- The first version is written, whatever is there. -/
def create (version : Version) : Shared :=
  { shared with
    files := shared.files.insert version.path ⟨false, version.metadata⟩
    created := shared.files :: shared.created }

end Shared

/-! ### Calls -/

/-- `order` is the order of a listing the call begins with. -/
inductive Request where
  | loadTabular (catalog : Nat) (order : List MetadataPath)
  | updateTable (catalog : Nat) (commit : CommitTable) (now : Int) (transactionUuid : Uuid)
  | createTable (catalog : Nat) (metadata : TableMetadata) (order : List MetadataPath)
  | dropTable (catalog : Nat) (order : List MetadataPath)

/-- A call between two steps. -/
inductive Call where
  /-- `load_tabular` has found the current version. -/
  | located (catalog : Nat) (path : MetadataPath)
  /-- `load_tabular` has read the file. -/
  | fetched (catalog : Nat) (version : Version)
  /-- `update_table` has computed the new metadata. -/
  | computed (catalog : Nat) (update : Update)
  /-- `update_table` has written it to a file of its own. -/
  | staged (catalog : Nat) (update : Update)
  /-- `update_table` has copied it to the next number, or `create_table` has written it. -/
  | committed (catalog : Nat) (version : Version)
  /-- `create_table` has found no version. -/
  | absent (catalog : Nat) (version : Version)
  /-- `drop_table` has these files left to delete. -/
  | deleting (catalog : Nat) (drop : Nat) (paths : List MetadataPath)

/-- The first version of a table. -/
def firstPath (table : String) : MetadataPath := ⟨table, .versioned 0 false⟩

/-- A call up to its first pause. A UUID is never drawn again. -/
def begin (table : String) (request : Request) (shared : Shared) : Shared × Option Call :=
  match request with
  | .loadTabular catalog order =>
    (shared, (metadataLocation (arrange order (filesBelow table shared.files))).map (.located catalog))
  | .updateTable catalog commit now transactionUuid =>
    if transactionUuid ∈ shared.uuids then (shared, none)
    else match shared.caches catalog with
      | none => (shared, none)
      | some previous =>
        if checkTableRequirements commit.requirements previous.metadata then
          match applyTableUpdates previous.metadata commit.updates now with
          | .error _ => (shared, none)
          | .ok metadata =>
            ({ shared with uuids := transactionUuid :: shared.uuids },
              some (.computed catalog ⟨previous, commit, now, transactionUuid, metadata⟩))
        else (shared, none)
  | .createTable catalog metadata order =>
    match metadataLocation (arrange order (filesBelow table shared.files)) with
    | some _ => (shared, none)
    | none => (shared, some (.absent catalog ⟨firstPath table, { metadata with location := table }⟩))
  | .dropTable catalog order =>
    ({ shared with drops := shared.drops + 1, dropping := shared.drops :: shared.dropping },
      some (.deleting catalog shared.drops (arrange order (filesBelow table shared.files))))

/-- The next step of a call. -/
def advance (call : Call) (shared : Shared) : Shared × Option Call :=
  match call with
  | .located catalog path =>
    match (shared.files.lookup path).map MetadataFile.fromSlice with
    | some (.ok metadata) => (shared, some (.fetched catalog ⟨path, metadata⟩))
    | _ => (shared, none)
  | .fetched catalog version => (shared.cache catalog (some version), none)
  | .computed catalog update =>
    (shared.put update.tempMetadataLocation ⟨update.gzipped, update.metadata⟩,
      some (.staged catalog update))
  | .staged catalog update =>
    match newFilesystemMetadataLocation update.metadata.location update.previous.path update.gzipped,
        shared.files.lookup update.tempMetadataLocation with
    | .ok target, some content =>
      if target ∈ shared.files then (shared, none)
      else (shared.copy update target content, some (.committed catalog ⟨target, update.metadata⟩))
    | _, _ => (shared, none)
  | .committed catalog version => (shared.cache catalog (some version), none)
  | .absent catalog version => (shared.create version, some (.committed catalog version))
  | .deleting catalog drop (path :: paths) =>
    (shared.delete path, some (.deleting catalog drop paths))
  | .deleting catalog drop [] =>
    ({ shared.cache catalog none with dropping := shared.dropping.erase drop }, none)

def system (table : String) : Interleaving.System Shared Call Request Unit :=
  ⟨begin table, fun _ => advance⟩

abbrev Event := Interleaving.Event Request Unit

/-- Nothing has been written yet. -/
def Shared.empty : Shared := ⟨∅, fun _ => none, [], 0, [], [], []⟩

/-- A run of any number of instances, from before the table is first created. -/
def runFile (table : String) (events : List Event) : Interleaving.State Shared Call :=
  Interleaving.run (system table) ⟨.empty, []⟩ events

end IcebergRust.FileCatalog

import IcebergRust.Catalog.FileCatalog
import IcebergRust.Spec.Identifier

/-!
# Names in the file catalog

`iceberg-file-catalog/src/lib.rs` with all its tables: one catalog over an in-memory store, which
performs one call after the other.

* A table is found by listing the numbered files below the path that its name has, or, after a
  rename, below the path of the name it was created under.
* `rename_table` leaves the files where they are and records that older name.
* What is dropped is everything that a listing of the path returns.
-/

namespace IcebergRust.FileNames

open FileCatalog (MetadataName MetadataPath Version Update firstPath newFilesystemMetadataLocation)
open TableTransaction (CommitTable)

/-- The path of a catalog, and how the URL parser and the object store read locations. -/
structure Warehouse where
  path : String
  /-- The segments of `Path::from(strip_prefix(location))`. -/
  segments : String → List String
  /-- Whether listings return a location as its text is. What is put below one that is encoded or
  cut on its way to the object store is not found again. -/
  plain : String → Bool

/-- A file in the directory `metadata` of a table. -/
structure FilePath where
  directory : List String
  name : MetadataName
deriving DecidableEq

abbrev Files := HashMap FilePath MetadataFile

/-! ### Listings -/

/-- Whether a listing of a prefix returns the files of a table. -/
def inside (listed directory : List String) : Bool := listed.isPrefixOf (directory ++ ["metadata"])

/-- Whether the path of a table goes on, below the `metadata` of another one, as the number of a
version does. -/
def nested (directory other : List String) : Bool :=
  (directory ++ ["metadata"]).isPrefixOf other &&
    (other[directory.length + 1]?).any fun segment => segment.toList.head? = some 'v'

def isVersioned : MetadataName → Bool
  | .versioned _ _ => true
  | .unique _ _ _ => false

def isGzipped : MetadataName → Bool
  | .versioned _ gzipped => gzipped
  | .unique _ _ gzipped => gzipped

/-- Whether `metadata_location` takes a file for a version of a table. -/
def listed (directory : List String) (path : FilePath) : Bool :=
  (path.directory = directory && isVersioned path.name) ||
    nested directory path.directory

/-- The text of a listed file. -/
def FilePath.metadataPath (path : FilePath) : MetadataPath :=
  ⟨"/".intercalate path.directory, path.name⟩

/-- The last of the numbered files. Of two with the same number the compressed one is listed first.
A number that does not parse panics, as soon as it is compared with another one. -/
def lastVersion (files : Files) (directory : List String) : Except Error FilePath :=
  let found := files.keys.filter (listed directory)
  if found.all fun path => path.directory = directory then
    let names := (found.filter fun path => isGzipped path.name) ++
      found.filter fun path => !isGzipped path.name
    match FileCatalog.metadataLocation (names.map FilePath.metadataPath) with
    | some path => .ok ⟨directory, path.name⟩
    | none => .error .catalogNotFound
  else match found with
    | [path] => .ok path
    | _ => .error (.panicked "called `Result::unwrap()` on an `Err` value")

/-- All that a listing returns is deleted. -/
def deleteBelow (files : Files) (below : List String) : Files :=
  (files.keys.filter fun path => inside below path.directory).foldl (fun files path =>
    files.erase path) files

/-! ### Paths -/

/-- `str::trim_end_matches('/')`. -/
def trimEndSlashes (text : String) : String :=
  String.ofList (text.toList.reverse.dropWhile (· = '/')).reverse

namespace Warehouse

variable (warehouse : Warehouse)

/-- `namespace_path`. -/
def namespacePath (ns : String) : String := trimEndSlashes warehouse.path ++ "/" ++ ns

/-- `tabular_path`. -/
def tabularPath (ns name : String) : String :=
  trimEndSlashes warehouse.path ++ "/" ++ ns ++ "/" ++ name

/-- The path of a table: only the first level of its namespace is part of it. -/
def location (identifier : Identifier) : Except Error String :=
  match identifier.ns.levels with
  | [] => .error (.panicked "index out of bounds")
  | ns :: _ => .ok (warehouse.tabularPath ns identifier.name)

/-- The directory of a table that was created under a name. -/
def directory (identifier : Identifier) : List String :=
  match warehouse.location identifier with
  | .ok location => warehouse.segments location
  | .error _ => []

/-- Whether a table that is created under a name can be found. -/
def isPlain (identifier : Identifier) : Bool :=
  match warehouse.location identifier with
  | .ok location => warehouse.plain location
  | .error _ => false

/-- Where a file is stored. -/
def stored (path : MetadataPath) : FilePath := ⟨warehouse.segments path.location, path.name⟩

end Warehouse

/-! ### Calls -/

structure Catalog where
  files : Files
  cache : Identifier → Option Version
  /-- The name a table was created under, by the name it has now. -/
  renamedTables : HashMap Identifier Identifier

namespace Catalog

variable (warehouse : Warehouse) (catalog : Catalog)

def empty : Catalog := ⟨∅, fun _ => none, ∅⟩

/-- The name a table was created under. -/
def physicalIdentifier (identifier : Identifier) : Identifier :=
  (catalog.renamedTables.lookup identifier).getD identifier

/-- Whether a name was given up for another one. -/
def renamedAway (identifier : Identifier) : Bool :=
  catalog.renamedTables.values.any (· = identifier) &&
    (catalog.renamedTables.lookup identifier).isNone

/-- `metadata_location`. -/
def metadataLocation (identifier : Identifier) : Except Error FilePath := do
  if catalog.renamedAway identifier then .error .catalogNotFound
  let location ← warehouse.location (catalog.physicalIdentifier identifier)
  if warehouse.plain location then lastVersion catalog.files (warehouse.segments location)
  else .error .catalogNotFound

/-- `tabular_exists`. -/
def tabularExists (identifier : Identifier) : Except Error Bool :=
  match catalog.metadataLocation warehouse identifier with
  | .ok _ => .ok true
  | .error (.panicked what) => .error (.panicked what)
  | .error _ => .ok false

/-- What is read from a file that has been found. -/
def read (path : FilePath) : Except Error TableMetadata :=
  match catalog.files.lookup path with
  | some file => file.fromSlice
  | none => .error .catalogNotFound

/-- What is cached of a table, or else read. -/
def known (identifier : Identifier) (path : FilePath) : Except Error TableMetadata :=
  match catalog.cache identifier with
  | some version => .ok version.metadata
  | none => catalog.read path

def remember (identifier : Identifier) (version : Version) : Catalog :=
  { catalog with cache := Function.update catalog.cache identifier (some version) }

/-- A file of a table is written. -/
def put (path : FilePath) (content : MetadataFile) : Catalog :=
  { catalog with files := catalog.files.insert path content }

end Catalog

inductive Request where
  | createTable (identifier : Identifier) (metadata : TableMetadata)
  | updateTable (identifier : Identifier) (commit : CommitTable) (now : Int)
      (transactionUuid : Uuid)
  | renameTable (source destination : Identifier)
  | dropTable (identifier : Identifier)
  | dropNamespace (ns : Namespace)
  | loadTabular (identifier : Identifier)

inductive Answer where
  | table (metadata : TableMetadata)
  | done
  | failed (error : Error)

namespace Catalog

variable (warehouse : Warehouse)

/-- `load_tabular`. -/
def loadTabular (identifier : Identifier) (catalog : Catalog) : Answer × Catalog :=
  match catalog.metadataLocation warehouse identifier with
  | .error error => (.failed error, catalog)
  | .ok path =>
    match catalog.read path with
    | .error error => (.failed error, catalog)
    | .ok metadata =>
      (.table metadata, catalog.remember identifier ⟨path.metadataPath, metadata⟩)

/-- `create_table`, with the metadata the request stands for but for its location. -/
def createTable (identifier : Identifier) (metadata : TableMetadata) (catalog : Catalog) :
    Answer × Catalog :=
  match catalog.tabularExists warehouse identifier, warehouse.location identifier with
  | .error error, _ => (.failed error, catalog)
  | .ok true, _ => (.failed (.invalidFormat "Table already exists. Path"), catalog)
  | .ok false, .error error => (.failed error, catalog)
  | .ok false, .ok location =>
    let metadata := { metadata with location := location }
    let version : Version := ⟨firstPath location, metadata⟩
    (.table metadata,
      (catalog.put (warehouse.stored version.path) ⟨false, metadata⟩).remember identifier version)

/-- `update_table` has written its metadata to a file of its own, and copies it. -/
def copyIfNotExists (identifier : Identifier) (version : Version) (content : MetadataFile)
    (catalog : Catalog) : Answer × Catalog :=
  if warehouse.stored version.path ∈ catalog.files then
    (.failed (.commitConflict identifier.display), catalog)
  else
    (.table version.metadata,
      (catalog.put (warehouse.stored version.path) content).remember identifier version)

/-- `update_table`. -/
def updateTable (identifier : Identifier) (commit : CommitTable) (now : Int) (transactionUuid : Uuid)
    (catalog : Catalog) : Answer × Catalog :=
  match catalog.cache identifier with
  | none =>
    if commit.requirements.isEmpty then (.failed (.panicked "index out of bounds"), catalog)
    else (.failed (.invalidFormat "Create table assertion"), catalog)
  | some previous =>
    if checkTableRequirements commit.requirements previous.metadata then
      match applyTableUpdates previous.metadata commit.updates now with
      | .error error => (.failed error, catalog)
      | .ok metadata =>
        let update : Update := ⟨previous, commit, now, transactionUuid, metadata⟩
        let content : MetadataFile := ⟨update.gzipped, metadata⟩
        let catalog := catalog.put (warehouse.stored update.tempMetadataLocation) content
        match newFilesystemMetadataLocation metadata.location previous.path update.gzipped with
        | .error error => (.failed error, catalog)
        | .ok target => catalog.copyIfNotExists warehouse identifier ⟨target, metadata⟩ content
    else (.failed (.commitConflict identifier.display), catalog)

/-- `rename_table`. -/
def renameTable (source destination : Identifier) (catalog : Catalog) : Answer × Catalog :=
  if source = destination then (.done, catalog)
  else match catalog.tabularExists warehouse destination with
    | .error error => (.failed error, catalog)
    | .ok true =>
      (.failed (.invalidFormat ("Destination table " ++ destination.display ++ " already exists")),
        catalog)
    | .ok false =>
      match catalog.metadataLocation warehouse source with
      | .error error => (.failed error, catalog)
      | .ok path =>
        match catalog.known source path with
        | .error error => (.failed error, catalog)
        | .ok metadata =>
          (.done,
            { catalog with
              cache := Function.update (Function.update catalog.cache source none) destination
                (some ⟨path.metadataPath, metadata⟩)
              renamedTables := (catalog.renamedTables.erase source).insert destination
                (catalog.physicalIdentifier source) })

/-- `drop_table`. -/
def dropTable (identifier : Identifier) (catalog : Catalog) : Answer × Catalog :=
  match warehouse.location (catalog.physicalIdentifier identifier) with
  | .error error => (.failed error, catalog)
  | .ok location =>
    (.done,
      { files := deleteBelow catalog.files (warehouse.segments location)
        cache := Function.update catalog.cache identifier none
        renamedTables := catalog.renamedTables.erase identifier })

/-- `drop_namespace`. -/
def dropNamespace (ns : Namespace) (catalog : Catalog) : Answer × Catalog :=
  match ns.levels with
  | [] => (.failed (.panicked "index out of bounds"), catalog)
  | first :: _ =>
    (.done,
      { catalog with
        files := deleteBelow catalog.files (warehouse.segments (warehouse.namespacePath first))
        cache := fun identifier =>
          if identifier.ns.levels.head? = some first then none else catalog.cache identifier })

def perform : Request → Catalog → Answer × Catalog
  | .createTable identifier metadata => createTable warehouse identifier metadata
  | .updateTable identifier commit now transactionUuid =>
    updateTable warehouse identifier commit now transactionUuid
  | .renameTable source destination => renameTable warehouse source destination
  | .dropTable identifier => dropTable warehouse identifier
  | .dropNamespace ns => dropNamespace warehouse ns
  | .loadTabular identifier => loadTabular warehouse identifier

end Catalog

end IcebergRust.FileNames

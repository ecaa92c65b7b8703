import IcebergRust.Catalog.Created
import IcebergRust.Catalog.Renames
import IcebergRust.Catalog.Tabular

/-!
# Creating materialized views

`CreateMaterializedViewBuilder::build` and `create_materialized_view` of the five catalogs: a view
and the table it is stored in.

* The builder derives the name of the storage table from that of the view.
* `HasStorage` is that a creation succeeds and leaves the storage table behind, with the schema of
  the view.
* `created_iff` says of which requests this is so.  In the REST catalog and in S3 Tables it never is:
  each of them creates one of the two names twice.
-/

namespace IcebergRust.MaterializedViews

open Fallible View FileNames
open FileCatalog (MetadataName)

/-! ### Requests -/

/-- `STORAGE_TABLE_POSTFIX`. -/
def storageTablePostfix : String := "__storage"

structure CreateMaterializedViewBuilder where
  name : Option String
  location : Option String
  schema : Option Schema
  viewVersion : Option (Version Identifier)
  properties : HashMap String String
  partitionSpec : Option PartitionSpec
  writeOrder : Option SortOrder
  tableProperties : Option (HashMap String String)

namespace CreateMaterializedViewBuilder

/-- The derived `create`. -/
def create (builder : CreateMaterializedViewBuilder) : Except Error CreateMaterializedView := do
  let name ← CreateTableBuilder.required builder.name (.deriveBuilder "name")
  let schema ← CreateTableBuilder.required builder.schema (.deriveBuilder "schema")
  let viewVersion ← CreateTableBuilder.required builder.viewVersion (.deriveBuilder "view_version")
  .ok ⟨name, builder.location, schema, viewVersion, builder.properties, builder.partitionSpec,
    builder.writeOrder, builder.tableProperties⟩

/-- The defaults of a version. -/
def withDefaults (ns : List String) (catalogName : String) (version : Version Identifier) :
    Version Identifier :=
  { version with
    defaultNamespace := if version.defaultNamespace.isEmpty then ns else version.defaultNamespace
    defaultCatalog :=
      if version.defaultCatalog.isNone ∧ catalogName ≠ "" then some catalogName
      else version.defaultCatalog }

/-- `build`, up to the call of `create_materialized_view`. -/
def build (builder : CreateMaterializedViewBuilder) (ns : List String) (catalogName : String) :
    Except Error (Identifier × CreateMaterializedView) := do
  let name ← CreateTableBuilder.required builder.name
    (.notFound "Name to create materialized view")
  let identifier : Identifier := ⟨⟨ns⟩, name⟩
  let builder :=
    { builder with viewVersion := builder.viewVersion.map (withDefaults ns catalogName) }
  let create ← builder.create
  let version :=
    { create.viewVersion with
      storageTable := ⟨identifier.ns, identifier.name ++ storageTablePostfix⟩ }
  .ok (identifier, { create with viewVersion := version })

end CreateMaterializedViewBuilder

/-- The UUIDs a creation draws, and the time. -/
structure Draws where
  viewUuid : Uuid
  tableUuid : Uuid
  viewFile : Uuid
  tableFile : Uuid
  now : Int

section Requests

variable (request : CreateMaterializedView) (draws : Draws)

/-- The metadata of the view, at a location. -/
def viewMetadata (location : Option String) : Except Error (GeneralViewMetadata Identifier) :=
  { request.view with location }.tryInto "materialized view" draws.viewUuid

/-- The metadata of the storage table, at a location. -/
def tableMetadata (location : Option String) : Except Error TableMetadata :=
  { request.storageTable with location }.tryInto draws.tableUuid draws.now

end Requests

/-! ### What is loaded -/

section Loaded

variable (raw : RawJson)

/-- A schema after its types have been JSON. -/
def reread (schema : Schema) : Except Error Schema := do
  match ← IcebergType.deserialize raw ((IcebergType.struct schema.fields).toJson raw) with
  | .struct fields => .ok { schema with fields }
  | _ => .error (.json "invalid type: expected struct")

/-- The current schema of the table that is read from a file. -/
def schemaOfFile (file : TabularFile) : Except Error Schema := do
  match ← file.fromSlice with
  | .table metadata =>
    let loaded ← roundTrip metadata
    let schema ← loaded.currentSchema
    reread raw schema
  | _ => .error (.invalidFormat "table")

end Loaded

/-! ### Catalogs with a registry -/

/-- Names with the locations of their metadata, and the files in the object store.  A name is the text
of a namespace and a name. -/
structure Lake where
  names : HashMap (String × String) String
  objects : HashMap String TabularFile

namespace Lake

/-- What a name is looked up by. -/
def key (identifier : Identifier) : String × String := (identifier.ns.display, identifier.name)

/-- `put_metadata`. -/
def put (lake : Lake) (location : String) (metadata : TabularMetadata) : Lake :=
  { lake with objects := lake.objects.insert location (serializeTabular location metadata) }

/-- A name is created.  One that exists is refused. -/
def create (lake : Lake) (identifier : Identifier) (location : String) : Except Error Lake :=
  if key identifier ∈ lake.names then .error (.external "already exists")
  else .ok { lake with names := lake.names.insert (key identifier) location }

/-- The metadata location of a name is replaced. -/
def update (lake : Lake) (identifier : Identifier) (location : String) : Except Error Lake :=
  if key identifier ∈ lake.names then
    .ok { lake with names := lake.names.insert (key identifier) location }
  else .error (.external "does not exist")

/-- The current schema of the table `load_tabular` returns. -/
def loadSchema (raw : RawJson) (lake : Lake) (identifier : Identifier) : Except Error Schema :=
  match lake.names.lookup (key identifier) with
  | none => .error .catalogNotFound
  | some location =>
    match lake.objects.lookup location with
    | none => .error (.objectStore location)
    | some file => schemaOfFile raw file

end Lake

section Catalogs

variable (identifier : Identifier) (request : CreateMaterializedView) (draws : Draws)

/-- Both metadata files are written. -/
def putBoth (lake : Lake) (view : GeneralViewMetadata Identifier) (table : TableMetadata) : Lake :=
  (lake.put ((TabularMetadata.materializedView view).newMetadataLocation draws.viewFile)
    (.materializedView view)).put
      ((TabularMetadata.table table).newMetadataLocation draws.tableFile) (.table table)

/-- `create_materialized_view` of the SQL catalog.  The two rows are inserted in one transaction. -/
def sqlCreate (lake : Lake) : Except Error (Lake × GeneralViewMetadata Identifier) := do
  let metadata ← viewMetadata request draws request.location
  let table ← tableMetadata request draws request.location
  let version ← metadata.currentVersion none
  let lake := putBoth draws lake metadata table
  let lake ← lake.create identifier
    ((TabularMetadata.materializedView metadata).newMetadataLocation draws.viewFile)
  let lake ← lake.create version.storageTable
    ((TabularMetadata.table table).newMetadataLocation draws.tableFile)
  .ok (lake, metadata)

/-- `create_materialized_view` of the Glue catalog. -/
def glueCreate (lake : Lake) : Except Error (Lake × GeneralViewMetadata Identifier) := do
  let metadata ← viewMetadata request draws request.location
  let table ← tableMetadata request draws request.location
  let version ← metadata.currentVersion none
  let lake := putBoth draws lake metadata table
  let _ ← metadata.currentSchema none
  let _ ← table.currentSchema
  let lake ← lake.create identifier
    ((TabularMetadata.materializedView metadata).newMetadataLocation draws.viewFile)
  let lake ← lake.create version.storageTable
    ((TabularMetadata.table table).newMetadataLocation draws.tableFile)
  .ok (lake, metadata)

/-- `create_materialized_view` of the S3 Tables catalog, with the locations the service gives out.
The storage table is created before its metadata is written, and once more after that. -/
def s3TablesCreate (warehouseLocation : Identifier → String) (lake : Lake) :
    Except Error (Lake × GeneralViewMetadata Identifier) := do
  let lake ← lake.create identifier ""
  let metadata ← viewMetadata request draws (some (warehouseLocation identifier))
  let version ← metadata.currentVersion none
  let lake ← lake.create version.storageTable ""
  let table ← tableMetadata request draws (some (warehouseLocation version.storageTable))
  let lake := putBoth draws lake metadata table
  let lake ← lake.update identifier
    ((TabularMetadata.materializedView metadata).newMetadataLocation draws.viewFile)
  let lake ← lake.create version.storageTable ""
  let lake ← lake.update version.storageTable
    ((TabularMetadata.table table).newMetadataLocation draws.tableFile)
  .ok (lake, metadata)

/-- `create_materialized_view` of the REST catalog.  The request for the table is given the name of
the view, and the server makes the metadata of both. -/
def restCreate (lake : Lake) : Except Error (Lake × GeneralViewMetadata Identifier) := do
  let createTable := { request.storageTable with name := request.view.name }
  let table ← createTable.tryInto draws.tableUuid draws.now
  let tableName : Identifier := ⟨identifier.ns, createTable.name⟩
  let lake ← lake.create tableName
    ((TabularMetadata.table table).newMetadataLocation draws.tableFile)
  let metadata ← viewMetadata request draws request.location
  let viewName : Identifier := ⟨identifier.ns, request.view.name⟩
  let lake ← lake.create viewName
    ((TabularMetadata.materializedView metadata).newMetadataLocation draws.viewFile)
  .ok (putBoth draws lake metadata table, metadata)

end Catalogs

/-! ### The file catalog -/

/-- The metadata files below the path of a catalog, and the names it has recorded renames of. -/
structure FileStore where
  files : HashMap FilePath TabularFile
  renamedTables : HashMap Identifier Identifier

namespace FileStore

variable (warehouse : Warehouse) (store : FileStore)

def physicalIdentifier (identifier : Identifier) : Identifier :=
  (store.renamedTables.lookup identifier).getD identifier

/-- Whether a name was given up for another one. -/
def renamedAway (identifier : Identifier) : Bool :=
  store.renamedTables.values.any (· = identifier) &&
    (store.renamedTables.lookup identifier).isNone

/-- The last of the files listed for a directory; a number that does not parse panics, as soon as it
is compared with another one. -/
def lastListed (found : List FilePath) (directory : List String) : Except Error FilePath :=
  if found.all fun path => path.directory = directory then
    match FileCatalog.metadataLocation (found.map FilePath.metadataPath) with
    | some path => .ok ⟨directory, path.name⟩
    | none => .error .catalogNotFound
  else match found with
    | [path] => .ok path
    | _ => .error (.panicked "called `Result::unwrap()` on an `Err` value")

/-- `metadata_location`. -/
def metadataLocation (identifier : Identifier) : Except Error FilePath := do
  if store.renamedAway identifier then .error .catalogNotFound
  let location ← warehouse.location (store.physicalIdentifier identifier)
  if warehouse.plain location then
    let directory := warehouse.segments location
    lastListed (store.files.keys.filter (listed directory)) directory
  else .error .catalogNotFound

/-- `tabular_exists`. -/
def tabularExists (identifier : Identifier) : Except Error Bool :=
  match store.metadataLocation warehouse identifier with
  | .ok _ => .ok true
  | .error (.panicked what) => .error (.panicked what)
  | .error _ => .ok false

/-- The current schema of the table `load_tabular` returns. -/
def loadSchema (raw : RawJson) (identifier : Identifier) : Except Error Schema := do
  let path ← store.metadataLocation warehouse identifier
  match store.files.lookup path with
  | none => .error .catalogNotFound
  | some file => schemaOfFile raw file

/-- The first file of a table or view. -/
def firstFile (location : String) : FilePath :=
  ⟨warehouse.segments location, .versioned 0 false⟩

/-- `put_metadata` of the first file. -/
def put (location : String) (metadata : TabularMetadata) : FileStore :=
  { store with
    files := store.files.insert (firstFile warehouse location)
      (serializeTabular (location ++ "/metadata/v0.metadata.json") metadata) }

end FileStore

/-- `create_materialized_view` of the file catalog.  Only the name of the view is looked up. -/
def fileCreate (warehouse : Warehouse) (identifier : Identifier) (request : CreateMaterializedView)
    (draws : Draws) (store : FileStore) :
    Except Error (FileStore × GeneralViewMetadata Identifier) := do
  if ← store.tabularExists warehouse identifier then
    .error (.invalidFormat "View already exists. Path")
  else do
    let location ← warehouse.location identifier
    let metadata ← viewMetadata request draws (some location)
    let version ← metadata.currentVersion none
    let tableLocation ← warehouse.location version.storageTable
    let table ← tableMetadata request draws (some tableLocation)
    .ok ((store.put warehouse location (.materializedView metadata)).put warehouse tableLocation
      (.table table), metadata)

/-! ### What a creation promises -/

/-- A creation succeeds and leaves a storage table behind that has the schema of the view and is not
the view. -/
def HasStorage {S : Type} (identifier : Identifier) (schema : Schema)
    (created : Except Error (S × GeneralViewMetadata Identifier))
    (load : S → Identifier → Except Error Schema) : Prop :=
  ∃ state view version, created = .ok (state, view) ∧ view.currentVersion none = .ok version ∧
    version.storageTable ≠ identifier ∧ load state version.storageTable = .ok schema

/-- The storage table can be made of the request, and its schema comes back from its file. -/
structure Creatable (raw : RawJson) (request : CreateMaterializedView) : Prop where
  formatVersion : ∃ version, request.storageTable.formatVersion = .ok version
  schemaId : request.schema.schemaId = 0
  producible : (IcebergType.struct request.schema.fields).Producible raw
  written : (IcebergType.struct request.schema.fields).Written

/-- The files of the storage table are not compressed. -/
def Uncompressed (request : CreateMaterializedView) : Prop :=
  metadataIsGzipped (request.tableProperties.getD ∅) = false

/-! ### The file of the storage table -/

section Reading

variable {raw : RawJson}

theorem reread_eq_ok_iff {schema : Schema} :
    reread raw schema = .ok schema ↔ schema.GivenBack raw := by
  unfold reread Schema.GivenBack
  constructor
  · intro back
    obtain ⟨type, parsed, same⟩ := bind_eq_ok.mp back
    rw [parsed]
    cases type with
    | struct fields =>
      have fields := congrArg Schema.fields (Except.ok.inj same)
      exact congrArg (fun fields => Except.ok (IcebergType.struct fields)) fields
    | primitive _ => cases same
    | list _ => cases same
    | map _ => cases same
  · intro back
    rw [back]
    rfl

theorem byKey_single (schema : Schema) {found : Schema} :
    (byKey Schema.schemaId id (HashMap.fromIter [((0 : Int), schema)]).values).lookup 0 =
      some found ↔ schema.schemaId = 0 ∧ found = schema := by
  have values : (HashMap.fromIter [((0 : Int), schema)]).values = [schema] := rfl
  rw [values]
  show (HashMap.fromIter [(schema.schemaId, schema)]).lookup 0 = some found ↔ _
  rw [lookup_single, eq_comm]

/-- The current schema of a created table, after the table has been in its file. -/
theorem currentSchema_roundTrip {create : CreateTable} {tableUuid : Uuid} {now : Int}
    {metadata : TableMetadata} (run : create.tryInto tableUuid now = .ok metadata) {found : Schema} :
    (roundTrip metadata >>= TableMetadata.currentSchema) = .ok found ↔
      create.schema.schemaId = 0 ∧ found = create.schema := by
  obtain ⟨⟨schemas, current⟩, -⟩ := created_maps run
  have single := @byKey_single create.schema found
  have looked : ∀ loaded : TableMetadata,
      loaded.schemas = byKey Schema.schemaId id metadata.schemas.values →
      loaded.currentSchemaId = 0 →
      (loaded.currentSchema = .ok found ↔ create.schema.schemaId = 0 ∧ found = create.schema) := by
    intro loaded same zero
    rw [← single, TableMetadata.currentSchema, zero, same, schemas]
    cases (byKey Schema.schemaId id (HashMap.fromIter [((0 : Int), create.schema)]).values).lookup 0 <;>
      simp
  have later : ∀ formatVersion nextRowId convert,
      ((if metadata.currentSchemaId ∈ byKey Schema.schemaId id metadata.schemas.values then
        .ok (reloaded metadata formatVersion nextRowId convert)
      else .error (.invalidFormat "schema") : Except Error TableMetadata) >>=
          TableMetadata.currentSchema) = .ok found ↔
        create.schema.schemaId = 0 ∧ found = create.schema := by
    intro formatVersion nextRowId convert
    split
    · exact looked _ rfl current
    · rename_i missing
      rw [current, schemas] at missing
      refine iff_of_false nofun fun both => missing ?_
      rw [← AList.lookup_isSome, Option.isSome_iff_exists]
      exact ⟨_, single.mpr both⟩
  rw [roundTrip_eq, TableMetadata.toEnum]
  cases metadata.formatVersion with
  | v3 =>
    have same : (TableMetadataEnum.v3 metadata.toV3).tryInto = _ :=
      versioned_tryInto metadata .v3 metadata.nextRowId fun _ => rfl
    show ((TableMetadataEnum.v3 metadata.toV3).tryInto >>= TableMetadata.currentSchema) = _ ↔ _
    rw [same]
    exact later _ _ _
  | v2 =>
    have same : (TableMetadataEnum.v2 metadata.toV2).tryInto = _ :=
      versioned_tryInto metadata .v2 0 fun _ => rfl
    show ((TableMetadataEnum.v2 metadata.toV2).tryInto >>= TableMetadata.currentSchema) = _ ↔ _
    rw [same]
    exact later _ _ _
  | v1 =>
    have here : metadata.schemas.lookup metadata.currentSchemaId = some create.schema := by
      rw [schemas, current]
      exact lookup_single.mpr ⟨rfl, rfl⟩
    obtain ⟨mirror, written⟩ : ∃ mirror, metadata.toV1 = .ok mirror := by
      unfold TableMetadata.toV1
      rw [here]
      exact ⟨_, rfl⟩
    have same : ((metadata.toV1.map TableMetadataEnum.v1 >>= TableMetadataEnum.tryInto) :
        Except Error TableMetadata) = .ok (reloadedV1 metadata) := by
      rw [written]
      exact congrArg Except.ok (toV1_tryInto written)
    rw [same]
    exact looked _ rfl current

variable {request : CreateMaterializedView} {draws : Draws} {location : Option String}

/-- What a creation writes of its storage table, and where. -/
theorem tableMetadata_eq_ok {table : TableMetadata}
    (run : tableMetadata request draws location = .ok table) :
    (∃ version, request.storageTable.formatVersion = .ok version) ∧ location.isSome = true ∧
      table.properties = request.tableProperties.getD ∅ := by
  obtain ⟨version, asked, run⟩ := bind_eq_ok.mp run
  cases location with
  | none => cases run
  | some location =>
    cases run
    exact ⟨⟨version, asked⟩, rfl, rfl⟩

theorem tableMetadata_ok {location : String}
    (asked : ∃ version, request.storageTable.formatVersion = .ok version) :
    ∃ table, tableMetadata request draws (some location) = .ok table := by
  obtain ⟨version, asked⟩ := asked
  refine ⟨_, bind_eq_ok.mpr ⟨version, asked, rfl⟩⟩

/-- The schema of the view is read from the file of the storage table if it is not compressed, has
the id 0, and comes back from its JSON. -/
theorem schemaOfFile_eq_ok_iff (faithful : raw.Faithful) {table : TableMetadata}
    (run : tableMetadata request draws location = .ok table) (gzipped : Bool) :
    schemaOfFile raw ⟨gzipped, .table table⟩ = .ok request.schema ↔
      gzipped = false ∧ Creatable raw request := by
  obtain ⟨asked, -, -⟩ := tableMetadata_eq_ok run
  cases gzipped with
  | true => exact iff_of_false nofun fun both => Bool.noConfusion both.1
  | false =>
    show (do
      let loaded ← roundTrip table
      let schema ← loaded.currentSchema
      reread raw schema) = .ok request.schema ↔ _
    rw [← bind_assoc, bind_eq_ok]
    constructor
    · rintro ⟨schema, found, back⟩
      obtain ⟨zero, rfl⟩ := (currentSchema_roundTrip run).mp found
      obtain ⟨producible, written⟩ := (givenBack_iff faithful).mp (reread_eq_ok_iff.mp back)
      exact ⟨rfl, asked, zero, producible, written⟩
    · rintro ⟨-, creatable⟩
      exact ⟨request.schema, (currentSchema_roundTrip run).mpr ⟨creatable.schemaId, rfl⟩,
        reread_eq_ok_iff.mpr
          ((givenBack_iff faithful).mpr ⟨creatable.producible, creatable.written⟩)⟩

/-! ### The view -/

theorem viewMetadata_eq_ok {view : GeneralViewMetadata Identifier}
    (run : viewMetadata request draws location = .ok view) :
    location.isSome = true ∧ view.currentVersion none = .ok request.viewVersion := by
  cases location with
  | none => cases run
  | some location =>
    cases run
    exact ⟨rfl, rfl⟩

/-- The current schema of a view is found under the id 0 only. -/
theorem exists_currentSchema_iff {view : GeneralViewMetadata Identifier}
    (run : viewMetadata request draws location = .ok view) :
    (∃ schema, view.currentSchema none = .ok schema) ↔ request.viewVersion.schemaId = 0 := by
  obtain ⟨-, current⟩ := viewMetadata_eq_ok run
  have schemas : view.schemas = HashMap.fromIter [((0 : Int), request.schema)] := by
    cases location with
    | none => cases run
    | some location =>
      cases run
      rfl
  unfold GeneralViewMetadata.currentSchema
  rw [current, ok_bind, schemas]
  constructor
  · rintro ⟨schema, found⟩
    cases looked : (HashMap.fromIter [((0 : Int), request.schema)]).lookup
        request.viewVersion.schemaId with
    | none =>
      rw [looked] at found
      cases found
    | some schema => exact (lookup_single.mp looked).1
  · intro zero
    rw [lookup_single.mpr ⟨zero, rfl⟩]
    exact ⟨_, rfl⟩

/-- A request as the builder makes it. -/
structure Built (identifier : Identifier) (request : CreateMaterializedView) : Prop where
  name : request.name = identifier.name
  storageTable : request.viewVersion.storageTable =
    ⟨identifier.ns, identifier.name ++ storageTablePostfix⟩

theorem built_of_build {builder : CreateMaterializedViewBuilder} {ns : List String}
    {catalogName : String} {identifier : Identifier}
    (run : builder.build ns catalogName = .ok (identifier, request)) :
    Built identifier request := by
  obtain ⟨name, named, run⟩ := bind_eq_ok.mp run
  obtain ⟨create, created, same⟩ := bind_eq_ok.mp run
  cases same
  obtain ⟨name', named', created⟩ := bind_eq_ok.mp created
  obtain ⟨schema, -, created⟩ := bind_eq_ok.mp created
  obtain ⟨version, -, same⟩ := bind_eq_ok.mp created
  cases same
  refine ⟨?_, rfl⟩
  show name' = name
  unfold CreateTableBuilder.required at named named'
  cases given : builder.name with
  | none =>
    rw [given] at named
    cases named
  | some text =>
    rw [given] at named
    dsimp only at named'
    rw [given] at named'
    cases named
    cases named'
    rfl

theorem Built.apart {identifier : Identifier} (built : Built identifier request) :
    request.viewVersion.storageTable.name ≠ identifier.name := by
  rw [built.storageTable]
  intro same
  have length := congrArg String.length same
  rw [String.length_append] at length
  exact absurd length (by simp [storageTablePostfix])

end Reading

/-! ### The SQL and the Glue catalog -/

section Lakes

variable {raw : RawJson} {identifier : Identifier} {request : CreateMaterializedView} {draws : Draws}
  {lake : Lake}

namespace Lake

theorem create_eq_ok {identifier : Identifier} {location : String} {after : Lake} :
    lake.create identifier location = .ok after ↔ key identifier ∉ lake.names ∧
      after = { lake with names := lake.names.insert (key identifier) location } := by
  unfold create
  rw [guard_eq_ok, Except.ok.injEq, eq_comm]

/-- A name that has been created cannot be created again. -/
theorem not_create_again {identifier : Identifier} {location : String}
    (there : key identifier ∈ lake.names) {after : Lake} :
    lake.create identifier location ≠ .ok after := fun run => (create_eq_ok.mp run).1 there

end Lake

theorem Built.key_ne (built : Built identifier request) :
    Lake.key request.viewVersion.storageTable ≠ Lake.key identifier := fun same =>
  built.apart (Prod.mk.inj same).2

/-- Both files are written and both names are created. -/
def filed (draws : Draws) (identifier : Identifier) (request : CreateMaterializedView) (lake : Lake)
    (view : GeneralViewMetadata Identifier) (table : TableMetadata) : Lake :=
  { putBoth draws lake view table with
    names := (lake.names.insert (Lake.key identifier)
        ((TabularMetadata.materializedView view).newMetadataLocation draws.viewFile)).insert
      (Lake.key request.viewVersion.storageTable)
      ((TabularMetadata.table table).newMetadataLocation draws.tableFile) }

/-- What is then loaded under the name of the storage table. -/
theorem loadSchema_filed_iff (faithful : raw.Faithful) {location : Option String}
    {view : GeneralViewMetadata Identifier} {table : TableMetadata}
    (run : tableMetadata request draws location = .ok table) :
    (filed draws identifier request lake view table).loadSchema raw
        request.viewVersion.storageTable = .ok request.schema ↔
      Creatable raw request ∧ Uncompressed request := by
  obtain ⟨-, -, properties⟩ := tableMetadata_eq_ok run
  have encoding : endsWith ((TabularMetadata.table table).newMetadataLocation draws.tableFile)
      ".gz.metadata.json" = metadataIsGzipped (request.tableProperties.getD ∅) := by
    rw [← properties]
    exact endsWith_metadataSuffix _ _ _
  unfold Lake.loadSchema filed
  rw [AList.lookup_insert]
  dsimp only [putBoth, Lake.put]
  rw [AList.lookup_insert]
  dsimp only [serializeTabular]
  rw [encoding, schemaOfFile_eq_ok_iff faithful run, and_comm]
  rfl

/-- Two names that do not exist can be created one after the other. -/
theorem create_both_eq_ok_iff (built : Built identifier request)
    (absent : Lake.key identifier ∉ lake.names)
    (absent' : Lake.key request.viewVersion.storageTable ∉ lake.names)
    {view : GeneralViewMetadata Identifier} {table : TableMetadata}
    {result : Lake × GeneralViewMetadata Identifier} :
    (do
      let lake ← (putBoth draws lake view table).create identifier
        ((TabularMetadata.materializedView view).newMetadataLocation draws.viewFile)
      let lake ← lake.create request.viewVersion.storageTable
        ((TabularMetadata.table table).newMetadataLocation draws.tableFile)
      .ok (lake, view)) = .ok result ↔
      result = (filed draws identifier request lake view table, view) := by
  simp only [bind_eq_ok, Lake.create_eq_ok]
  constructor
  · rintro ⟨first, ⟨-, rfl⟩, second, ⟨-, rfl⟩, same⟩
    exact (Except.ok.inj same).symm
  · rintro rfl
    refine ⟨_, ⟨absent, rfl⟩, _, ⟨fun there => ?_, rfl⟩, rfl⟩
    rcases (AList.mem_insert _).mp there with same | there
    · exact built.key_ne same
    · exact absent' there

/-- A catalog that files both keeps the promise if the request has a location, the table can be made
of it and its file is not compressed. -/
theorem hasStorage_iff_of_filed (faithful : raw.Faithful) (built : Built identifier request)
    {created : Except Error (Lake × GeneralViewMetadata Identifier)} {also : Prop}
    (runs : ∀ result, created = .ok result ↔ also ∧ ∃ view table,
      viewMetadata request draws request.location = .ok view ∧
      tableMetadata request draws request.location = .ok table ∧
      result = (filed draws identifier request lake view table, view)) :
    HasStorage identifier request.schema created (Lake.loadSchema raw) ↔
      also ∧ request.location.isSome = true ∧ Creatable raw request ∧ Uncompressed request := by
  constructor
  · rintro ⟨state, view, version, run, current, -, loaded⟩
    obtain ⟨here, view', table, madeView, madeTable, same⟩ := (runs _).mp run
    cases same
    obtain ⟨located, current'⟩ := viewMetadata_eq_ok madeView
    cases current'.symm.trans current
    exact ⟨here, located, (loadSchema_filed_iff faithful madeTable).mp loaded⟩
  · rintro ⟨here, located, promised⟩
    obtain ⟨location, same⟩ := Option.isSome_iff_exists.mp located
    obtain ⟨table, madeTable⟩ := @tableMetadata_ok request draws location promised.1.formatVersion
    rw [← same] at madeTable
    have madeView : ∃ view, viewMetadata request draws request.location = .ok view := by
      rw [same]
      exact ⟨_, rfl⟩
    obtain ⟨view, madeView⟩ := madeView
    refine ⟨_, view, _, (runs _).mpr ⟨here, view, table, madeView, madeTable, rfl⟩,
      (viewMetadata_eq_ok madeView).2, fun same => built.apart (congrArg Identifier.name same), ?_⟩
    exact (loadSchema_filed_iff faithful madeTable).mpr promised

theorem sqlCreate_eq_ok_iff (built : Built identifier request)
    (absent : Lake.key identifier ∉ lake.names)
    (absent' : Lake.key request.viewVersion.storageTable ∉ lake.names)
    (result : Lake × GeneralViewMetadata Identifier) :
    sqlCreate identifier request draws lake = .ok result ↔ True ∧ ∃ view table,
      viewMetadata request draws request.location = .ok view ∧
      tableMetadata request draws request.location = .ok table ∧
      result = (filed draws identifier request lake view table, view) := by
  rw [true_and]
  constructor
  · intro run
    obtain ⟨view, madeView, run⟩ := bind_eq_ok.mp run
    obtain ⟨table, madeTable, run⟩ := bind_eq_ok.mp run
    rw [(viewMetadata_eq_ok madeView).2, ok_bind] at run
    exact ⟨view, table, madeView, madeTable,
      (create_both_eq_ok_iff built absent absent').mp run⟩
  · rintro ⟨view, table, madeView, madeTable, same⟩
    refine bind_eq_ok.mpr ⟨view, madeView, bind_eq_ok.mpr ⟨table, madeTable, ?_⟩⟩
    rw [(viewMetadata_eq_ok madeView).2, ok_bind]
    exact (create_both_eq_ok_iff built absent absent').mpr same

/-- The Glue catalog reads the current schemas of both. -/
theorem glueCreate_eq_ok_iff (built : Built identifier request)
    (absent : Lake.key identifier ∉ lake.names)
    (absent' : Lake.key request.viewVersion.storageTable ∉ lake.names)
    (result : Lake × GeneralViewMetadata Identifier) :
    glueCreate identifier request draws lake = .ok result ↔
      request.viewVersion.schemaId = 0 ∧ ∃ view table,
        viewMetadata request draws request.location = .ok view ∧
        tableMetadata request draws request.location = .ok table ∧
        result = (filed draws identifier request lake view table, view) := by
  constructor
  · intro run
    obtain ⟨view, madeView, run⟩ := bind_eq_ok.mp run
    obtain ⟨table, madeTable, run⟩ := bind_eq_ok.mp run
    rw [(viewMetadata_eq_ok madeView).2, ok_bind] at run
    obtain ⟨schema, found, run⟩ := bind_eq_ok.mp run
    obtain ⟨_, -, run⟩ := bind_eq_ok.mp run
    exact ⟨(exists_currentSchema_iff madeView).mp ⟨schema, found⟩, view, table, madeView, madeTable,
      (create_both_eq_ok_iff built absent absent').mp run⟩
  · rintro ⟨zero, view, table, madeView, madeTable, same⟩
    obtain ⟨schema, found⟩ := (exists_currentSchema_iff madeView).mpr zero
    have tableSchema : table.currentSchema = .ok request.schema := by
      obtain ⟨⟨schemas, current⟩, -⟩ := created_maps madeTable
      rw [TableMetadata.currentSchema, schemas, current, lookup_single.mpr ⟨rfl, rfl⟩]
      rfl
    refine bind_eq_ok.mpr ⟨view, madeView, bind_eq_ok.mpr ⟨table, madeTable, ?_⟩⟩
    rw [(viewMetadata_eq_ok madeView).2, ok_bind]
    refine bind_eq_ok.mpr ⟨schema, found, bind_eq_ok.mpr ⟨_, tableSchema, ?_⟩⟩
    exact (create_both_eq_ok_iff built absent absent').mpr same

/-! ### The REST catalog and S3 Tables -/

/-- The second of the two requests finds the name of the first one. -/
theorem restCreate_ne_ok (result : Lake × GeneralViewMetadata Identifier) :
    restCreate identifier request draws lake ≠ .ok result := by
  intro run
  obtain ⟨table, -, run⟩ := bind_eq_ok.mp run
  obtain ⟨first, created, run⟩ := bind_eq_ok.mp run
  obtain ⟨view, -, run⟩ := bind_eq_ok.mp run
  obtain ⟨second, again, -⟩ := bind_eq_ok.mp run
  obtain ⟨-, rfl⟩ := Lake.create_eq_ok.mp created
  exact Lake.not_create_again ((AList.mem_insert _).mpr (.inl rfl)) again

/-- The storage table is there when it is created for the second time. -/
theorem s3TablesCreate_ne_ok (warehouseLocation : Identifier → String)
    (result : Lake × GeneralViewMetadata Identifier) :
    s3TablesCreate identifier request draws warehouseLocation lake ≠ .ok result := by
  intro run
  obtain ⟨first, -, run⟩ := bind_eq_ok.mp run
  obtain ⟨view, -, run⟩ := bind_eq_ok.mp run
  obtain ⟨version, -, run⟩ := bind_eq_ok.mp run
  obtain ⟨second, created, run⟩ := bind_eq_ok.mp run
  obtain ⟨table, -, run⟩ := bind_eq_ok.mp run
  obtain ⟨third, updated, run⟩ := bind_eq_ok.mp run
  obtain ⟨fourth, again, -⟩ := bind_eq_ok.mp run
  obtain ⟨-, rfl⟩ := Lake.create_eq_ok.mp created
  unfold Lake.update at updated
  split at updated
  · cases updated
    refine Lake.not_create_again ((AList.mem_insert _).mpr (.inr ?_)) again
    exact (AList.mem_insert _).mpr (.inl rfl)
  · cases updated

end Lakes

/-! ### The file catalog -/

section Files

variable {raw : RawJson} {warehouse : Warehouse} {identifier : Identifier}
  {request : CreateMaterializedView} {draws : Draws} {store : FileStore}

open FileStore (lastListed firstFile)

theorem firstFile_plain (location : String) :
    endsWith (location ++ "/metadata/v0.metadata.json") ".gz.metadata.json" = false := by
  refine Bool.eq_false_iff.mpr fun ends => ?_
  obtain ⟨rest, same⟩ := List.isSuffixOf_iff_suffix.mp ends
  have cut : rest ++ ".gz.metadata.json".toList =
      (location ++ "/metadata").toList ++ "/v0.metadata.json".toList := by
    simpa using same
  have last := List.append_inj_right' cut (by simp)
  simp at last

/-- Nothing is found without a panic only where nothing is listed. -/
theorem nil_of_lastListed {directory : List String} {found : List FilePath}
    (matched : ∀ path ∈ found, listed directory path = true) {e : Error}
    (missing : lastListed found directory = .error e) (returned : ∀ what, e ≠ .panicked what) :
    found = [] := by
  unfold lastListed at missing
  split at missing
  · rename_i same
    split at missing
    · cases missing
    · rename_i none_
      rw [List.eq_nil_iff_forall_not_mem]
      intro path member
      have versioned : isVersioned path.name = true := by
        have here := of_decide_eq_true (List.all_eq_true.mp same path member)
        have listed := matched path member
        rw [FileNames.listed, here, nested_self, Bool.or_false, Bool.and_eq_true] at listed
        exact listed.2
      have empty := List.getLast?_eq_none_iff.mp none_
      have nothing : (found.map FilePath.metadataPath).filter FileCatalog.MetadataPath.isVersioned =
          [] := by
        have perm := List.perm_insertionSort
          (fun x y : FileCatalog.MetadataPath => x.version ≤ y.version)
          ((found.map FilePath.metadataPath).filter FileCatalog.MetadataPath.isVersioned)
        rw [empty] at perm
        exact perm.symm.eq_nil
      have inside := List.filter_eq_nil_iff.mp nothing _ (List.mem_map_of_mem member)
      cases name : path.name with
      | versioned version gzipped =>
        exact inside (by simp [FilePath.metadataPath, FileCatalog.MetadataPath.isVersioned, name])
      | unique _ _ _ =>
        rw [name] at versioned
        cases versioned
  · split at missing
    · cases missing
    · cases missing
      exact absurd rfl (returned _)

/-- A file that is listed alone is found. -/
theorem lastListed_single (directory : List String) :
    lastListed [⟨directory, .versioned 0 false⟩] directory =
      .ok ⟨directory, .versioned 0 false⟩ := by
  unfold lastListed
  rw [if_pos (by simp)]
  rfl

/-- Next to a file of another directory no file is found. -/
theorem lastListed_other {directory : List String} {found : List FilePath} {path other : FilePath}
    (member : path ∈ found) (here : path.directory = directory) (member' : other ∈ found)
    (elsewhere : other.directory ≠ directory) (result : FilePath) :
    lastListed found directory ≠ .ok result := by
  intro run
  unfold lastListed at run
  rw [if_neg] at run
  · split at run
    · rename_i single
      rw [List.mem_singleton] at member member'
      rw [member', ← member] at elsewhere
      exact elsewhere here
    · cases run
  · intro all
    exact elsewhere (of_decide_eq_true (List.all_eq_true.mp all other member'))

/-- The first files of both are written. -/
def fileFiled (warehouse : Warehouse) (store : FileStore) (location tableLocation : String)
    (view : GeneralViewMetadata Identifier) (table : TableMetadata) : FileStore :=
  (store.put warehouse location (.materializedView view)).put warehouse tableLocation (.table table)

theorem fileCreate_eq_ok_iff (absent : store.tabularExists warehouse identifier = .ok false)
    {result : FileStore × GeneralViewMetadata Identifier} :
    fileCreate warehouse identifier request draws store = .ok result ↔
      ∃ location tableLocation view table, warehouse.location identifier = .ok location ∧
        warehouse.location request.viewVersion.storageTable = .ok tableLocation ∧
        viewMetadata request draws (some location) = .ok view ∧
        tableMetadata request draws (some tableLocation) = .ok table ∧
        result = (fileFiled warehouse store location tableLocation view table, view) := by
  unfold fileCreate
  rw [absent, ok_bind]
  simp only [Bool.false_eq_true, if_false]
  constructor
  · intro run
    obtain ⟨location, located, run⟩ := bind_eq_ok.mp run
    obtain ⟨view, madeView, run⟩ := bind_eq_ok.mp run
    rw [(viewMetadata_eq_ok madeView).2, ok_bind] at run
    obtain ⟨tableLocation, located', run⟩ := bind_eq_ok.mp run
    obtain ⟨table, madeTable, same⟩ := bind_eq_ok.mp run
    exact ⟨location, tableLocation, view, table, located, located', madeView, madeTable,
      (Except.ok.inj same).symm⟩
  · rintro ⟨location, tableLocation, view, table, located, located', madeView, madeTable, rfl⟩
    refine bind_eq_ok.mpr ⟨location, located, bind_eq_ok.mpr ⟨view, madeView, ?_⟩⟩
    rw [(viewMetadata_eq_ok madeView).2, ok_bind]
    exact bind_eq_ok.mpr ⟨tableLocation, located', bind_eq_ok.mpr ⟨table, madeTable, rfl⟩⟩

/-- What a name has to be for its first file to be found: it was not given up in a rename, and
listings return its path as it is written. -/
def Visible (warehouse : Warehouse) (store : FileStore) (identifier : Identifier) : Prop :=
  store.renamedAway identifier = false ∧ warehouse.isPlain identifier = true

variable {name : Identifier}

open FileStore

/-- Where a visible name is, if it was not renamed. -/
theorem metadataLocation_of_visible {location : String}
    (own : store.renamedTables.lookup name = none)
    (located : warehouse.location name = .ok location)
    (visible : store.renamedAway name = false ∧ warehouse.plain location = true) :
    store.metadataLocation warehouse name =
      lastListed (store.files.keys.filter (listed (warehouse.segments location)))
        (warehouse.segments location) := by
  have physical : store.physicalIdentifier name = name := by
    rw [physicalIdentifier, own]
    rfl
  unfold metadataLocation
  rw [visible.1, physical, located, ok_bind]
  simp only [Bool.false_eq_true, if_false, visible.2, if_true]

theorem metadataLocation_of_hidden {location : String}
    (own : store.renamedTables.lookup name = none)
    (located : warehouse.location name = .ok location)
    (hidden : ¬ (store.renamedAway name = false ∧ warehouse.plain location = true)) :
    store.metadataLocation warehouse name = .error .catalogNotFound := by
  have physical : store.physicalIdentifier name = name := by
    rw [physicalIdentifier, own]
    rfl
  unfold metadataLocation
  cases away : store.renamedAway name with
  | true => rfl
  | false =>
    have encoded : warehouse.plain location = false := by
      rw [Bool.eq_false_iff]
      exact fun plain => hidden ⟨away, plain⟩
    rw [physical, located, ok_bind, encoded]
    rfl

/-- A name that does not exist and would be visible has no files. -/
theorem nothing_listed {location : String} (own : store.renamedTables.lookup name = none)
    (located : warehouse.location name = .ok location)
    (visible : store.renamedAway name = false ∧ warehouse.plain location = true)
    (absent : store.tabularExists warehouse name = .ok false) :
    store.files.keys.filter (listed (warehouse.segments location)) = [] := by
  unfold tabularExists at absent
  rw [metadataLocation_of_visible own located visible] at absent
  cases missing : lastListed (store.files.keys.filter (listed (warehouse.segments location)))
      (warehouse.segments location) with
  | ok path =>
    rw [missing] at absent
    cases absent
  | error e =>
    refine nil_of_lastListed (fun path member => (List.mem_filter.mp member).2) missing ?_
    rintro what rfl
    rw [missing] at absent
    cases absent

section Filed

variable {location tableLocation : String} {view : GeneralViewMetadata Identifier}
  {table : TableMetadata}

theorem mem_keys_fileFiled {path : FilePath} :
    path ∈ (fileFiled warehouse store location tableLocation view table).files.keys ↔
      path = firstFile warehouse tableLocation ∨ path = firstFile warehouse location ∨
        path ∈ store.files.keys := by
  rw [← AList.mem_keys, ← AList.mem_keys]
  exact (AList.mem_insert _).trans (or_congr_right (AList.mem_insert _))

/-- In a directory that was empty, the first file of the storage table is found unless the path of
the view is taken for a version of it. -/
theorem lastListed_fileFiled_iff
    (empty : store.files.keys.filter (listed (warehouse.segments tableLocation)) = [])
    {path : FilePath} :
    lastListed ((fileFiled warehouse store location tableLocation view table).files.keys.filter
        (listed (warehouse.segments tableLocation))) (warehouse.segments tableLocation) = .ok path ↔
      nested (warehouse.segments tableLocation) (warehouse.segments location) = false ∧
        path = firstFile warehouse tableLocation := by
  have here : firstFile warehouse tableLocation ∈
      (fileFiled warehouse store location tableLocation view table).files.keys.filter
        (listed (warehouse.segments tableLocation)) := by
    refine List.mem_filter.mpr ⟨mem_keys_fileFiled.mpr (.inl rfl), ?_⟩
    simp [listed, firstFile, isVersioned]
  cases nests : nested (warehouse.segments tableLocation) (warehouse.segments location) with
  | true =>
    refine iff_of_false ?_ fun both => Bool.noConfusion both.1
    have other : firstFile warehouse location ∈
        (fileFiled warehouse store location tableLocation view table).files.keys.filter
          (listed (warehouse.segments tableLocation)) := by
      refine List.mem_filter.mpr ⟨mem_keys_fileFiled.mpr (.inr (.inl rfl)), ?_⟩
      simp [listed, firstFile, nests]
    refine lastListed_other here rfl other (fun same => ?_) path
    have same : warehouse.segments location = warehouse.segments tableLocation := same
    rw [same, nested_self] at nests
    cases nests
  | false =>
    have only : ∀ path ∈ (fileFiled warehouse store location tableLocation view table).files.keys.filter
        (listed (warehouse.segments tableLocation)), path = firstFile warehouse tableLocation := by
      intro path member
      obtain ⟨there, matched⟩ := List.mem_filter.mp member
      rcases mem_keys_fileFiled.mp there with rfl | rfl | before
      · rfl
      · rw [listed, firstFile, nests, Bool.or_false, Bool.and_eq_true] at matched
        have same : warehouse.segments location = warehouse.segments tableLocation :=
          of_decide_eq_true matched.1
        rw [firstFile, firstFile, same]
      · exact absurd (empty ▸ List.mem_filter.mpr ⟨before, matched⟩) List.not_mem_nil
    have nodup : ((fileFiled warehouse store location tableLocation view table).files.keys.filter
        (listed (warehouse.segments tableLocation))).Nodup := (AList.keys_nodup _).filter _
    generalize (fileFiled warehouse store location tableLocation view table).files.keys.filter
      (listed (warehouse.segments tableLocation)) = found at here only nodup
    have single : found = [firstFile warehouse tableLocation] := by
      cases found with
      | nil => exact absurd here List.not_mem_nil
      | cons first rest =>
        obtain rfl := only first List.mem_cons_self
        cases rest with
        | nil => rfl
        | cons second rest =>
          obtain rfl := only second (by simp)
          exact absurd List.mem_cons_self (List.nodup_cons.mp nodup).1
    have found_ := lastListed_single (warehouse.segments tableLocation)
    rw [single, firstFile, found_, Except.ok.injEq, eq_comm]
    exact (and_iff_right rfl).symm

/-- What is loaded under the name of the storage table. -/
theorem loadSchema_fileFiled_iff (faithful : raw.Faithful)
    (own : store.renamedTables.lookup request.viewVersion.storageTable = none)
    (located : warehouse.location request.viewVersion.storageTable = .ok tableLocation)
    (absent : store.tabularExists warehouse request.viewVersion.storageTable = .ok false)
    (run : tableMetadata request draws (some tableLocation) = .ok table) :
    (fileFiled warehouse store location tableLocation view table).loadSchema warehouse raw
        request.viewVersion.storageTable = .ok request.schema ↔
      (store.renamedAway request.viewVersion.storageTable = false ∧
        warehouse.plain tableLocation = true) ∧
      nested (warehouse.segments tableLocation) (warehouse.segments location) = false ∧
      Creatable raw request := by
  by_cases visible : store.renamedAway request.viewVersion.storageTable = false ∧
      warehouse.plain tableLocation = true
  · rw [and_iff_right visible]
    have empty := nothing_listed own located visible absent
    have content : (fileFiled warehouse store location tableLocation view table).files.lookup
        (firstFile warehouse tableLocation) = some ⟨false, .table table⟩ := by
      refine (AList.lookup_insert _).trans ?_
      rw [serializeTabular, firstFile_plain]
    unfold loadSchema
    rw [@metadataLocation_of_visible warehouse
      (fileFiled warehouse store location tableLocation view table) _ _ own located visible,
      bind_eq_ok]
    have schema := @schemaOfFile_eq_ok_iff raw request draws _ faithful table run false
    constructor
    · rintro ⟨path, found, loaded⟩
      obtain ⟨apart, rfl⟩ := (lastListed_fileFiled_iff empty).mp found
      rw [content] at loaded
      exact ⟨apart, (schema.mp loaded).2⟩
    · rintro ⟨apart, creatable⟩
      refine ⟨_, (lastListed_fileFiled_iff empty).mpr ⟨apart, rfl⟩, ?_⟩
      rw [content]
      exact schema.mpr ⟨rfl, creatable⟩
  · refine iff_of_false ?_ fun all => visible all.1
    unfold loadSchema
    rw [@metadataLocation_of_hidden warehouse
      (fileFiled warehouse store location tableLocation view table) _ _ own located visible]
    exact nofun

end Filed

theorem levels_ne_nil_of_visible (own : store.renamedTables.lookup name = none)
    (absent : store.tabularExists warehouse name = .ok false)
    (visible : store.renamedAway name = false) :
    ∃ location, warehouse.location name = .ok location := by
  have physical : store.physicalIdentifier name = name := by
    rw [physicalIdentifier, own]
    rfl
  unfold tabularExists metadataLocation at absent
  rw [visible, physical] at absent
  cases levels : name.ns.levels with
  | nil =>
    have missing : warehouse.location name = .error (.panicked "index out of bounds") := by
      unfold Warehouse.location
      rw [levels]
    rw [missing] at absent
    cases absent
  | cons first rest =>
    unfold Warehouse.location
    rw [levels]
    exact ⟨_, rfl⟩

/-- The file catalog keeps the promise if the name of the storage table was not given up in a rename,
its path is listed as it is written and the path of the view is not taken for a version of it. -/
theorem file_hasStorage_iff (faithful : raw.Faithful) (built : Built identifier request)
    (own : store.renamedTables.lookup request.viewVersion.storageTable = none)
    (absent : store.tabularExists warehouse identifier = .ok false)
    (absent' : store.tabularExists warehouse request.viewVersion.storageTable = .ok false) :
    HasStorage identifier request.schema (fileCreate warehouse identifier request draws store)
        (fun store => store.loadSchema warehouse raw) ↔
      Visible warehouse store request.viewVersion.storageTable ∧
        nested (warehouse.directory request.viewVersion.storageTable)
          (warehouse.directory identifier) = false ∧ Creatable raw request := by
  have places : ∀ {location tableLocation : String}, warehouse.location identifier = .ok location →
      warehouse.location request.viewVersion.storageTable = .ok tableLocation →
      warehouse.directory identifier = warehouse.segments location ∧
        warehouse.directory request.viewVersion.storageTable = warehouse.segments tableLocation ∧
        warehouse.isPlain request.viewVersion.storageTable = warehouse.plain tableLocation := by
    intro location tableLocation located located'
    unfold Warehouse.directory Warehouse.isPlain
    rw [located, located']
    exact ⟨rfl, rfl, rfl⟩
  constructor
  · rintro ⟨state, view, version, run, current, -, loaded⟩
    obtain ⟨location, tableLocation, view', table, located, located', madeView, madeTable, same⟩ :=
      (fileCreate_eq_ok_iff absent).mp run
    cases same
    cases (viewMetadata_eq_ok madeView).2.symm.trans current
    obtain ⟨directory, directory', plain⟩ := places located located'
    unfold Visible
    rw [directory, directory', plain]
    exact (loadSchema_fileFiled_iff faithful own located' absent' madeTable).mp loaded
  · rintro ⟨visible, apart, creatable⟩
    obtain ⟨tableLocation, located'⟩ := levels_ne_nil_of_visible own absent' visible.1
    have located : ∃ location, warehouse.location identifier = .ok location := by
      unfold Warehouse.location at located' ⊢
      rw [built.storageTable] at located'
      cases levels : identifier.ns.levels with
      | nil =>
        rw [levels] at located'
        cases located'
      | cons first rest => exact ⟨_, rfl⟩
    obtain ⟨location, located⟩ := located
    obtain ⟨table, madeTable⟩ := @tableMetadata_ok request draws tableLocation creatable.formatVersion
    have madeView : ∃ view, viewMetadata request draws (some location) = .ok view := ⟨_, rfl⟩
    obtain ⟨view, madeView⟩ := madeView
    obtain ⟨directory, directory', plain⟩ := places located located'
    unfold Visible at visible
    rw [plain] at visible
    rw [directory, directory'] at apart
    refine ⟨_, view, _, (fileCreate_eq_ok_iff absent).mpr
      ⟨location, tableLocation, view, table, located, located', madeView, madeTable, rfl⟩,
      (viewMetadata_eq_ok madeView).2, fun same => built.apart (congrArg Identifier.name same), ?_⟩
    exact (loadSchema_fileFiled_iff faithful own located' absent' madeTable).mpr
      ⟨visible, apart, creatable⟩

end Files

/-! ### All catalogs -/

/-- A catalog with what it finds. -/
inductive Service where
  | rest (lake : Lake)
  | sql (lake : Lake)
  | file (warehouse : Warehouse) (store : FileStore)
  | glue (lake : Lake)
  | s3Tables (warehouseLocation : Identifier → String) (lake : Lake)

namespace Service

variable (raw : RawJson) (identifier : Identifier) (request : CreateMaterializedView) (draws : Draws)

/-- Neither of the two names exists.  In a file catalog a name a table was renamed to exists. -/
def Absent : Service → Prop
  | rest lake | sql lake | glue lake | s3Tables _ lake => Lake.key identifier ∉ lake.names ∧
      Lake.key request.viewVersion.storageTable ∉ lake.names
  | file warehouse store => store.renamedTables.lookup request.viewVersion.storageTable = none ∧
      store.tabularExists warehouse identifier = .ok false ∧
      store.tabularExists warehouse request.viewVersion.storageTable = .ok false

/-- The creation leaves a storage table behind. -/
def Keeps : Service → Prop
  | rest lake =>
    HasStorage identifier request.schema (restCreate identifier request draws lake)
      (Lake.loadSchema raw)
  | sql lake =>
    HasStorage identifier request.schema (sqlCreate identifier request draws lake)
      (Lake.loadSchema raw)
  | file warehouse store =>
    HasStorage identifier request.schema (fileCreate warehouse identifier request draws store)
      (fun store => store.loadSchema warehouse raw)
  | glue lake =>
    HasStorage identifier request.schema (glueCreate identifier request draws lake)
      (Lake.loadSchema raw)
  | s3Tables warehouseLocation lake =>
    HasStorage identifier request.schema
      (s3TablesCreate identifier request draws warehouseLocation lake) (Lake.loadSchema raw)

/-- When it does. -/
def Ready : Service → Prop
  | rest _ | s3Tables _ _ => False
  | sql _ => request.location.isSome = true ∧ Creatable raw request ∧ Uncompressed request
  | glue _ => request.viewVersion.schemaId = 0 ∧ request.location.isSome = true ∧
      Creatable raw request ∧ Uncompressed request
  | file warehouse store => Visible warehouse store request.viewVersion.storageTable ∧
      nested (warehouse.directory request.viewVersion.storageTable)
        (warehouse.directory identifier) = false ∧ Creatable raw request

end Service

/-- A materialized view that is built and created has its storage table exactly in these cases. -/
theorem created_iff {raw : RawJson} (faithful : raw.Faithful)
    {builder : CreateMaterializedViewBuilder} {ns : List String} {catalogName : String}
    {identifier : Identifier} {request : CreateMaterializedView}
    (run : builder.build ns catalogName = .ok (identifier, request)) (draws : Draws)
    (service : Service) (absent : service.Absent identifier request) :
    service.Keeps raw identifier request draws ↔ service.Ready raw identifier request := by
  have built := built_of_build run
  cases service with
  | rest lake =>
    refine iff_of_false ?_ id
    rintro ⟨state, view, version, created, -⟩
    exact restCreate_ne_ok _ created
  | s3Tables warehouseLocation lake =>
    refine iff_of_false ?_ id
    rintro ⟨state, view, version, created, -⟩
    exact s3TablesCreate_ne_ok warehouseLocation _ created
  | sql lake =>
    have filed := hasStorage_iff_of_filed faithful built
      (@sqlCreate_eq_ok_iff _ _ draws _ built absent.1 absent.2)
    rwa [true_and] at filed
  | glue lake =>
    exact hasStorage_iff_of_filed faithful built
      (@glueCreate_eq_ok_iff _ _ draws _ built absent.1 absent.2)
  | file warehouse store => exact file_hasStorage_iff faithful built absent.1 absent.2.1 absent.2.2

/-- A view over the columns of `nestedTable`. -/
def dailyTotals : CreateMaterializedViewBuilder where
  name := some "totals"
  location := some "s3://warehouse/totals"
  schema := some (nestedTable 0 2).schema
  viewVersion := some ⟨0, 0, 0, ⟨.create, none, none⟩, [.sql "SELECT x FROM orders" "ansi"], none, [],
    ⟨⟨[]⟩, ""⟩⟩
  properties := ∅
  partitionSpec := none
  writeOrder := none
  tableProperties := none

/-- The name of the view and the request for it. -/
def totalsRequest : Except Error (Identifier × CreateMaterializedView) :=
  dailyTotals.build ["sales"] "lake"

theorem dailyTotals_kept : ∃ identifier request, totalsRequest = .ok (identifier, request) ∧
    (Service.sql ⟨∅, ∅⟩).Keeps nullOrOne identifier request ⟨⟨1⟩, ⟨2⟩, ⟨3⟩, ⟨4⟩, 0⟩ := by
  have run : dailyTotals.build ["sales"] "lake" = .ok _ := rfl
  obtain ⟨producible, written⟩ := (givenBack_iff nullOrOne_faithful).mp nestedTable_givenBack
  refine ⟨_, _, run, (created_iff nullOrOne_faithful run _ (.sql ⟨∅, ∅⟩)
    ⟨AList.notMem_empty _, AList.notMem_empty _⟩).mpr ?_⟩
  exact ⟨rfl, ⟨⟨.v2, rfl⟩, rfl, producible, written⟩, rfl⟩

/-- Where no name exists, a REST server and S3 Tables refuse one of the two requests. -/
theorem dailyTotals_refused : ∃ identifier request, totalsRequest = .ok (identifier, request) ∧
    (∀ draws, (Service.rest ⟨∅, ∅⟩).Absent identifier request ∧
      ¬ (Service.rest ⟨∅, ∅⟩).Keeps nullOrOne identifier request draws) ∧
    ∀ draws warehouseLocation,
      (Service.s3Tables warehouseLocation ⟨∅, ∅⟩).Absent identifier request ∧
        ¬ (Service.s3Tables warehouseLocation ⟨∅, ∅⟩).Keeps nullOrOne identifier request draws := by
  refine ⟨_, _, rfl, fun draws => ⟨⟨AList.notMem_empty _, AList.notMem_empty _⟩, ?_⟩,
    fun draws warehouseLocation => ⟨⟨AList.notMem_empty _, AList.notMem_empty _⟩, ?_⟩⟩
  · rintro ⟨state, view, version, created, -⟩
    exact restCreate_ne_ok _ created
  · rintro ⟨state, view, version, created, -⟩
    exact s3TablesCreate_ne_ok warehouseLocation _ created

end IcebergRust.MaterializedViews

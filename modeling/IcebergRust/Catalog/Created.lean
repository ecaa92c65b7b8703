import IcebergRust.Catalog.Marks
import IcebergRust.Catalog.Stored
import IcebergRust.Spec.TypeJson
import IcebergRust.View.MetadataJson

/-!
# Created metadata

What tables and views start with: `CreateTableBuilder` and the conversions of
`iceberg-rust/src/catalog/create.rs`.

* The conversions put a schema, a spec and a view version under id 0, whatever their own ids are; a
  sort order keeps its id.  The builder compares the ids of top-level fields only.
* `Sound` is that metadata is consistent with itself and with the file it is stored in;
  `table_sound_iff` and `view_sound_iff` say of which requests it is.
-/

namespace IcebergRust

open Fallible View

/-! ### Builders -/

/-- `CreateTableBuilder`. -/
structure CreateTableBuilder where
  name : Option String
  location : Option String
  schema : Option Schema
  partitionSpec : Option PartitionSpec
  writeOrder : Option SortOrder
  properties : Option (HashMap String String)

namespace CreateTableBuilder

/-- Whether an id is that of a top-level field. -/
def hasField (schema : Schema) (id : Int) : Bool :=
  schema.fields.fields.any fun field => field.id = id

/-- A field of a builder that must be set. -/
def required {α : Type} (field : Option α) (e : Error) : Except Error α :=
  match field with
  | some value => .ok value
  | none => .error e

/-- The check of the partition spec. -/
def validateSpec (name : String) (schema : Schema) : Option PartitionSpec → Except Error Unit
  | none => .ok ()
  | some spec =>
    match spec.fields.find? fun field => ¬ hasField schema field.sourceId with
    | none => .ok ()
    | some field => .error (.notFound ("Partition field '" ++ field.name ++
        "' references non-existent schema field ID " ++ toString field.sourceId ++ " in table '" ++
        name ++ "'"))

/-- The check of the sort order: id 0 is that of the unsorted one. -/
def validateOrder (name : String) (schema : Schema) : Option SortOrder → Except Error Unit
  | none => .ok ()
  | some order =>
    if order.orderId = 0 ∧ order.fields ≠ [] then
      .error (.invalidFormat ("Sort order for table '" ++ name ++
        "' has fields but uses order id 0, which is reserved for the unsorted order"))
    else
      match order.fields.find? fun field => ¬ hasField schema field.sourceId with
      | none => .ok ()
      | some field =>
        .error (.notFound ("Sort order field references non-existent schema field ID " ++
          toString field.sourceId ++ " in table '" ++ name ++ "'"))

/-- `CreateTableBuilder::validate`. -/
def validate (builder : CreateTableBuilder) : Except Error Unit := do
  let name ← required builder.name (.notFound "Table name is required")
  let schema ← required builder.schema (.notFound "Table schema is required")
  if ¬ (schema.fields.fields.map (·.id)).Nodup then
    .error (.invalidFormat ("Schema for table '" ++ name ++ "' contains duplicate field IDs"))
  else do
    validateSpec name schema builder.partitionSpec
    validateOrder name schema builder.writeOrder

/-- `CreateTableBuilder::create`. -/
def create (builder : CreateTableBuilder) : Except Error CreateTable := do
  builder.validate
  let name ← required builder.name (.deriveBuilder "name")
  let schema ← required builder.schema (.deriveBuilder "schema")
  .ok ⟨name, builder.location, schema, builder.partitionSpec, builder.writeOrder,
    builder.properties⟩

end CreateTableBuilder

/-- `CreateView`. -/
structure CreateView (T : Type) where
  name : String
  location : Option String
  schema : Schema
  viewVersion : Version T
  properties : HashMap String String

/-- `TryInto<ViewMetadata>` and, where `what` says so, `TryInto<MaterializedViewMetadata>` for
`CreateView`, with a new UUID. -/
def CreateView.tryInto {T : Type} (what : String) (create : CreateView T) (viewUuid : Uuid) :
    Except Error (GeneralViewMetadata T) :=
  match create.location with
  | none => .error (.notFound ("Location for " ++ what ++ " " ++ create.name))
  | some location => .ok {
      viewUuid
      formatVersion := .v1
      location
      currentVersionId := 0
      versions := HashMap.fromIter [(0, create.viewVersion)]
      versionLog := []
      schemas := HashMap.fromIter [(0, create.schema)]
      properties := create.properties }

/-- `CreateMaterializedView`. -/
structure CreateMaterializedView where
  name : String
  location : Option String
  schema : Schema
  viewVersion : Version Identifier
  properties : HashMap String String
  partitionSpec : Option PartitionSpec
  writeOrder : Option SortOrder
  tableProperties : Option (HashMap String String)

/-- `From<CreateMaterializedView>`: the view. -/
def CreateMaterializedView.view (create : CreateMaterializedView) : CreateView Identifier where
  name := create.name
  location := create.location
  schema := create.schema
  viewVersion := create.viewVersion
  properties := create.properties

/-- `From<CreateMaterializedView>`: its storage table. -/
def CreateMaterializedView.storageTable (create : CreateMaterializedView) : CreateTable where
  name := create.viewVersion.storageTable.name
  location := create.location
  schema := create.schema
  partitionSpec := create.partitionSpec
  writeOrder := create.writeOrder
  properties := create.tableProperties

/-! ### Sound metadata -/

section Sound

variable (raw : RawJson)

/-- The fields of a schema come back from their JSON. -/
def Schema.GivenBack (schema : Schema) : Prop :=
  IcebergType.deserialize raw ((IcebergType.struct schema.fields).toJson raw) =
    .ok (.struct schema.fields)

/-- A schema that can be created under id 0. -/
structure Schema.Plain (schema : Schema) : Prop where
  id : schema.schemaId = 0
  /-- Nested fields have other ids, too. -/
  distinct : schema.fields.fieldIds.Nodup
  /-- Its types and defaults are those a file can hold. -/
  producible : (IcebergType.struct schema.fields).Producible raw
  written : (IcebergType.struct schema.fields).Written

/-- Table metadata that is consistent with itself and with its file. -/
structure TableMetadata.Sound (metadata : TableMetadata) : Prop where
  schemas : Keyed Schema.schemaId metadata.schemas
  partitionSpecs : Keyed PartitionSpec.specId metadata.partitionSpecs
  sortOrders : Keyed SortOrder.orderId metadata.sortOrders
  currentSchema : metadata.currentSchemaId ∈ metadata.schemas
  defaultSpec : metadata.defaultSpecId ∈ metadata.partitionSpecs
  defaultSortOrder : metadata.defaultSortOrderId ∈ metadata.sortOrders
  lastColumnId : ∀ id schema, metadata.schemas.lookup id = some schema →
    ∀ field ∈ schema.fields.fieldIds, field ≤ metadata.lastColumnId
  distinct : ∀ id schema, metadata.schemas.lookup id = some schema →
    schema.fields.fieldIds.Nodup
  survives : Survives metadata
  types : ∀ id schema, metadata.schemas.lookup id = some schema → schema.GivenBack raw

/-- View metadata that is consistent with itself and with its file. -/
structure View.GeneralViewMetadata.Sound {T : Type} [Materialization T]
    (metadata : GeneralViewMetadata T) : Prop where
  versions : Keyed Version.versionId metadata.versions
  schemas : Keyed Schema.schemaId metadata.schemas
  currentVersion : ∃ version, metadata.currentVersion none = .ok version
  currentSchema : ∃ schema, metadata.currentSchema none = .ok schema
  distinct : ∀ id schema, metadata.schemas.lookup id = some schema →
    schema.fields.fieldIds.Nodup
  survives : metadata.Survives
  types : ∀ id schema, metadata.schemas.lookup id = some schema → schema.GivenBack raw

variable {raw}

/-- Which schemas come back from their JSON. -/
theorem givenBack_iff (faithful : raw.Faithful) {schema : Schema} : schema.GivenBack raw ↔
    (IcebergType.struct schema.fields).Producible raw ∧
      (IcebergType.struct schema.fields).Written := by
  constructor
  · intro back
    have producible := (sound_parsed _).type _ back
    exact ⟨producible, (deserialize_toJson faithful producible).mp back⟩
  · rintro ⟨producible, written⟩
    exact (deserialize_toJson faithful producible).mpr written

theorem lookup_single {β : Type} {k k' : Int} {value found : β} :
    (HashMap.fromIter [(k, value)] : HashMap Int β).lookup k' = some found ↔
      k' = k ∧ found = value := by
  show AList.lookup k' (AList.insert k value (∅ : HashMap Int β)) = some found ↔ _
  by_cases here : k' = k
  · subst here
    rw [AList.lookup_insert, Option.some.injEq, eq_comm]
    exact (and_iff_right rfl).symm
  · rw [AList.lookup_insert_ne here, AList.lookup_empty]
    exact iff_of_false nofun fun both => here both.1

theorem keyed_single_iff {β : Type} {key : β → Int} {value : β} {k : Int} :
    Keyed key (HashMap.fromIter [(k, value)]) ↔ key value = k := by
  constructor
  · intro keyed
    exact keyed k value (lookup_single.mpr ⟨rfl, rfl⟩)
  · exact keyed_single

/-! ### Which requests lead to sound metadata -/

variable {create : CreateTable} {tableUuid : Uuid} {now : Int} {metadata : TableMetadata}

/-- What the maps of a created table hold. -/
theorem created_maps (run : create.tryInto tableUuid now = .ok metadata) :
    (metadata.schemas = HashMap.fromIter [(0, create.schema)] ∧ metadata.currentSchemaId = 0) ∧
    (metadata.partitionSpecs = HashMap.fromIter [(0, create.partitionSpec.getD default)] ∧
      metadata.defaultSpecId = 0) ∧
    (∃ order : SortOrder, metadata.sortOrders = HashMap.fromIter [(order.orderId, order)] ∧
      metadata.defaultSortOrderId = order.orderId) ∧
    metadata.lastColumnId = create.schema.fields.maxFieldId.getD 0 := by
  simp only [CreateTable.tryInto, bind_eq_ok] at run
  obtain ⟨formatVersion, -, run⟩ := run
  split at run
  · cases run
  · injection run with same
    subst same
    exact ⟨⟨rfl, rfl⟩, ⟨rfl, rfl⟩, ⟨_, rfl, rfl⟩, rfl⟩

/-- A created table is sound exactly if its schema and its spec could be put under id 0. -/
theorem table_sound_iff (faithful : raw.Faithful)
    (run : create.tryInto tableUuid now = .ok metadata) :
    metadata.Sound raw ↔
      create.schema.Plain raw ∧ (create.partitionSpec.getD default).specId = 0 := by
  obtain ⟨⟨schemas, currentSchema⟩, ⟨specs, defaultSpec⟩, ⟨order, orders, defaultOrder⟩, last⟩ :=
    created_maps run
  have only {id : Int} {schema : Schema} :
      metadata.schemas.lookup id = some schema ↔ id = 0 ∧ schema = create.schema := by
    rw [schemas]
    exact lookup_single
  constructor
  · intro sound
    have here := only.mpr ⟨rfl, rfl⟩
    obtain ⟨producible, written⟩ := (givenBack_iff faithful).mp (sound.types 0 _ here)
    refine ⟨⟨sound.schemas 0 _ here, sound.distinct 0 _ here, producible, written⟩, ?_⟩
    exact keyed_single_iff.mp (specs ▸ sound.partitionSpecs)
  · rintro ⟨plain, spec⟩
    have storable := storable_created run plain.id spec
    have reached : Reached metadata := .created run
    exact {
      schemas := storable.schemas
      partitionSpecs := storable.partitionSpecs
      sortOrders := (consistent_created run).sortOrders
      currentSchema := storable.currentSchema
      defaultSpec := by
        rw [specs, defaultSpec]
        exact (AList.mem_insert _).mpr (.inl rfl)
      defaultSortOrder := by
        rw [orders, defaultOrder]
        exact (AList.mem_insert _).mpr (.inl rfl)
      lastColumnId := by
        intro id schema found field member
        obtain ⟨-, rfl⟩ := only.mp found
        obtain ⟨largest, max, below⟩ := create.schema.fields.fieldIds_le field member
        rw [last, Option.mem_def.mp max]
        exact below
      distinct := by
        intro id schema found
        obtain ⟨-, rfl⟩ := only.mp found
        exact plain.distinct
      survives := (reached_survives_iff reached).mpr storable
      types := by
        intro id schema found
        obtain ⟨-, rfl⟩ := only.mp found
        exact (givenBack_iff faithful).mpr ⟨plain.producible, plain.written⟩ }

section Views

variable {T : Type} [Materialization T] {what : String} {viewUuid : Uuid} {request : CreateView T}
  {view : GeneralViewMetadata T}

/-- A created view is sound exactly if its schema and its version could be put under id 0, the
version is of that schema and its storage table comes back. -/
theorem view_sound_iff (faithful : raw.Faithful)
    (run : request.tryInto what viewUuid = .ok view) :
    view.Sound raw ↔ request.schema.Plain raw ∧ request.viewVersion.versionId = 0 ∧
      request.viewVersion.schemaId = 0 ∧ Kept request.viewVersion.storageTable := by
  have maps : view.currentVersionId = 0 ∧
      view.versions = HashMap.fromIter [(0, request.viewVersion)] ∧
      view.schemas = HashMap.fromIter [(0, request.schema)] := by
    unfold CreateView.tryInto at run
    split at run
    · cases run
    · injection run with same
      subst same
      exact ⟨rfl, rfl, rfl⟩
  obtain ⟨current, versions, schemas⟩ := maps
  have onlySchema {id : Int} {schema : Schema} :
      view.schemas.lookup id = some schema ↔ id = 0 ∧ schema = request.schema := by
    rw [schemas]
    exact lookup_single
  have onlyVersion {id : Int} {version : Version T} :
      view.versions.lookup id = some version ↔ id = 0 ∧ version = request.viewVersion := by
    rw [versions]
    exact lookup_single
  have version : view.currentVersion none = .ok request.viewVersion := by
    refine GeneralViewMetadata.currentVersion_eq_ok.mpr (onlyVersion.mpr ⟨?_, rfl⟩)
    exact current
  constructor
  · intro sound
    have schemaHere := onlySchema.mpr ⟨rfl, rfl⟩
    have versionHere := onlyVersion.mpr ⟨rfl, rfl⟩
    obtain ⟨producible, written⟩ := (givenBack_iff faithful).mp (sound.types 0 _ schemaHere)
    obtain ⟨-, -, kept⟩ := GeneralViewMetadata.survives_iff.mp sound.survives
    refine ⟨⟨sound.schemas 0 _ schemaHere, sound.distinct 0 _ schemaHere, producible, written⟩,
      sound.versions 0 _ versionHere, ?_, kept 0 _ versionHere⟩
    obtain ⟨schema, found⟩ := sound.currentSchema
    unfold GeneralViewMetadata.currentSchema at found
    rw [version, ok_bind] at found
    cases looked : view.schemas.lookup request.viewVersion.schemaId with
    | none =>
      rw [looked] at found
      cases found
    | some schema => exact (onlySchema.mp looked).1
  · rintro ⟨plain, versionId, schemaId, kept⟩
    have keyed : Keyed Version.versionId view.versions := by
      rw [versions]
      exact keyed_single versionId
    have keyed' : Keyed Schema.schemaId view.schemas := by
      rw [schemas]
      exact keyed_single plain.id
    exact {
      versions := keyed
      schemas := keyed'
      currentVersion := ⟨_, version⟩
      currentSchema := by
        refine ⟨request.schema, ?_⟩
        unfold GeneralViewMetadata.currentSchema
        rw [version, ok_bind, onlySchema.mpr ⟨schemaId, rfl⟩]
      distinct := by
        intro id schema found
        obtain ⟨-, rfl⟩ := onlySchema.mp found
        exact plain.distinct
      survives := by
        refine GeneralViewMetadata.survives_iff.mpr ⟨keyed, keyed', fun id version found => ?_⟩
        obtain ⟨-, rfl⟩ := onlyVersion.mp found
        exact kept
      types := by
        intro id schema found
        obtain ⟨-, rfl⟩ := onlySchema.mp found
        exact (givenBack_iff faithful).mpr ⟨plain.producible, plain.written⟩ }

end Views

theorem kept_plain {storageTable : Option Unit} : Kept storageTable ↔ storageTable = none := by
  constructor
  · intro kept
    exact (Except.ok.inj (kept rfl)).symm
  · rintro rfl _
    rfl

theorem kept_identifier (storageTable : Identifier) : Kept storageTable := nofun

/-- **Created metadata.**  Of the requests that are accepted exactly these lead to metadata that is
consistent with itself and with its file. -/
theorem creation_sound_iff (faithful : raw.Faithful) (viewUuid tableUuid : Uuid) (now : Int) :
    (∀ (builder : CreateTableBuilder) create metadata, builder.create = .ok create →
      create.tryInto tableUuid now = .ok metadata →
      (metadata.Sound raw ↔
        create.schema.Plain raw ∧ (create.partitionSpec.getD default).specId = 0)) ∧
    (∀ (request : CreateView (Option Unit)) view, request.tryInto "view" viewUuid = .ok view →
      (view.Sound raw ↔ request.schema.Plain raw ∧ request.viewVersion.versionId = 0 ∧
        request.viewVersion.schemaId = 0 ∧ request.viewVersion.storageTable = none)) ∧
    ∀ (request : CreateMaterializedView) view metadata,
      request.view.tryInto "materialized view" viewUuid = .ok view →
      request.storageTable.tryInto tableUuid now = .ok metadata →
      (view.Sound raw ∧ metadata.Sound raw ↔ request.schema.Plain raw ∧
        request.viewVersion.versionId = 0 ∧ request.viewVersion.schemaId = 0 ∧
        (request.partitionSpec.getD default).specId = 0) := by
  refine ⟨fun builder create metadata _ run => table_sound_iff faithful run, ?_, ?_⟩
  · intro request view run
    rw [view_sound_iff faithful run, kept_plain]
  · intro request view metadata run run'
    rw [view_sound_iff faithful run, table_sound_iff faithful run']
    constructor
    · rintro ⟨⟨plain, versionId, schemaId, -⟩, -, spec⟩
      exact ⟨plain, versionId, schemaId, spec⟩
    · rintro ⟨plain, versionId, schemaId, spec⟩
      exact ⟨⟨plain, versionId, schemaId, kept_identifier _⟩, plain, spec⟩

end Sound

/-! ### Requests -/

/-- The builder whose fields are set to those of a request. -/
def CreateTableBuilder.of (create : CreateTable) : CreateTableBuilder where
  name := some create.name
  location := create.location
  schema := some create.schema
  partitionSpec := create.partitionSpec
  writeOrder := create.writeOrder
  properties := create.properties

/-- The request for a table with one column, and a field in it under some id. -/
def nestedTable (schemaId inner : Int) : CreateTable where
  name := "table"
  location := some "s3://warehouse/table"
  schema := ⟨schemaId, none, ⟨[⟨1, "x", true, .struct ⟨[⟨inner, "y", true, .primitive .long,
    none, none, none⟩]⟩, none, none, none⟩]⟩⟩
  partitionSpec := none
  writeOrder := none
  properties := none

/-- The request for a view, under a version id. -/
def plainView (versionId : Int) : CreateView (Option Unit) where
  name := "view"
  location := some "s3://warehouse/view"
  schema := ⟨0, none, ⟨[]⟩⟩
  viewVersion := ⟨versionId, 0, 0, ⟨.create, none, none⟩, [.sql "SELECT 1" "ansi"], none,
    ["default"], none⟩
  properties := ∅

theorem nestedTable_accepted (schemaId inner : Int) :
    (CreateTableBuilder.of (nestedTable schemaId inner)).create =
      .ok (nestedTable schemaId inner) := rfl

/-- What the file of this table is read as. -/
theorem nestedTable_givenBack :
    (nestedTable 0 2).schema.GivenBack nullOrOne := rfl

theorem creation_sound_iff_nested : ∃ metadata,
    (nestedTable 0 2).tryInto ⟨1⟩ 0 = .ok metadata ∧ metadata.Sound nullOrOne := by
  have run : (nestedTable 0 2).tryInto ⟨1⟩ 0 = .ok _ := rfl
  obtain ⟨producible, written⟩ := (givenBack_iff nullOrOne_faithful).mp nestedTable_givenBack
  have sound := (creation_sound_iff nullOrOne_faithful ⟨2⟩ ⟨1⟩ 0).1 _ _ _
    (nestedTable_accepted 0 2) run
  exact ⟨_, run, sound.mpr ⟨⟨rfl, by decide, producible, written⟩, rfl⟩⟩

/-- A schema with id 5, a nested field with the id of its column, and a view whose version has id 1
are accepted. -/
theorem created_unsound :
    (∃ metadata, (CreateTableBuilder.of (nestedTable 5 2)).create = .ok (nestedTable 5 2) ∧
      (nestedTable 5 2).tryInto ⟨1⟩ 0 = .ok metadata ∧ ¬ metadata.Sound nullOrOne) ∧
    (∃ metadata, (CreateTableBuilder.of (nestedTable 0 1)).create = .ok (nestedTable 0 1) ∧
      (nestedTable 0 1).tryInto ⟨1⟩ 0 = .ok metadata ∧ ¬ metadata.Sound nullOrOne) ∧
    ∃ view, (plainView 1).tryInto "view" ⟨1⟩ = .ok view ∧ ¬ view.Sound nullOrOne := by
  have faithful := nullOrOne_faithful
  have run : (nestedTable 5 2).tryInto ⟨1⟩ 0 = .ok _ := rfl
  have run' : (nestedTable 0 1).tryInto ⟨1⟩ 0 = .ok _ := rfl
  have made : (plainView 1).tryInto "view" ⟨1⟩ = .ok _ := rfl
  refine ⟨⟨_, nestedTable_accepted 5 2, run, fun sound => ?_⟩,
    ⟨_, nestedTable_accepted 0 1, run', fun sound => ?_⟩, _, made, fun sound => ?_⟩
  · exact absurd ((table_sound_iff faithful run).mp sound).1.id (by decide)
  · exact absurd ((table_sound_iff faithful run').mp sound).1.distinct (by decide)
  · exact absurd ((view_sound_iff faithful made).mp sound).2.1 (by decide)

end IcebergRust

import IcebergRust.Catalog.FileTabulars
import IcebergRust.Catalog.SqlCommits
import IcebergRust.Catalog.SqlViews
import IcebergRust.Catalog.TokenCommits
import IcebergRust.View.Commits

/-!
# Loading what was committed

Every catalog writes metadata through `put_metadata`, which compresses it where the name of the
file says so, and parses what it loads as plain JSON: the metadata committed last is loaded if and
only if its file is not compressed (`loads_iff`).
-/

namespace IcebergRust

open TabularFiles VersionTokens

/-! ### Loads -/

/-- What `load_tabular` of an instance returns if nothing comes between its steps. -/
def SqlCatalog.loaded (catalog : Nat) (shared : Shared) : Option TableMetadata :=
  match (begin (.loadTabular catalog) shared).2 with
  | none => none
  | some call =>
    match (advance false call shared).2 with
    | some (.fetched _ version) => some version.metadata
    | _ => none

def SqlViews.loaded (catalog : Nat) (shared : Shared) : Option TabularMetadata :=
  match (begin (.loadTabular catalog) shared).2 with
  | none => none
  | some call =>
    match (advance call shared).2 with
    | some (.fetched _ version) => some version.metadata
    | _ => none

def FileTabulars.loaded (table : String) (catalog : Nat) (order : List FileCatalog.MetadataPath)
    (shared : Shared) : Option TabularMetadata :=
  match (begin table (.loadTabular catalog order) shared).2 with
  | none => none
  | some call =>
    match (advance table call shared).2 with
    | some (.known _ entry) => some entry.metadata
    | _ => none

/-- `system` is that of Glue or of S3 Tables. -/
def VersionTokens.loaded (system : Interleaving.System Shared Call Request Nat) (catalog : Nat)
    (identifier : Identifier) (shared : Shared) : Option TabularMetadata :=
  match (system.begin (.loadTabular catalog identifier) shared).2 with
  | none => none
  | some call =>
    match (system.advance 0 call shared).2 with
    | some (.fetched _ _ _ metadata) => some metadata
    | _ => none

/-! ### Compressed files -/

theorem TabularMetadata.endsWith_newMetadataLocation (metadata : TabularMetadata)
    (transactionUuid : Uuid) :
    endsWith (metadata.newMetadataLocation transactionUuid) ".gz.metadata.json" =
      metadataIsGzipped metadata.properties :=
  endsWith_metadataSuffix _ _ _

/-- The file of a version is named by `new_metadata_location`, and its metadata asks for
compression. -/
def TabularVersion.Compressed (version : TabularVersion) : Prop :=
  metadataIsGzipped version.metadata.properties = true ∧
    ∃ transactionUuid, version.location = version.metadata.newMetadataLocation transactionUuid

variable {version : TabularVersion}

/-- What a catalog names differently is not compressed. -/
theorem TabularFiles.Named.compressed_iff {transactionUuid : Uuid}
    (named : Named S3TablesCatalog.metadataLocation version transactionUuid) :
    version.file.gzipped = true ↔ version.Compressed := by
  have drawn : version.location = version.metadata.newMetadataLocation transactionUuid →
      (version.file.gzipped = true ↔ version.Compressed) := by
    intro same
    have encoding : version.file.gzipped = metadataIsGzipped version.metadata.properties := by
      rw [TabularVersion.file, serializeTabular, same, TabularMetadata.endsWith_newMetadataLocation]
    rw [encoding]
    exact ⟨fun asked => ⟨asked, transactionUuid, same⟩, fun compressed => compressed.1⟩
  have plain : ∀ start : String,
      version.location = start ++ transactionUuid.display ++ ".metadata.json" →
        (version.file.gzipped = true ↔ version.Compressed) := by
    intro start same
    have dotted : ".metadata.json" = "." ++ metadataSuffix false := by decide
    have encoding : version.file.gzipped = false := by
      rw [TabularVersion.file, serializeTabular, same, dotted, ← String.append_assoc,
        endsWith_metadataSuffix]
    constructor
    · intro asked
      exact absurd (encoding.symm.trans asked) Bool.false_ne_true
    · rintro ⟨asked, other, located⟩
      rw [TabularVersion.file, serializeTabular, located,
        TabularMetadata.endsWith_newMetadataLocation, asked] at encoding
      cases encoding
  rcases named with same | same
  · exact drawn same
  · cases content : version.metadata with
    | table metadata =>
      rw [content] at same
      refine drawn ?_
      rw [content]
      exact same
    | view metadata =>
      rw [content] at same
      exact plain _ same
    | materializedView metadata =>
      rw [content] at same
      exact plain _ same

theorem TabularFiles.Named.gzipped_eq {transactionUuid : Uuid}
    (named : Named TabularMetadata.newMetadataLocation version transactionUuid) :
    version.file.gzipped = metadataIsGzipped version.metadata.properties := by
  have same : version.location = version.metadata.newMetadataLocation transactionUuid :=
    named.elim id id
  rw [TabularVersion.file, serializeTabular, same, TabularMetadata.endsWith_newMetadataLocation]

/-! ### Each catalog -/

variable {shared : Shared}

theorem SqlCatalog.loaded_iff {initial : Version} (commits : Commits initial shared)
    (named : ∃ uuid, (latest initial shared.accepted).location =
      newMetadataLocation (latest initial shared.accepted).metadata uuid) (catalog : Nat) :
    loaded catalog shared = some (latest initial shared.accepted).metadata ↔
      metadataIsGzipped (latest initial shared.accepted).metadata.properties = false := by
  obtain ⟨uuid, same⟩ := named
  have encoding : endsWith shared.row.metadataLocation ".gz.metadata.json" =
      metadataIsGzipped (latest initial shared.accepted).metadata.properties := by
    rw [commits.row, same]
    exact endsWith_metadataSuffix _ _ _
  simp only [loaded, SqlCatalog.begin, advance, commits.stored, Option.map_some,
    MetadataFile.fromSlice, serializeMetadata, encoding]
  cases metadataIsGzipped (latest initial shared.accepted).metadata.properties <;> simp

theorem SqlViews.loaded_iff (filed : Filed shared) (row : shared.row = some version) (catalog : Nat) :
    loaded catalog shared = some version.metadata ↔
      metadataIsGzipped version.metadata.properties = false := by
  obtain ⟨holds, uuid, named⟩ := filed.row version row
  have holds : shared.files version.location = some version.file := holds
  rw [← named.gzipped_eq]
  simp only [loaded, SqlViews.begin, row, Option.map_some, advance, holds, TabularFile.fromSlice]
  cases version.file.gzipped <;> simp [TabularVersion.file, serializeTabular]

theorem FileTabulars.loaded_iff {table : String} {committed : Committed}
    (last : Last table shared.files committed) (catalog : Nat)
    (order : List FileCatalog.MetadataPath) :
    loaded table catalog order shared = some committed.metadata ↔ committed.compressed = false := by
  simp only [loaded, FileTabulars.begin, last.found order, Option.map_some, advance, last.stored,
    TabularFile.fromSlice]
  cases committed.compressed <;> simp

theorem VersionTokens.fetch_iff (holds : Holds shared.files version) (catalog : Nat)
    (identifier : Identifier) (token : Nat) :
    fetch catalog identifier token version.location shared =
      if version.file.gzipped then none
      else some (.fetched catalog identifier token version.metadata) := by
  have holds : shared.files version.location = some version.file := holds
  simp only [fetch, holds, Option.map_some, TabularFile.fromSlice]
  cases version.file.gzipped <;> simp [TabularVersion.file, serializeTabular]

theorem GlueCatalog.loaded_iff {shared : VersionTokens.Shared}
    (filed : VersionTokens.Filed TabularMetadata.newMetadataLocation shared)
    {identifier : Identifier} {entity : VersionTokens.Entity}
    (found : shared.entities identifier.key = some entity) (current : entity.current = some version)
    (catalog : Nat) :
    loaded system catalog identifier shared = some version.metadata ↔
      metadataIsGzipped version.metadata.properties = false := by
  have issued := filed.current _ entity found
  rw [current] at issued
  obtain ⟨holds, uuid, named⟩ := filed.stored _ issued version rfl
  simp only [loaded, system, begin, found, current, Option.map_some,
    advance, fetch_iff holds, ← named.gzipped_eq]
  cases version.file.gzipped <;> simp

theorem S3TablesCatalog.loaded_iff {shared : VersionTokens.Shared}
    (filed : VersionTokens.Filed metadataLocation shared) {identifier : Identifier}
    {entity : VersionTokens.Entity} (found : shared.entities identifier.key = some entity)
    (current : entity.current = some version) (catalog : Nat) :
    loaded system catalog identifier shared = some version.metadata ↔
      ¬ version.Compressed := by
  have issued := filed.current _ entity found
  rw [current] at issued
  obtain ⟨holds, uuid, named⟩ := filed.stored _ issued version rfl
  simp only [loaded, system, begin, found, current, Option.map_some,
    advance, fetch_iff holds, ← named.compressed_iff]
  cases version.file.gzipped <;> simp

/-! ### Runs -/

/-- The metadata of a table that has been created, updated and loaded in the SQL catalog is loaded
if it is not compressed, and only then. -/
theorem SqlCatalog.run_loaded (creator : Nat) (metadata : TableMetadata) (transactionUuid : Uuid)
    (new : metadata.metadataLog = []) (events : List Event) (catalog : Nat) :
    let shared := (runSql creator metadata transactionUuid events).shared
    let last := (latest (createdVersion metadata transactionUuid) shared.accepted).metadata
    loaded catalog shared = some last ↔ metadataIsGzipped last.properties = false := by
  have sound := (Interleaving.holds_run (keeps (createdVersion metadata transactionUuid) new)
    (created_holds creator metadata transactionUuid) events).shared
  refine loaded_iff (sound.commits new) ?_ catalog
  obtain ⟨uuid, -, same⟩ := sound.drawn _ (latest_mem_versions _ _)
  exact ⟨uuid, same⟩

/-- In every run, of any number of instances of each catalog, an instance loads the metadata that was
committed last if and only if the file of it is not compressed. -/
theorem loads_iff (catalog : Nat) :
    (∀ creator metadata transactionUuid events, metadata.metadataLog = [] →
      let shared := (SqlCatalog.runSql creator metadata transactionUuid events).shared
      let last := (SqlCatalog.latest (SqlCatalog.createdVersion metadata transactionUuid)
        shared.accepted).metadata
      SqlCatalog.loaded catalog shared = some last ↔
        metadataIsGzipped last.properties = false) ∧
    (∀ events version, (SqlViews.runViews events).shared.row = some version →
      (SqlViews.loaded catalog (SqlViews.runViews events).shared = some version.metadata ↔
        metadataIsGzipped version.metadata.properties = false)) ∧
    (∀ table events order committed,
      (∀ one ∈ (FileTabulars.runTabulars table events).shared.commits,
        FileTabulars.Newest table one) →
      (FileTabulars.runTabulars table events).shared.commits.head? = some committed →
      (FileTabulars.loaded table catalog order (FileTabulars.runTabulars table events).shared =
        some committed.metadata ↔ committed.compressed = false)) ∧
    (∀ events identifier entity version,
      (GlueCatalog.runGlue events).shared.entities identifier.key = some entity →
      entity.current = some version →
      (VersionTokens.loaded GlueCatalog.system catalog identifier
        (GlueCatalog.runGlue events).shared = some version.metadata ↔
          metadataIsGzipped version.metadata.properties = false)) ∧
    (∀ events identifier entity version,
      (S3TablesCatalog.runS3Tables events).shared.entities identifier.key = some entity →
      entity.current = some version →
      (VersionTokens.loaded S3TablesCatalog.system catalog identifier
        (S3TablesCatalog.runS3Tables events).shared = some version.metadata ↔
          ¬ version.Compressed)) := by
  refine ⟨?_, ?_, ?_, ?_, ?_⟩
  · intro creator metadata transactionUuid events new
    exact SqlCatalog.run_loaded creator metadata transactionUuid new events catalog
  · intro events version row
    exact SqlViews.loaded_iff (SqlViews.filed_run events) row catalog
  · intro table events order committed newest head
    exact FileTabulars.loaded_iff (FileTabulars.last_run table events newest committed head)
      catalog order
  · intro events identifier entity version found current
    exact GlueCatalog.loaded_iff (GlueCatalog.holds_run events).1 found current catalog
  · intro events identifier entity version found current
    exact S3TablesCatalog.loaded_iff (S3TablesCatalog.holds_run events).1 found current catalog

/-! ### Compression switched on -/

section SwitchedOn

variable (updates : List TableUpdate)

/-- A table is created, and then updated by the instance that has created it. -/
def createUpdateSql : SqlCatalog.Shared :=
  (SqlCatalog.runSql 0 (longTable .v2) ⟨1⟩ (SqlCatalog.updateAlone updates 1 ⟨2⟩)).shared

def createUpdateFile : FileTabulars.Shared :=
  (FileTabulars.runTabulars "s3://warehouse/table"
    [.call (.create 0 (.table (longTable .v2)) []), .advance 0 (), .advance 0 (),
      .call (.update 0 (.table ⟨[], updates⟩ 1) ⟨2⟩), .advance 0 (), .advance 0 (),
      .advance 0 ()]).shared

def createUpdateEvents : List VersionTokens.Event :=
  [.call (.create 0 orders (.table (longTable .v2)) ⟨1⟩), .advance 0 0, .advance 0 0, .advance 0 0,
    .advance 0 1, .advance 0 1,
    .call (.update 0 orders (.table ⟨[], updates⟩ 1) ⟨2⟩), .advance 0 0, .advance 0 2, .advance 0 0,
    .advance 0 0]

end SwitchedOn

/-- A view is created. -/
def createViewSql : SqlViews.Shared :=
  (SqlViews.runViews [.call (.create 0 (.view View.createdView) ⟨1⟩), .advance 0 (), .advance 0 (),
    .advance 0 ()]).shared

instance (table : String) (committed : FileTabulars.Committed) :
    Decidable (FileTabulars.Newest table committed) :=
  decidable_of_iff (committed.target.location = table ∧
    ∀ path ∈ committed.found.keys, path.location = table ∧ path.isVersioned = true →
      path.version < committed.target.version)
    ⟨fun ⟨located, above⟩ => ⟨located, above⟩, fun ⟨located, above⟩ => ⟨located, above⟩⟩

/-- Without compression every catalog loads what was committed. -/
theorem loads_iff_uncompressed :
    (SqlCatalog.loaded 1 (createUpdateSql [])).isSome = true ∧
    (SqlViews.loaded 1 createViewSql).isSome = true ∧
    (FileTabulars.loaded "s3://warehouse/table" 1 [] (createUpdateFile [])).isSome = true ∧
    (VersionTokens.loaded GlueCatalog.system 1 orders
      (GlueCatalog.runGlue (createUpdateEvents [])).shared).isSome = true ∧
    (VersionTokens.loaded S3TablesCatalog.system 1 orders
      (S3TablesCatalog.runS3Tables (createUpdateEvents [])).shared).isSome = true := by
  obtain ⟨sql, views, files, glue, s3Tables⟩ := loads_iff 1
  refine ⟨?_, ?_, ?_, ?_, ?_⟩
  · refine Option.isSome_iff_exists.mpr ⟨_, (sql 0 (longTable .v2) ⟨1⟩ _ rfl).mpr ?_⟩
    decide +kernel
  · have row : ∃ version, createViewSql.row = some version ∧
        metadataIsGzipped version.metadata.properties = false :=
      ⟨createViewSql.row.get (by decide +kernel), by simp, by decide +kernel⟩
    obtain ⟨version, row, plain⟩ := row
    exact Option.isSome_iff_exists.mpr ⟨_, (views _ version row).mpr plain⟩
  · have last : ∃ committed, (createUpdateFile []).commits.head? = some committed ∧
        committed.compressed = false :=
      ⟨(createUpdateFile []).commits.head?.get (by decide +kernel), by simp, by decide +kernel⟩
    obtain ⟨committed, head, plain⟩ := last
    refine Option.isSome_iff_exists.mpr ⟨_, (files _ _ [] committed ?_ head).mpr plain⟩
    decide +kernel
  · have current : ∃ entity, (GlueCatalog.runGlue (createUpdateEvents [])).shared.entities
        orders.key = some entity ∧ ∃ version, entity.current = some version ∧
          metadataIsGzipped version.metadata.properties = false :=
      ⟨_, (Option.some_get (by decide +kernel)).symm,
        ⟨_, (Option.some_get (by decide +kernel)).symm, by decide +kernel⟩⟩
    obtain ⟨entity, found, version, current, plain⟩ := current
    exact Option.isSome_iff_exists.mpr ⟨_, (glue _ orders entity version found current).mpr plain⟩
  · have current : ∃ entity, (S3TablesCatalog.runS3Tables (createUpdateEvents [])).shared.entities
        orders.key = some entity ∧ ∃ version, entity.current = some version ∧
          metadataIsGzipped version.metadata.properties = false :=
      ⟨_, (Option.some_get (by decide +kernel)).symm,
        ⟨_, (Option.some_get (by decide +kernel)).symm, by decide +kernel⟩⟩
    obtain ⟨entity, found, version, current, plain⟩ := current
    refine Option.isSome_iff_exists.mpr
      ⟨_, (s3Tables _ orders entity version found current).mpr fun compressed => ?_⟩
    exact absurd (plain.symm.trans compressed.1) Bool.false_ne_true

/-- No catalog loads a table after a commit has switched compression on. -/
theorem compressed_not_loaded :
    (SqlCatalog.loaded 1 (createUpdateSql [FileCatalog.compress]) = none ∧
      (createUpdateSql [FileCatalog.compress]).accepted.length = 1) ∧
    (FileTabulars.loaded "s3://warehouse/table" 1 [] (createUpdateFile [FileCatalog.compress]) = none ∧
      (createUpdateFile [FileCatalog.compress]).commits.length = 2) ∧
    (VersionTokens.loaded GlueCatalog.system 1 orders
        (GlueCatalog.runGlue (createUpdateEvents [FileCatalog.compress])).shared = none ∧
      (GlueCatalog.runGlue (createUpdateEvents [FileCatalog.compress])).shared.accepted.length = 1) ∧
    (VersionTokens.loaded S3TablesCatalog.system 1 orders
        (S3TablesCatalog.runS3Tables (createUpdateEvents [FileCatalog.compress])).shared = none ∧
      (S3TablesCatalog.runS3Tables
        (createUpdateEvents [FileCatalog.compress])).shared.accepted.length = 2) := by
  refine ⟨⟨?_, ?_⟩, ⟨?_, ?_⟩, ⟨?_, ?_⟩, ?_, ?_⟩ <;> decide +kernel

end IcebergRust

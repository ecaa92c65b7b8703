import IcebergRust.Catalog.FileCommits
import IcebergRust.Catalog.FileNames
import IcebergRust.Lib.Indirection

/-!
# Tables under renames

Which table each name of a file catalog has, going by the calls that succeeded, against what the
files and the recorded older names make of it.

* Renames alone never mix up two tables: `Tracks.moves` of the indirection holds without a
  condition.
* A name that a table was renamed away from is not free as long as that table is there, and what is
  dropped may hold the files of another table: where neither happens, and no update compresses or
  moves a table, the names are a map (`names_map`).
-/

namespace IcebergRust.FileNames

open FileCatalog (MetadataName MetadataPath Version Update firstPath newFilesystemMetadataLocation)
open Indirection

/-! ### The map -/

/-- The tables by name. -/
abbrev Names := Identifier → Option TableMetadata

/-- What an answered call does to the tables. -/
def Names.after (names : Names) : Request → Answer → Names
  | .createTable identifier _, .table metadata =>
    Function.update names identifier (some metadata)
  | .updateTable identifier _ _ _, .table metadata =>
    Function.update names identifier (some metadata)
  | .renameTable source destination, .done =>
    if source = destination then names
    else Function.update (Function.update names source none) destination (names source)
  | .dropTable identifier, .done => Function.update names identifier none
  | .dropNamespace ns, .done => fun identifier =>
    if identifier.ns = ns then none else names identifier
  | _, _ => names

structure State where
  catalog : Catalog
  names : Names

def State.empty : State := ⟨.empty, fun _ => none⟩

def step (warehouse : Warehouse) (state : State) (request : Request) : State :=
  let performed := state.catalog.perform warehouse request
  ⟨performed.2, state.names.after request performed.1⟩

def run (warehouse : Warehouse) (state : State) (requests : List Request) : State :=
  requests.foldl (step warehouse) state

/-! ### What the calls may do -/

section Allowed

variable (warehouse : Warehouse) (used : List Identifier)

/-- The names have paths of their own. -/
structure Apart : Prop where
  levels : ∀ identifier ∈ used, identifier.ns.levels ≠ []
  directories : ∀ one ∈ used, ∀ other ∈ used, one ≠ other →
    warehouse.directory one ≠ warehouse.directory other ∧
      nested (warehouse.directory one) (warehouse.directory other) = false

/-- The directory that the files of a name are looked for in. -/
def physicalDirectory (catalog : Catalog) (identifier : Identifier) : List String :=
  warehouse.directory (catalog.physicalIdentifier identifier)

/-- Metadata that is found again in the directory of a name. -/
def Stays (catalog : Catalog) (identifier : Identifier) (metadata : TableMetadata) : Prop :=
  metadataIsGzipped metadata.properties = false ∧
    warehouse.segments metadata.location = physicalDirectory warehouse catalog identifier

/-- A call that leaves the tables of other names alone, and its own where it is looked for. -/
def Allowed (state : State) : Request → Prop
  | .createTable identifier _ => identifier ∈ used ∧ (state.names identifier = none →
      state.catalog.renamedAway identifier = false ∧
        state.catalog.physicalIdentifier identifier = identifier ∧
        warehouse.isPlain identifier = true)
  | .updateTable identifier commit now _ => identifier ∈ used ∧
    match state.catalog.cache identifier with
    | none => True
    | some previous => checkTableRequirements commit.requirements previous.metadata = true →
      match applyTableUpdates previous.metadata commit.updates now with
      | .error _ => True
      | .ok metadata => Stays warehouse state.catalog identifier metadata
  | .renameTable source destination => source ∈ used ∧ destination ∈ used
  | .dropTable identifier => identifier ∈ used ∧ ∀ other ∈ used, other ≠ identifier →
      state.names other ≠ none →
        inside (physicalDirectory warehouse state.catalog identifier)
          (physicalDirectory warehouse state.catalog other) = false
  | .dropNamespace ns =>
    match ns.levels with
    | [] => True
    | first :: _ => ∀ identifier ∈ used, state.names identifier ≠ none →
        (identifier.ns = ns ↔ inside (warehouse.segments (warehouse.namespacePath first))
          (physicalDirectory warehouse state.catalog identifier) = true)
  | .loadTabular identifier => identifier ∈ used

/-- Each call of a run is allowed in the state it is made in. -/
def Meets (state : State) : List Request → Prop
  | [] => True
  | request :: requests => Allowed warehouse used state request ∧
      Meets (step warehouse state request) requests

end Allowed

/-! ### Versions in a directory -/

/-- The current version of a table, with its number. -/
abbrev Numbered := Nat × TableMetadata

/-- The numbered files of a table are those up to its current version. -/
structure Current (files : Files) (directory : List String) (version : Numbered) : Prop where
  last : files.lookup ⟨directory, .versioned version.1 false⟩ = some ⟨false, version.2⟩
  first : (⟨directory, .versioned 0 false⟩ : FilePath) ∈ files
  atMost : ∀ number gzipped, (⟨directory, .versioned number gzipped⟩ : FilePath) ∈ files →
    number ≤ version.1 ∧ gzipped = false
  bound : version.1 < 18446744073709551616

/-- What the directory of a name holds. -/
def Stored (warehouse : Warehouse) (files : Files) (identifier : Identifier) :
    Option Numbered → Prop
  | none => ∀ number gzipped,
    (⟨warehouse.directory identifier, .versioned number gzipped⟩ : FilePath) ∉ files
  | some version => Current files (warehouse.directory identifier) version ∧
    warehouse.isPlain identifier = true

/-- No path goes on below itself. -/
theorem nested_self (directory : List String) : nested directory directory = false := by
  have long : (directory ++ ["metadata"]).isPrefixOf directory = false := by
    refine Bool.eq_false_iff.mpr fun prefixed => ?_
    have length := (List.isPrefixOf_iff_prefix.mp prefixed).length_le
    rw [List.length_append, List.length_singleton] at length
    omega
  rw [nested, long, Bool.false_and]

/-- The first version of a table is written. -/
theorem Current.start {files : Files} {directory : List String} (metadata : TableMetadata)
    (empty : ∀ number gzipped, (⟨directory, .versioned number gzipped⟩ : FilePath) ∉ files) :
    Current (files.insert ⟨directory, .versioned 0 false⟩ ⟨false, metadata⟩) directory
      (0, metadata) where
  last := AList.lookup_insert _
  first := (AList.mem_insert _).mpr (.inl rfl)
  atMost number gzipped there := by
    rcases (AList.mem_insert _).mp there with same | there
    · cases same
      exact ⟨Nat.le_refl _, rfl⟩
    · exact absurd there (empty number gzipped)
  bound := Nat.succ_pos _

/-- The next version of a table is written. -/
theorem Current.next {files : Files} {directory : List String} {version : Numbered}
    (current : Current files directory version) (metadata : TableMetadata)
    (fits : version.1 + 1 < 18446744073709551616) :
    Current (files.insert ⟨directory, .versioned (version.1 + 1) false⟩ ⟨false, metadata⟩) directory
      (version.1 + 1, metadata) where
  last := AList.lookup_insert _
  first := (AList.mem_insert _).mpr (.inr current.first)
  atMost number gzipped there := by
    rcases (AList.mem_insert _).mp there with same | there
    · cases same
      exact ⟨Nat.le_refl _, rfl⟩
    · obtain ⟨below, plain⟩ := current.atMost number gzipped there
      exact ⟨Nat.le_succ_of_le below, plain⟩
  bound := fits

section LastVersion

variable {files : Files} {directory : List String}

/-- Where no other table is taken for a version, the last one is found. -/
theorem lastVersion_of_current {version : Numbered} (current : Current files directory version)
    (alone : ∀ path ∈ files, listed directory path = true → path.directory = directory) :
    lastVersion files directory = .ok ⟨directory, .versioned version.1 false⟩ := by
  set found := files.keys.filter (listed directory) with listing
  have mem_found : ∀ path ∈ found, path ∈ files ∧ path.directory = directory := by
    intro path member
    obtain ⟨there, matched⟩ := List.mem_filter.mp member
    exact ⟨AList.mem_keys.mpr there, alone path (AList.mem_keys.mpr there) matched⟩
  have here : (⟨directory, .versioned version.1 false⟩ : FilePath) ∈ found := by
    refine List.mem_filter.mpr ⟨?_, by simp [listed, isVersioned]⟩
    exact AList.mem_keys.mp (AList.lookup_isSome.mp (by rw [current.last]; rfl))
  have all : (found.all fun path => path.directory = directory) = true :=
    List.all_eq_true.mpr fun path member => decide_eq_true (mem_found path member).2
  have last : FileCatalog.metadataLocation (((found.filter fun path => isGzipped path.name) ++
      found.filter fun path => !isGzipped path.name).map FilePath.metadataPath) =
        some (FilePath.metadataPath ⟨directory, .versioned version.1 false⟩) := by
    refine FileCatalog.metadataLocation_eq ?_ rfl ?_
    · refine List.mem_map_of_mem (List.mem_append_right _ ?_)
      exact List.mem_filter.mpr ⟨here, rfl⟩
    · intro other member versioned above
      obtain ⟨⟨place, name⟩, there, rfl⟩ := List.mem_map.mp member
      have listed : (⟨place, name⟩ : FilePath) ∈ found := by
        rcases List.mem_append.mp there with there | there
        · exact (List.mem_filter.mp there).1
        · exact (List.mem_filter.mp there).1
      obtain ⟨stored, rfl⟩ := mem_found _ listed
      cases name with
      | unique => cases versioned
      | versioned number gzipped =>
        obtain ⟨below, rfl⟩ := current.atMost number gzipped stored
        have same : number = version.1 := Nat.le_antisymm below above
        rw [same]
  unfold lastVersion
  rw [← listing]
  simp only [all, if_true, last]
  rfl

theorem lastVersion_of_empty
    (empty : ∀ number gzipped, (⟨directory, .versioned number gzipped⟩ : FilePath) ∉ files)
    (alone : ∀ path ∈ files, listed directory path = true → path.directory = directory) :
    lastVersion files directory = .error .catalogNotFound := by
  have nothing : files.keys.filter (listed directory) = [] := by
    refine List.filter_eq_nil_iff.mpr ?_
    rintro ⟨place, name⟩ member matched
    have stored := AList.mem_keys.mpr member
    obtain rfl : place = directory := alone _ stored matched
    cases name with
    | unique => simp [listed, isVersioned, nested_self] at matched
    | versioned number gzipped => exact empty number gzipped stored
  unfold lastVersion
  rw [nothing]
  rfl

end LastVersion

/-! ### What every call keeps -/

/-- What is cached is the current version. -/
def Remembers (held : Identifier → Option Numbered) (cache : Identifier → Option Version) : Prop :=
  ∀ identifier version, cache identifier = some version →
    ∃ number, version.path.name = .versioned number false ∧
      held identifier = some (number, version.metadata)

theorem Remembers.unset {held : Identifier → Option Numbered} {cache : Identifier → Option Version}
    (remembers : Remembers held cache) (identifier : Identifier) :
    Remembers (Function.update held identifier none) (Function.update cache identifier none) := by
  intro other version cached
  by_cases same : other = identifier
  · subst same
    rw [Function.update_self] at cached
    cases cached
  · rw [Function.update_of_ne same] at cached ⊢
    exact remembers other version cached

theorem Remembers.set {held : Identifier → Option Numbered} {cache : Identifier → Option Version}
    (remembers : Remembers held cache) (identifier : Identifier) {version : Version} {number : Nat}
    (name : version.path.name = .versioned number false) :
    Remembers (Function.update held identifier (some (number, version.metadata)))
      (Function.update cache identifier (some version)) := by
  intro other entry cached
  by_cases same : other = identifier
  · subst same
    rw [Function.update_self] at cached ⊢
    cases cached
    exact ⟨number, name, rfl⟩
  · rw [Function.update_of_ne same] at cached ⊢
    exact remembers other entry cached

/-- What the files, the recorded names and the cache make of the tables. -/
structure Kept (warehouse : Warehouse) (used : List Identifier) (catalog : Catalog)
    (held : Identifier → Option Numbered) : Prop where
  housed : ∀ path ∈ catalog.files, ∃ identifier ∈ used,
    path.directory = warehouse.directory identifier
  tracks : Tracks (· ∈ used) catalog.renamedTables.lookup held (Stored warehouse catalog.files)
  cached : Remembers held catalog.cache

/-- The tables by name, without their numbers. -/
def tables (held : Identifier → Option Numbered) : Names := fun identifier =>
  (held identifier).map (·.2)

theorem renamedAway_iff {catalog : Catalog} {identifier : Identifier} :
    catalog.renamedAway identifier = true ↔
      Away catalog.renamedTables.lookup identifier := by
  rw [Catalog.renamedAway, Bool.and_eq_true, Option.isNone_iff_eq_none, List.any_eq_true, Away]
  constructor
  · rintro ⟨⟨name, member, same⟩, missing⟩
    exact ⟨missing, HashMap.mem_values_iff.mp (of_decide_eq_true same ▸ member)⟩
  · rintro ⟨missing, other⟩
    exact ⟨⟨identifier, HashMap.mem_values_iff.mpr other, decide_eq_true rfl⟩, missing⟩

section Keeping

variable {warehouse : Warehouse} {used : List Identifier} {catalog : Catalog}
  {held : Identifier → Option Numbered} {identifier : Identifier}

theorem Apart.location (apart : Apart warehouse used) (member : identifier ∈ used) :
    ∃ location, warehouse.location identifier = .ok location ∧
      warehouse.directory identifier = warehouse.segments location ∧
      warehouse.isPlain identifier = warehouse.plain location := by
  have levels := apart.levels identifier member
  unfold Warehouse.directory Warehouse.isPlain Warehouse.location
  cases found : identifier.ns.levels with
  | nil => exact absurd found levels
  | cons first rest => exact ⟨_, rfl, rfl, rfl⟩

/-- No file of another table is taken for a version. -/
theorem Kept.alone (kept : Kept warehouse used catalog held) (apart : Apart warehouse used)
    (member : identifier ∈ used) :
    ∀ path ∈ catalog.files, listed (warehouse.directory identifier) path = true →
      path.directory = warehouse.directory identifier := by
  intro path stored matched
  obtain ⟨other, known, directory⟩ := kept.housed path stored
  by_cases same : identifier = other
  · rw [same, directory]
  · obtain ⟨-, unnested⟩ := apart.directories identifier member other known same
    rw [listed, directory, unnested, Bool.or_false, Bool.and_eq_true] at matched
    rw [directory]
    exact of_decide_eq_true matched.1

/-- What a name is found to have. -/
theorem Kept.metadataLocation (kept : Kept warehouse used catalog held)
    (apart : Apart warehouse used) (member : identifier ∈ used) :
    catalog.metadataLocation warehouse identifier =
      match held identifier with
      | none => .error .catalogNotFound
      | some version =>
        .ok ⟨physicalDirectory warehouse catalog identifier, .versioned version.1 false⟩ := by
  unfold Catalog.metadataLocation
  by_cases away : catalog.renamedAway identifier = true
  · rw [if_pos away, kept.tracks.away identifier (renamedAway_iff.mp away)]
    rfl
  · rw [if_neg away]
    have visible : ¬ Away catalog.renamedTables.lookup identifier :=
      fun gone => away (renamedAway_iff.mpr gone)
    have physical : catalog.physicalIdentifier identifier ∈ used := kept.tracks.used_slot member
    obtain ⟨location, located, directory, plain⟩ := apart.location physical
    have stored : Stored warehouse catalog.files (catalog.physicalIdentifier identifier)
      (held identifier) := kept.tracks.shown identifier member visible
    have alone := kept.alone apart physical
    rw [located]
    simp only [bind, Except.bind]
    rw [← plain, ← directory]
    cases found : held identifier with
    | none =>
      rw [found] at stored
      rw [lastVersion_of_empty stored alone, ite_self]
    | some version =>
      rw [found] at stored
      rw [if_pos stored.2]
      exact lastVersion_of_current stored.1 alone

theorem Kept.tabularExists (kept : Kept warehouse used catalog held) (apart : Apart warehouse used)
    (member : identifier ∈ used) :
    catalog.tabularExists warehouse identifier = .ok (held identifier).isSome := by
  unfold Catalog.tabularExists
  rw [kept.metadataLocation apart member]
  cases held identifier <;> rfl

/-- What is found is the current version. -/
theorem Kept.read (kept : Kept warehouse used catalog held) (member : identifier ∈ used)
    {version : Numbered} (found : held identifier = some version) :
    catalog.read ⟨physicalDirectory warehouse catalog identifier, .versioned version.1 false⟩ =
      .ok version.2 := by
  have visible : ¬ Away catalog.renamedTables.lookup identifier := by
    intro gone
    rw [kept.tracks.away identifier gone] at found
    cases found
  have stored := kept.tracks.shown identifier member visible
  rw [found] at stored
  have last : catalog.files.lookup ⟨physicalDirectory warehouse catalog identifier,
    .versioned version.1 false⟩ = some ⟨false, version.2⟩ := stored.1.last
  rw [Catalog.read, last]
  rfl

/-- What a call answers is what it does to the tables. -/
def Next (warehouse : Warehouse) (used : List Identifier) (held : Identifier → Option Numbered)
    (request : Request) (performed : Answer × Catalog) : Prop :=
  ∃ held', Kept warehouse used performed.2 held' ∧
    (tables held).after request performed.1 = tables held'

theorem tables_update (identifier : Identifier) (entry : Option Numbered) :
    tables (Function.update held identifier entry) =
      Function.update (tables held) identifier (entry.map (·.2)) :=
  Function.comp_update _ _ _ _

theorem tables_eq_none :
    tables held identifier = none ↔ held identifier = none := Option.map_eq_none_iff

theorem Kept.visible (kept : Kept warehouse used catalog held) {version : Numbered}
    (found : held identifier = some version) : ¬ Away catalog.renamedTables.lookup identifier := by
  intro gone
  rw [kept.tracks.away identifier gone] at found
  cases found

variable {files : Files} {number : Nat}

/-- What a directory holds shows in its numbered files. -/
theorem Stored.congr {files' : Files} {entry : Option Numbered}
    (stored : Stored warehouse files identifier entry) (same : ∀ number gzipped,
      files'.lookup ⟨warehouse.directory identifier, .versioned number gzipped⟩ =
        files.lookup ⟨warehouse.directory identifier, .versioned number gzipped⟩) :
    Stored warehouse files' identifier entry := by
  have member : ∀ number gzipped,
      (⟨warehouse.directory identifier, .versioned number gzipped⟩ : FilePath) ∈ files' ↔
        (⟨warehouse.directory identifier, .versioned number gzipped⟩ : FilePath) ∈ files := by
    intro number gzipped
    rw [← AList.lookup_isSome, ← AList.lookup_isSome, same]
  cases entry with
  | none => exact fun number gzipped there => stored number gzipped ((member _ _).mp there)
  | some version =>
    obtain ⟨current, plain⟩ := stored
    refine ⟨⟨(same _ _).trans current.last, (member _ _).mpr current.first, ?_, current.bound⟩, plain⟩
    exact fun number gzipped there => current.atMost number gzipped ((member _ _).mp there)

theorem Kept.remember (kept : Kept warehouse used catalog held) {version : Version}
    (name : version.path.name = .versioned number false)
    (found : held identifier = some (number, version.metadata)) :
    Kept warehouse used (catalog.remember identifier version) held where
  housed := kept.housed
  tracks := kept.tracks
  cached := by
    have set := kept.cached.set identifier name
    rwa [← found, Function.update_eq_self] at set

/-- A file that is not numbered is written in the directory of a name. -/
theorem Kept.stage (kept : Kept warehouse used catalog held) {here : Identifier}
    (member : here ∈ used) {path : FilePath} (directory : path.directory = warehouse.directory here)
    (unnumbered : isVersioned path.name = false) (content : MetadataFile) :
    Kept warehouse used (catalog.put path content) held where
  housed other there := by
    rcases (AList.mem_insert _).mp there with rfl | there
    · exact ⟨here, member, directory⟩
    · exact kept.housed other there
  tracks := kept.tracks.imp fun other _ entry stored => stored.congr fun number gzipped => by
    refine AList.lookup_insert_ne fun same => ?_
    rw [← same] at unnumbered
    cases unnumbered
  cached := kept.cached

/-- A numbered file is written in the directory of a name, and is its current version. -/
theorem Kept.commit (kept : Kept warehouse used catalog held) (apart : Apart warehouse used)
    (member : identifier ∈ used) (visible : ¬ Away catalog.renamedTables.lookup identifier)
    {path : FilePath} {content : MetadataFile} {version : Version}
    (directory : path.directory = physicalDirectory warehouse catalog identifier)
    (current : Stored warehouse (catalog.files.insert path content)
      (catalog.physicalIdentifier identifier) (some (number, version.metadata)))
    (name : version.path.name = .versioned number false) :
    Kept warehouse used ((catalog.put path content).remember identifier version)
      (Function.update held identifier (some (number, version.metadata))) where
  housed other there := by
    rcases (AList.mem_insert _).mp there with rfl | there
    · exact ⟨_, kept.tracks.used_slot member, directory⟩
    · exact kept.housed other there
  tracks := by
    refine kept.tracks.write visible member current fun here known differs entry stored => ?_
    refine stored.congr fun number gzipped => AList.lookup_insert_ne fun same => ?_
    have physical := kept.tracks.used_slot member
    refine (apart.directories here known _ physical differs).1 ?_
    exact (congrArg FilePath.directory same).trans directory
  cached := kept.cached.set identifier name

/-! ### Calls -/

theorem Kept.loadTabular (kept : Kept warehouse used catalog held) (apart : Apart warehouse used)
    (member : identifier ∈ used) :
    Next warehouse used held (.loadTabular identifier)
      (catalog.loadTabular warehouse identifier) := by
  unfold Catalog.loadTabular
  rw [kept.metadataLocation apart member]
  cases found : held identifier with
  | none => exact ⟨held, kept, rfl⟩
  | some version =>
    simp only [kept.read member found]
    exact ⟨held, kept.remember rfl found, rfl⟩

theorem Kept.createTable (kept : Kept warehouse used catalog held) (apart : Apart warehouse used)
    (metadata : TableMetadata)
    (allowed : Allowed warehouse used ⟨catalog, tables held⟩ (.createTable identifier metadata)) :
    Next warehouse used held (.createTable identifier metadata)
      (catalog.createTable warehouse identifier metadata) := by
  obtain ⟨member, fresh⟩ := allowed
  obtain ⟨location, located, directory, plain⟩ := apart.location member
  unfold Catalog.createTable
  rw [kept.tabularExists apart member, located]
  cases found : held identifier with
  | some version => exact ⟨held, kept, rfl⟩
  | none =>
    obtain ⟨shown, physical, plain⟩ := fresh (by simp [tables, found])
    have visible : ¬ Away catalog.renamedTables.lookup identifier := by
      intro gone
      rw [renamedAway_iff.mpr gone] at shown
      cases shown
    have empty : Stored warehouse catalog.files identifier none := by
      have stored := kept.tracks.shown identifier member visible
      rw [found] at stored
      exact physical ▸ stored
    refine ⟨_, kept.commit apart member visible ?_ ?_ rfl, ?_⟩
    · exact directory.symm.trans (congrArg warehouse.directory physical).symm
    · rw [physical]
      refine ⟨?_, plain⟩
      have started := Current.start { metadata with location := location } empty
      rwa [directory] at started ⊢
    · rw [tables_update]
      rfl

/-- The next version of a table is written, unless its number wraps around. -/
theorem Kept.copyIfNotExists (kept : Kept warehouse used catalog held)
    (apart : Apart warehouse used) (member : identifier ∈ used) {before metadata : TableMetadata}
    (found : held identifier = some (number, before))
    (stays : Stays warehouse catalog identifier metadata) (commit : TableTransaction.CommitTable)
    (now : Int) (transactionUuid : Uuid) :
    Next warehouse used held (.updateTable identifier commit now transactionUuid)
      (catalog.copyIfNotExists warehouse identifier
        ⟨⟨metadata.location, .versioned ((number + 1) % 18446744073709551616) false⟩, metadata⟩
        ⟨metadataIsGzipped metadata.properties, metadata⟩) := by
  unfold Catalog.copyIfNotExists
  split
  · exact ⟨held, kept, rfl⟩
  rename_i free
  obtain ⟨plain, there⟩ := stays
  have visible := kept.visible found
  have stored := kept.tracks.shown identifier member visible
  rw [found] at stored
  obtain ⟨current, isPlain⟩ := stored
  -- The number does not wrap around, since the first version is still there.
  have fits : number + 1 < 18446744073709551616 := by
    refine Nat.lt_of_le_of_ne current.bound fun full => ?_
    rw [full, Nat.mod_self, Warehouse.stored, there] at free
    exact free current.first
  rw [Nat.mod_eq_of_lt fits]
  have next := current.next metadata fits
  refine ⟨_, kept.commit apart member visible there ⟨?_, isPlain⟩ rfl, ?_⟩
  · rwa [Warehouse.stored, there, plain]
  · rw [tables_update]
    rfl

theorem Kept.updateTable (kept : Kept warehouse used catalog held) (apart : Apart warehouse used)
    (commit : TableTransaction.CommitTable) (now : Int) (transactionUuid : Uuid)
    (allowed : Allowed warehouse used ⟨catalog, tables held⟩
      (.updateTable identifier commit now transactionUuid)) :
    Next warehouse used held (.updateTable identifier commit now transactionUuid)
      (catalog.updateTable warehouse identifier commit now transactionUuid) := by
  obtain ⟨member, stays⟩ := allowed
  unfold Catalog.updateTable
  cases cached : catalog.cache identifier with
  | none =>
    simp only
    split
    · exact ⟨held, kept, rfl⟩
    · exact ⟨held, kept, rfl⟩
  | some previous =>
    obtain ⟨⟨place, last⟩, before⟩ := previous
    obtain ⟨number, rfl, found⟩ := kept.cached identifier _ cached
    simp only [cached] at stays
    simp only
    split
    · rename_i checked
      cases applied : applyTableUpdates before commit.updates now with
      | error error => exact ⟨held, kept, rfl⟩
      | ok metadata =>
        have settled : Stays warehouse catalog identifier metadata := by
          simpa only [applied] using stays checked
        obtain ⟨plain, there⟩ := settled
        have physical := kept.tracks.used_slot member
        have staged : ∀ content, Kept warehouse used (catalog.put (warehouse.stored
            ⟨metadata.location, .unique metadata.lastSequenceNumber transactionUuid
              (metadataIsGzipped metadata.properties)⟩) content) held :=
          fun content => kept.stage physical there rfl content
        have target : newFilesystemMetadataLocation metadata.location
            ⟨place, .versioned number false⟩ (metadataIsGzipped metadata.properties) =
              .ok ⟨metadata.location, .versioned ((number + 1) % 18446744073709551616) false⟩ := by
          rw [plain]
          rfl
        simp only [Update.gzipped, target]
        exact (staged _).copyIfNotExists apart member found ⟨plain, there⟩ commit now transactionUuid
    · exact ⟨held, kept, rfl⟩

/-- The recorded names after a rename. -/
theorem lookup_move (renamed : HashMap Identifier Identifier) (source destination : Identifier) :
    ((renamed.erase source).insert destination ((renamed.lookup source).getD source)).lookup =
      move renamed.lookup source destination := by
  funext identifier
  by_cases two : identifier = destination
  · subst two
    rw [AList.lookup_insert, move, Function.update_self]
    rfl
  · rw [AList.lookup_insert_ne two, move, Function.update_of_ne two]
    by_cases one : identifier = source
    · subst one
      rw [AList.lookup_erase, Function.update_self]
    · rw [AList.lookup_erase_ne one, Function.update_of_ne one]

theorem lookup_forget (renamed : HashMap Identifier Identifier) (name : Identifier) :
    (renamed.erase name).lookup = forget renamed.lookup name := by
  funext identifier
  by_cases same : identifier = name
  · subst same
    rw [AList.lookup_erase, forget, Function.update_self]
  · rw [AList.lookup_erase_ne same, forget, Function.update_of_ne same]

theorem Kept.moves (kept : Kept warehouse used catalog held) {source destination : Identifier}
    (differs : source ≠ destination) (from_used : source ∈ used) (to_used : destination ∈ used)
    (vacant : held destination = none) (version : Version)
    (found : held source = some (number, version.metadata))
    (name : version.path.name = .versioned number false) :
    Kept warehouse used
      { catalog with
        cache := Function.update (Function.update catalog.cache source none) destination
          (some version)
        renamedTables := (catalog.renamedTables.erase source).insert destination
          (catalog.physicalIdentifier source) }
      (Function.update (Function.update held source none) destination
        (some (number, version.metadata))) where
  housed := kept.housed
  tracks := by
    have moved := kept.tracks.moves differs from_used to_used (kept.visible found) vacant
    rw [found] at moved
    rw [← lookup_move] at moved
    exact moved
  cached := (kept.cached.unset source).set destination name

theorem Kept.renameTable (kept : Kept warehouse used catalog held) (apart : Apart warehouse used)
    {source destination : Identifier} (from_used : source ∈ used) (to_used : destination ∈ used) :
    Next warehouse used held (.renameTable source destination)
      (catalog.renameTable warehouse source destination) := by
  unfold Catalog.renameTable
  split
  · rename_i same
    exact ⟨held, kept, if_pos same⟩
  · rename_i differs
    rw [kept.tabularExists apart to_used, kept.metadataLocation apart from_used]
    cases vacant : held destination with
    | some version => exact ⟨held, kept, rfl⟩
    | none =>
      cases found : held source with
      | none => exact ⟨held, kept, rfl⟩
      | some version =>
        have known : catalog.known source ⟨physicalDirectory warehouse catalog source,
            .versioned version.1 false⟩ = .ok version.2 := by
          unfold Catalog.known
          cases cached : catalog.cache source with
          | none => exact kept.read from_used found
          | some entry =>
            obtain ⟨number, -, same⟩ := kept.cached source entry cached
            rw [found] at same
            cases same
            rfl
        simp only [Option.isSome_none, known]
        have same : tables held source = some version.2 := by rw [tables, found]; rfl
        refine ⟨_, kept.moves differs from_used to_used vacant ⟨FilePath.metadataPath ⟨_, _⟩, version.2⟩
          found rfl, ?_⟩
        rw [tables_update, tables_update]
        refine (if_neg differs).trans ?_
        rw [same]
        rfl

/-- What is left of the files. -/
theorem lookup_deleteBelow (files : Files) (below : List String) (path : FilePath) :
    (deleteBelow files below).lookup path =
      if inside below path.directory = true then none else files.lookup path := by
  rw [deleteBelow, HashMap.lookup_erase_all]
  by_cases deleted : inside below path.directory = true
  · rw [if_pos deleted]
    split
    · rfl
    · rename_i unlisted
      refine Option.not_isSome_iff_eq_none.mp fun there => unlisted ?_
      exact List.mem_filter.mpr ⟨AList.mem_keys.mp (AList.lookup_isSome.mp there), deleted⟩
  · have unlisted : path ∉ files.keys.filter fun path => inside below path.directory :=
      fun listed => deleted (List.mem_filter.mp listed).2
    rw [if_neg deleted, if_neg unlisted]

theorem Stored.deleted (files : Files) {below : List String}
    (deleted : inside below (warehouse.directory identifier) = true) :
    Stored warehouse (deleteBelow files below) identifier none := by
  intro number gzipped there
  have found := AList.lookup_isSome.mpr there
  rw [lookup_deleteBelow, if_pos deleted] at found
  cases found

theorem Stored.left {below : List String} {entry : Option Numbered}
    (stored : Stored warehouse files identifier entry)
    (left : inside below (warehouse.directory identifier) = false) :
    Stored warehouse (deleteBelow files below) identifier entry :=
  stored.congr fun _ _ => by rw [lookup_deleteBelow, if_neg (by rw [left]; exact Bool.false_ne_true)]

theorem Stored.none_deleteBelow (below : List String)
    (stored : Stored warehouse files identifier none) :
    Stored warehouse (deleteBelow files below) identifier none := by
  cases deleted : inside below (warehouse.directory identifier) with
  | true => exact .deleted files deleted
  | false => exact stored.left deleted

theorem mem_of_mem_deleteBelow {below : List String} {path : FilePath}
    (there : path ∈ deleteBelow files below) : path ∈ files := by
  have found := AList.lookup_isSome.mpr there
  rw [lookup_deleteBelow] at found
  split at found
  · cases found
  · exact AList.lookup_isSome.mp found

/-- A directory is inside itself. -/
theorem inside_self (directory : List String) : inside directory directory = true :=
  List.isPrefixOf_iff_prefix.mpr (List.prefix_append _ _)

theorem Kept.dropTable (kept : Kept warehouse used catalog held) (apart : Apart warehouse used)
    (allowed : Allowed warehouse used ⟨catalog, tables held⟩ (.dropTable identifier)) :
    Next warehouse used held (.dropTable identifier) (catalog.dropTable warehouse identifier) := by
  obtain ⟨member, alone⟩ := allowed
  have physical : catalog.physicalIdentifier identifier ∈ used := kept.tracks.used_slot member
  obtain ⟨location, located, directory, -⟩ := apart.location physical
  unfold Catalog.dropTable
  rw [located]
  simp only
  rw [← directory]
  refine ⟨Function.update held identifier none, ⟨?_, ?_, kept.cached.unset identifier⟩, ?_⟩
  · exact fun path there => kept.housed path (mem_of_mem_deleteBelow there)
  · have dropped : Tracks (· ∈ used) (forget catalog.renamedTables.lookup identifier)
        (Function.update held identifier none) (Stored warehouse (deleteBelow catalog.files
          (warehouse.directory (catalog.physicalIdentifier identifier)))) := by
      apply kept.tracks.drop
      · exact fun here _ stored => stored.none_deleteBelow _
      · exact .deleted _ (inside_self _)
      · intro other known differs present stored
        exact stored.left (alone other known differs (mt tables_eq_none.mp present))
    rw [← lookup_forget] at dropped
    exact dropped
  · rw [tables_update]
    rfl

theorem Kept.dropNamespace (kept : Kept warehouse used catalog held) {ns : Namespace}
    (allowed : Allowed warehouse used ⟨catalog, tables held⟩ (.dropNamespace ns)) :
    Next warehouse used held (.dropNamespace ns) (catalog.dropNamespace warehouse ns) := by
  unfold Catalog.dropNamespace
  cases levels : ns.levels with
  | nil => exact ⟨held, kept, rfl⟩
  | cons first rest =>
    have exactly : ∀ identifier ∈ used, held identifier ≠ none → (identifier.ns = ns ↔
        inside (warehouse.segments (warehouse.namespacePath first))
          (physicalDirectory warehouse catalog identifier) = true) := by
      intro identifier member present
      simp only [Allowed, levels] at allowed
      exact allowed identifier member (mt tables_eq_none.mp present)
    have remembers : Remembers (fun identifier => if identifier.ns = ns then none else held identifier)
        fun identifier =>
          if identifier.ns.levels.head? = some first then none else catalog.cache identifier := by
      intro identifier version cached
      dsimp only at cached ⊢
      split at cached
      · cases cached
      · rename_i stays
        obtain ⟨number, name, found⟩ := kept.cached identifier version cached
        refine ⟨number, name, ?_⟩
        have other : identifier.ns ≠ ns := by
          rintro rfl
          exact stays (by rw [levels]; rfl)
        rwa [if_neg other]
    refine ⟨_, ⟨?_, ?_, remembers⟩, ?_⟩
    · exact fun path there => kept.housed path (mem_of_mem_deleteBelow there)
    · apply kept.tracks.clear
      · exact fun here _ stored => stored.none_deleteBelow _
      · exact fun name member present gone => .deleted _ ((exactly name member present).mp gone)
      · intro name member present stays stored
        apply stored.left
        exact Bool.eq_false_iff.mpr fun within => stays ((exactly name member present).mpr within)
    · funext identifier
      by_cases same : identifier.ns = ns
      · simp [tables, Names.after, same]
      · simp [tables, Names.after, same]

/-- What one call keeps. -/
theorem Kept.step (kept : Kept warehouse used catalog held) (apart : Apart warehouse used)
    {request : Request} (allowed : Allowed warehouse used ⟨catalog, tables held⟩ request) :
    Next warehouse used held request (catalog.perform warehouse request) := by
  cases request with
  | createTable identifier metadata => exact kept.createTable apart metadata allowed
  | updateTable identifier commit now transactionUuid =>
    exact kept.updateTable apart commit now transactionUuid allowed
  | renameTable source destination => exact kept.renameTable apart allowed.1 allowed.2
  | dropTable identifier => exact kept.dropTable apart allowed
  | dropNamespace ns => exact kept.dropNamespace allowed
  | loadTabular identifier => exact kept.loadTabular apart allowed

/-- What a run keeps. -/
theorem Kept.run (kept : Kept warehouse used catalog held) (apart : Apart warehouse used)
    {requests : List Request} (meets : Meets warehouse used ⟨catalog, tables held⟩ requests) :
    ∃ held', Kept warehouse used (run warehouse ⟨catalog, tables held⟩ requests).catalog held' ∧
      (run warehouse ⟨catalog, tables held⟩ requests).names = tables held' := by
  induction requests generalizing catalog held with
  | nil => exact ⟨held, kept, rfl⟩
  | cons request requests ih =>
    obtain ⟨allowed, rest⟩ := meets
    obtain ⟨held', kept', names⟩ := kept.step apart allowed
    have stepped : FileNames.step warehouse ⟨catalog, tables held⟩ request =
        ⟨(catalog.perform warehouse request).2, tables held'⟩ := by
      rw [FileNames.step, names]
    rw [stepped] at rest
    obtain ⟨last, keeps, same⟩ := ih kept' rest
    refine ⟨last, ?_, ?_⟩
    · rwa [FileNames.run, List.foldl_cons, stepped]
    · rwa [FileNames.run, List.foldl_cons, stepped]

/-- Nothing is there to begin with. -/
theorem Kept.empty : Kept warehouse used .empty fun _ => none where
  housed path there := absurd there (AList.notMem_empty _)
  tracks :=
    { closed := fun _ _ found => by cases found
      single := fun _ _ _ found => by cases found
      shown := fun _ _ _ _ _ there => absurd there (AList.notMem_empty _)
      free := fun _ _ _ _ _ there => absurd there (AList.notMem_empty _)
      away := fun _ _ => rfl }
  cached _ _ cached := by cases cached

/-- A table is loaded as what its name has. -/
theorem Kept.loaded (kept : Kept warehouse used catalog held) (apart : Apart warehouse used)
    (member : identifier ∈ used) :
    (catalog.loadTabular warehouse identifier).1 =
      match tables held identifier with
      | some metadata => .table metadata
      | none => .failed .catalogNotFound := by
  unfold Catalog.loadTabular
  rw [kept.metadataLocation apart member, tables]
  cases found : held identifier with
  | none => rfl
  | some version =>
    simp only [kept.read member found]
    rfl

end Keeping

/-- Whether a request is about a name. -/
def Request.Concerns (identifier : Identifier) : Request → Prop
  | .createTable name _ => name = identifier
  | .updateTable name _ _ _ => name = identifier
  | .renameTable source destination => source = identifier ∨ destination = identifier
  | .dropTable name => name = identifier
  | .dropNamespace ns => identifier.ns = ns
  | .loadTabular _ => False

/-- A call leaves the tables of the names alone that it is not about. -/
theorem after_of_unconcerned {names : Names} {request : Request} {identifier : Identifier}
    (unconcerned : ¬ request.Concerns identifier) (answer : Answer) :
    names.after request answer identifier = names identifier := by
  cases request with
  | createTable name metadata =>
    cases answer with
    | table created => exact Function.update_of_ne (Ne.symm unconcerned) _ _
    | _ => rfl
  | updateTable name commit now transactionUuid =>
    cases answer with
    | table updated => exact Function.update_of_ne (Ne.symm unconcerned) _ _
    | _ => rfl
  | renameTable source destination =>
    cases answer with
    | done =>
      obtain ⟨one, two⟩ := not_or.mp unconcerned
      simp only [Names.after]
      split
      · rfl
      · rw [Function.update_of_ne (Ne.symm two), Function.update_of_ne (Ne.symm one)]
    | _ => rfl
  | dropTable name =>
    cases answer with
    | done => exact Function.update_of_ne (Ne.symm unconcerned) _ _
    | _ => rfl
  | dropNamespace ns =>
    cases answer with
    | done => exact if_neg unconcerned
    | _ => rfl
  | loadTabular name =>
    cases answer <;> rfl

/-- In every run of allowed calls, each name loads the metadata that was last committed under it, or
is reported as absent and can be created; and a further call changes what is loaded under no name
that it is not about. -/
theorem names_map (warehouse : Warehouse) {used : List Identifier} (apart : Apart warehouse used)
    {requests : List Request} (meets : Meets warehouse used .empty requests) {identifier : Identifier}
    (member : identifier ∈ used) :
    let state := run warehouse .empty requests
    let loaded (catalog : Catalog) := (catalog.loadTabular warehouse identifier).1
    loaded state.catalog = (match state.names identifier with
      | some metadata => .table metadata
      | none => .failed .catalogNotFound) ∧
    state.catalog.tabularExists warehouse identifier = .ok (state.names identifier).isSome ∧
    (state.names identifier = none → ∀ metadata, ∃ created,
      (state.catalog.createTable warehouse identifier metadata).1 = .table created) ∧
    (∀ request, Allowed warehouse used state request → ¬ request.Concerns identifier →
      loaded (step warehouse state request).catalog = loaded state.catalog) := by
  intro state loaded
  have kept : ∃ held, Kept warehouse used state.catalog held ∧ state.names = tables held :=
    Kept.empty.run apart meets
  obtain ⟨held, kept, names⟩ := kept
  have named : state = ⟨state.catalog, tables held⟩ := by rw [← names]
  refine ⟨?_, ?_, ?_, ?_⟩
  · exact names ▸ kept.loaded apart member
  · refine (kept.tabularExists apart member).trans ?_
    rw [names, tables, Option.isSome_map]
  · intro absent metadata
    have missing : held identifier = none := tables_eq_none.mp (names ▸ absent)
    obtain ⟨location, located, -⟩ := apart.location member
    refine ⟨{ metadata with location := location }, ?_⟩
    unfold Catalog.createTable
    rw [kept.tabularExists apart member, located, missing]
    rfl
  · intro request allowed unconcerned
    obtain ⟨held', kept', after⟩ := kept.step apart (named ▸ allowed)
    refine (kept'.loaded apart member).trans ((kept.loaded apart member).trans ?_).symm
    rw [← after, after_of_unconcerned unconcerned]

/-! ### Names that are given up -/

section Decidable

section

variable (warehouse : Warehouse) (used : List Identifier) (state : State)

instance : Decidable (Apart warehouse used) :=
  decidable_of_iff ((∀ identifier ∈ used, identifier.ns.levels ≠ []) ∧
    ∀ one ∈ used, ∀ other ∈ used, one ≠ other →
      warehouse.directory one ≠ warehouse.directory other ∧
        nested (warehouse.directory one) (warehouse.directory other) = false)
    ⟨fun ⟨levels, directories⟩ => ⟨levels, directories⟩,
      fun ⟨levels, directories⟩ => ⟨levels, directories⟩⟩

instance (catalog : Catalog) (identifier : Identifier) (metadata : TableMetadata) :
    Decidable (Stays warehouse catalog identifier metadata) := inferInstanceAs (Decidable (_ ∧ _))

instance (request : Request) : Decidable (Allowed warehouse used state request) :=
  match request with
  | .createTable _ _ => inferInstanceAs (Decidable (_ ∧ (_ → _)))
  | .updateTable identifier commit now _ =>
    have _settled : Decidable (match state.catalog.cache identifier with
        | none => True
        | some previous => checkTableRequirements commit.requirements previous.metadata = true →
          match applyTableUpdates previous.metadata commit.updates now with
          | .error _ => True
          | .ok metadata => Stays warehouse state.catalog identifier metadata) :=
      match state.catalog.cache identifier with
      | none => .isTrue trivial
      | some previous =>
        have _applied : Decidable (match applyTableUpdates previous.metadata commit.updates now with
            | .error _ => True
            | .ok metadata => Stays warehouse state.catalog identifier metadata) :=
          match applyTableUpdates previous.metadata commit.updates now with
          | .error _ => .isTrue trivial
          | .ok metadata =>
            inferInstanceAs (Decidable (Stays warehouse state.catalog identifier metadata))
        inferInstanceAs (Decidable (_ → _))
    inferInstanceAs (Decidable (_ ∧ _))
  | .renameTable _ _ => inferInstanceAs (Decidable (_ ∧ _))
  | .dropTable identifier => inferInstanceAs (Decidable (_ ∧ ∀ other ∈ used, other ≠ identifier → _))
  | .dropNamespace ns =>
    have exactly : Decidable (match ns.levels with
        | [] => True
        | first :: _ => ∀ identifier ∈ used, state.names identifier ≠ none →
            (identifier.ns = ns ↔ inside (warehouse.segments (warehouse.namespacePath first))
              (physicalDirectory warehouse state.catalog identifier) = true)) :=
      match ns.levels with
      | [] => .isTrue trivial
      | _ :: _ => inferInstanceAs (Decidable (∀ identifier ∈ used, _ → _))
    exactly
  | .loadTabular _ => inferInstanceAs (Decidable (_ ∈ _))

end

instance decidableMeets (warehouse : Warehouse) (used : List Identifier) :
    (state : State) → (requests : List Request) → Decidable (Meets warehouse used state requests)
  | _, [] => .isTrue trivial
  | state, request :: requests =>
    have := decidableMeets warehouse used (step warehouse state request) requests
    inferInstanceAs (Decidable (_ ∧ _))

end Decidable

/-- A catalog whose locations are stored as their texts are. -/
def memory : Warehouse where
  path := "/warehouse/"
  segments location := ((location.toList.splitOn '/').filter (· ≠ [])).map String.ofList
  plain _ := true

def orders : Identifier := ⟨⟨["sales"]⟩, "orders"⟩

def archived : Identifier := ⟨⟨["archive"]⟩, "orders"⟩

def owned (owner : String) : TableMetadata :=
  { longTable .v2 with properties := AList.singleton "owner" owner }

def setOwner (owner : String) : TableTransaction.CommitTable :=
  ⟨[], [.setProperties (AList.singleton "owner" owner)]⟩

/-- The owner of the table that is loaded under a name. -/
def loadedOwner (state : State) (identifier : Identifier) : Option String :=
  match (state.catalog.loadTabular memory identifier).1 with
  | .table metadata => metadata.properties.lookup "owner"
  | _ => none

/-- A table is renamed, updated under both its names, and renamed back. -/
def thereAndBack : List Request :=
  [.createTable orders (owned "ada"), .updateTable orders (setOwner "eve") 1 ⟨1⟩,
    .renameTable orders archived, .updateTable archived (setOwner "bob") 2 ⟨2⟩,
    .renameTable archived orders, .dropTable archived]

theorem names_map_thereAndBack :
    loadedOwner (run memory .empty thereAndBack) orders = some "bob" ∧
      (run memory .empty thereAndBack).catalog.tabularExists memory archived = .ok false := by
  have apart : Apart memory [orders, archived] := by decide +kernel
  have meets : Meets memory [orders, archived] .empty thereAndBack := by decide +kernel
  obtain ⟨loaded, -⟩ := names_map memory apart meets (show orders ∈ _ by decide)
  obtain ⟨-, there, -⟩ := names_map memory apart meets (show archived ∈ _ by decide)
  refine ⟨?_, there.trans (by decide +kernel)⟩
  unfold loadedOwner
  dsimp only at loaded
  rw [loaded]
  decide +kernel

/-- A table is renamed, and then the name it had is used once more. -/
def usedAgain (request : Request) : State :=
  run memory .empty [.createTable orders (owned "ada"), .renameTable orders archived, request]

/-- A new table under the name that was given up is not found, and has replaced the other one. What
is dropped under that name, or with its namespace, is the table that has another name now. -/
theorem usedAgain_not_map :
    (((usedAgain (.createTable orders (owned "eve"))).names orders).isSome = true ∧
      loadedOwner (usedAgain (.createTable orders (owned "eve"))) orders = none ∧
      ((usedAgain (.createTable orders (owned "eve"))).names archived).bind
        (·.properties.lookup "owner") = some "ada" ∧
      loadedOwner (usedAgain (.createTable orders (owned "eve"))) archived = some "eve") ∧
    (((usedAgain (.dropTable orders)).names archived).isSome = true ∧
      loadedOwner (usedAgain (.dropTable orders)) archived = none) ∧
    (((usedAgain (.dropNamespace orders.ns)).names archived).isSome = true ∧
      loadedOwner (usedAgain (.dropNamespace orders.ns)) archived = none) := by
  decide +kernel

end IcebergRust.FileNames

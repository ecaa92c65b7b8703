import IcebergRust.Catalog.FileCommits
import IcebergRust.Catalog.Tabular

/-!
# Tables and views of the file catalog

`create_table`, `create_view`, `create_materialized_view`, their updates and `load_tabular` of
`iceberg-file-catalog/src/lib.rs`, for one identifier that is not dropped and any number of
instances with a cache each, one object store request or cache access at a time.

Every commit is recorded with the files it finds. If each goes to the location of the table, with
a number above all that are taken, then the last one is what `metadata_location` finds.
-/

namespace IcebergRust.FileTabulars

open FileCatalog

abbrev TabularPaths := HashMap MetadataPath TabularFile

/-- Metadata and the file it is in. -/
structure Placed where
  path : MetadataPath
  metadata : TabularMetadata

/-- An update on its way. -/
structure Update where
  previous : MetadataPath
  metadata : TabularMetadata
  transactionUuid : Uuid

namespace Update

variable (update : Update)

def gzipped : Bool := metadataIsGzipped update.metadata.properties

/-- `new_metadata_location`. -/
def tempMetadataLocation : MetadataPath :=
  ⟨update.metadata.location,
    .unique update.metadata.sequenceNumber update.transactionUuid update.gzipped⟩

end Update

/-- A commit when it becomes visible, with what is in the object store just before. -/
structure Committed where
  metadata : TabularMetadata
  created : Bool
  target : MetadataPath
  found : TabularPaths

/-- The first version is never compressed, whatever its metadata asks for. -/
def Committed.compressed (committed : Committed) : Bool :=
  !committed.created && metadataIsGzipped committed.metadata.properties

/-- What the instances share, and the cache of each. The commits are listed newest first. -/
structure Shared where
  files : TabularPaths
  caches : Nat → Option Placed
  uuids : List Uuid
  commits : List Committed

namespace Shared

variable (shared : Shared)

def empty : Shared := ⟨∅, fun _ => none, [], []⟩

def cache (catalog : Nat) (entry : Placed) : Shared :=
  { shared with caches := Function.update shared.caches catalog (some entry) }

def put (path : MetadataPath) (content : TabularFile) : Shared :=
  { shared with files := shared.files.insert path content }

/-- A commit becomes visible. -/
def commit (metadata : TabularMetadata) (created : Bool) (target : MetadataPath)
    (content : TabularFile) : Shared :=
  { shared.put target content with
    commits := ⟨metadata, created, target, shared.files⟩ :: shared.commits }

end Shared

/-- The metadata of a creation is given the location of the table. -/
def withLocation (table : String) : TabularMetadata → TabularMetadata
  | .table metadata => .table { metadata with location := table }
  | .view metadata => .view { metadata with location := table }
  | .materializedView metadata => .materializedView { metadata with location := table }

/-- `order` is the order of a listing the call begins with. -/
inductive Request where
  | loadTabular (catalog : Nat) (order : List MetadataPath)
  | create (catalog : Nat) (metadata : TabularMetadata) (order : List MetadataPath)
  | update (catalog : Nat) (commit : TabularCommit) (transactionUuid : Uuid)

/-- A call between two steps. -/
inductive Call where
  /-- `load_tabular` has found the current version. -/
  | located (catalog : Nat) (path : MetadataPath)
  /-- The metadata is known and about to be cached. -/
  | known (catalog : Nat) (entry : Placed)
  /-- An update has computed the new metadata. -/
  | computed (catalog : Nat) (update : Update)
  /-- It has been written to a file of its own. -/
  | staged (catalog : Nat) (update : Update)
  /-- A creation has found no version. -/
  | absent (catalog : Nat) (metadata : TabularMetadata)

/-- The metadata files below a location. -/
def pathsBelow (table : String) (files : TabularPaths) : List MetadataPath :=
  files.keys.filter fun path => path.location = table

/-- A call up to its first pause. A UUID is never drawn again. -/
def begin (table : String) (request : Request) (shared : Shared) : Shared × Option Call :=
  match request with
  | .loadTabular catalog order =>
    (shared, (metadataLocation (arrange order (pathsBelow table shared.files))).map (.located catalog))
  | .create catalog metadata order =>
    match metadataLocation (arrange order (pathsBelow table shared.files)) with
    | some _ => (shared, none)
    | none => (shared, some (.absent catalog (withLocation table metadata)))
  | .update catalog commit transactionUuid =>
    if transactionUuid ∈ shared.uuids then (shared, none)
    else match shared.caches catalog with
      | none => (shared, none)
      | some entry =>
        match commit.apply entry.metadata with
        | .error _ => (shared, none)
        | .ok metadata =>
          ({ shared with uuids := transactionUuid :: shared.uuids },
            some (.computed catalog ⟨entry.path, metadata, transactionUuid⟩))

/-- The next step of a call. -/
def advance (table : String) (call : Call) (shared : Shared) : Shared × Option Call :=
  match call with
  | .located catalog path =>
    match (shared.files.lookup path).map TabularFile.fromSlice with
    | some (.ok metadata) => (shared, some (.known catalog ⟨path, metadata⟩))
    | _ => (shared, none)
  | .known catalog entry => (shared.cache catalog entry, none)
  | .computed catalog update =>
    (shared.put update.tempMetadataLocation ⟨update.gzipped, update.metadata⟩,
      some (.staged catalog update))
  | .staged catalog update =>
    match newFilesystemMetadataLocation update.metadata.location update.previous update.gzipped,
        shared.files.lookup update.tempMetadataLocation with
    | .ok target, some content =>
      if target ∈ shared.files then (shared, none)
      else (shared.commit update.metadata false target content,
        some (.known catalog ⟨target, update.metadata⟩))
    | _, _ => (shared, none)
  | .absent catalog metadata =>
    (shared.commit metadata true (firstPath table) ⟨false, metadata⟩,
      some (.known catalog ⟨firstPath table, metadata⟩))

def system (table : String) : Interleaving.System Shared Call Request Unit :=
  ⟨begin table, fun _ => advance table⟩

abbrev Event := Interleaving.Event Request Unit

/-- A run of any number of instances, from before the table is first created. -/
def runTabulars (table : String) (events : List Event) : Interleaving.State Shared Call :=
  Interleaving.run (system table) ⟨.empty, []⟩ events

/-! ### The last commit -/

/-- A commit goes to the location of the table, with a number above all that are taken. -/
structure Newest (table : String) (committed : Committed) : Prop where
  located : committed.target.location = table
  above : ∀ path ∈ committed.found, Numbered table path →
    path.version < committed.target.version

/-- The last commit is stored, and no other file has a number as high. -/
structure Last (table : String) (files : TabularPaths) (committed : Committed) : Prop where
  numbered : Numbered table committed.target
  stored : files.lookup committed.target = some ⟨committed.compressed, committed.metadata⟩
  above : ∀ path ∈ files, Numbered table path → path ≠ committed.target →
    path.version < committed.target.version

/-- What holds of a call between two steps. -/
def CallSound (shared : Shared) : Call → Prop
  | .computed _ update => update.transactionUuid ∈ shared.uuids
  | .staged _ update => update.transactionUuid ∈ shared.uuids ∧
    shared.files.lookup update.tempMetadataLocation = some ⟨update.gzipped, update.metadata⟩
  | _ => True

/-- The UUID of an update whose file of its own may be there. -/
def Call.uuid : Call → Option Uuid
  | .computed _ update => some update.transactionUuid
  | .staged _ update => some update.transactionUuid
  | _ => none

/-- Calls draw different UUIDs. -/
def Apart (one other : Call) : Prop :=
  ∀ transactionUuid, one.uuid = some transactionUuid → other.uuid ≠ some transactionUuid

/-- What holds of the files in a run whose commits are each the newest. -/
def Sound (table : String) (shared : Shared) : Prop :=
  (∀ committed ∈ shared.commits, Newest table committed) →
    ∀ committed, shared.commits.head? = some committed → Last table shared.files committed

section Steps

variable {table : String} {shared after : Shared}

/-- A number above all that are taken makes a commit the last one. -/
theorem last_insert {committed : Committed} (newest : Newest table committed)
    (versioned : committed.target.isVersioned = true) :
    Last table (committed.found.insert committed.target
      ⟨committed.compressed, committed.metadata⟩) committed where
  numbered := ⟨newest.located, versioned⟩
  stored := AList.lookup_insert _
  above path member numbered differs :=
    newest.above path ((AList.mem_insert _ |>.mp member).resolve_left differs) numbered

/-- A file of its own leaves the last commit as it is. -/
theorem Last.put {files : TabularPaths} {committed : Committed} (last : Last table files committed)
    (update : Update) (content : TabularFile) :
    Last table (files.insert update.tempMetadataLocation content) committed where
  numbered := last.numbered
  stored := by
    refine (AList.lookup_insert_ne ?_).trans last.stored
    intro same
    have versioned := last.numbered.2
    rw [same] at versioned
    cases versioned
  above path member numbered differs := by
    refine last.above path ((AList.mem_insert _ |>.mp member).resolve_left ?_) numbered differs
    rintro rfl
    cases numbered.2

theorem Sound.commit (metadata : TabularMetadata) (created : Bool) (target : MetadataPath)
    (content : TabularFile) (versioned : target.isVersioned = true)
    (written : content = ⟨!created && metadataIsGzipped metadata.properties, metadata⟩) :
    Sound table (shared.commit metadata created target content) := by
  intro newest committed head
  cases head
  rw [written]
  exact last_insert (newest _ List.mem_cons_self) versioned

/-- What a request does up to its first pause. -/
inductive Begins (shared : Shared) : Shared → Option Call → Prop
  | returned : Begins shared shared none
  | located (catalog : Nat) (path : MetadataPath) :
      Begins shared shared (some (.located catalog path))
  | absent (catalog : Nat) (metadata : TabularMetadata) :
      Begins shared shared (some (.absent catalog metadata))
  | computed (catalog : Nat) (update : Update) (fresh : update.transactionUuid ∉ shared.uuids) :
      Begins shared { shared with uuids := update.transactionUuid :: shared.uuids }
        (some (.computed catalog update))

theorem begin_begins (table : String) (request : Request) (shared : Shared) :
    Begins shared (begin table request shared).1 (begin table request shared).2 := by
  unfold FileTabulars.begin
  split
  · rename_i catalog order
    cases metadataLocation (arrange order (pathsBelow table shared.files)) with
    | none => exact .returned
    | some path => exact .located catalog path
  · split
    · exact .returned
    · exact .absent _ _
  · split
    · exact .returned
    · rename_i fresh
      split
      · exact .returned
      · split
        · exact .returned
        · exact .computed _ ⟨_, _, _⟩ fresh

/-- What the next step of a call does. -/
inductive Proceeds (table : String) (shared : Shared) : Call → Shared → Option Call → Prop
  | ended (call : Call) : Proceeds table shared call shared none
  | fetched (catalog : Nat) (path : MetadataPath) (metadata : TabularMetadata) :
      Proceeds table shared (.located catalog path) shared (some (.known catalog ⟨path, metadata⟩))
  | cached (catalog : Nat) (entry : Placed) :
      Proceeds table shared (.known catalog entry) (shared.cache catalog entry) none
  | staged (catalog : Nat) (update : Update) :
      Proceeds table shared (.computed catalog update)
        (shared.put update.tempMetadataLocation ⟨update.gzipped, update.metadata⟩)
        (some (.staged catalog update))
  | copied (catalog : Nat) (update : Update) (target : MetadataPath) (content : TabularFile)
      (named : newFilesystemMetadataLocation update.metadata.location update.previous
        update.gzipped = .ok target)
      (own : shared.files.lookup update.tempMetadataLocation = some content) :
      Proceeds table shared (.staged catalog update)
        (shared.commit update.metadata false target content)
        (some (.known catalog ⟨target, update.metadata⟩))
  | created (catalog : Nat) (metadata : TabularMetadata) :
      Proceeds table shared (.absent catalog metadata)
        (shared.commit metadata true (firstPath table) ⟨false, metadata⟩)
        (some (.known catalog ⟨firstPath table, metadata⟩))

theorem advance_proceeds (table : String) (call : Call) (shared : Shared) :
    Proceeds table shared call (advance table call shared).1 (advance table call shared).2 := by
  cases call with
  | located catalog path =>
    simp only [advance]
    split
    · exact .fetched catalog path _
    · exact .ended _
  | known catalog entry => exact .cached catalog entry
  | computed catalog update => exact .staged catalog update
  | staged catalog update =>
    simp only [advance]
    split
    · rename_i target content named own
      split
      · exact .ended _
      · exact .copied catalog update target content named own
    · exact .ended _
  | absent catalog metadata => exact .created catalog metadata

theorem CallSound.drawn {call : Call} (sound : CallSound shared call) {transactionUuid : Uuid}
    (own : call.uuid = some transactionUuid) : transactionUuid ∈ shared.uuids := by
  cases call with
  | computed => cases own; exact sound
  | staged => cases own; exact sound.1
  | _ => cases own

theorem Begins.sound {call : Option Call} (begins : Begins shared after call)
    (sound : Sound table shared) : Sound table after ∧ ∀ begun ∈ call, CallSound after begun := by
  cases begins with
  | returned => exact ⟨sound, by simp⟩
  | computed catalog update fresh =>
    refine ⟨sound, fun begun member => ?_⟩
    cases member
    exact List.mem_cons_self
  | _ =>
    refine ⟨sound, fun begun member => ?_⟩
    cases member
    trivial

theorem Begins.others {call : Option Call} {other : Call} (begins : Begins shared after call)
    (there : CallSound shared other) :
    CallSound after other ∧ ∀ begun ∈ call, Apart other begun := by
  cases begins with
  | returned => exact ⟨there, by simp⟩
  | computed catalog update fresh =>
    refine ⟨?_, fun begun member own mine same => ?_⟩
    · cases other with
      | computed => exact List.mem_cons_of_mem _ there
      | staged => exact ⟨List.mem_cons_of_mem _ there.1, there.2⟩
      | _ => trivial
    · cases member
      cases same
      exact fresh (there.drawn mine)
  | _ =>
    refine ⟨there, fun begun member own mine => ?_⟩
    cases member
    simp [Call.uuid]

/-- A numbered file is no file of an update's own. -/
theorem tempMetadataLocation_ne {update : Update} {path : MetadataPath}
    (versioned : path.isVersioned = true) : update.tempMetadataLocation ≠ path := by
  rintro rfl
  cases versioned

theorem isVersioned_target {location : String} {previous target : MetadataPath} {gzipped : Bool}
    (named : newFilesystemMetadataLocation location previous gzipped = .ok target) :
    target.isVersioned = true := by
  obtain ⟨n, -, rfl⟩ := numbered_target named
  rfl

theorem Proceeds.sound {call : Call} {next : Option Call}
    (proceeds : Proceeds table shared call after next) (sound : Sound table shared)
    (here : CallSound shared call) :
    Sound table after ∧ ∀ following ∈ next, CallSound after following := by
  cases proceeds with
  | ended => exact ⟨sound, by simp⟩
  | fetched =>
    refine ⟨sound, fun following member => ?_⟩
    cases member
    trivial
  | cached => exact ⟨sound, by simp⟩
  | staged catalog update =>
    refine ⟨fun newest committed head => ?_, fun following member => ?_⟩
    · exact (sound newest committed head).put update _
    · cases member
      exact ⟨here, AList.lookup_insert _⟩
  | copied catalog update target content named own =>
    refine ⟨.commit _ _ _ _ (isVersioned_target named) ?_, fun following member => ?_⟩
    · exact Option.some.inj (own.symm.trans here.2)
    · cases member
      trivial
  | created catalog metadata =>
    refine ⟨.commit _ _ _ _ rfl rfl, fun following member => ?_⟩
    cases member
    trivial

theorem Proceeds.others {call other : Call} {next : Option Call}
    (proceeds : Proceeds table shared call after next) (there : CallSound shared other)
    (apart : Apart call other) :
    CallSound after other ∧ ∀ following ∈ next, Apart following other := by
  have silent : ∀ following : Call, following.uuid = none → Apart following other :=
    fun following nothing own mine => absurd (nothing.symm.trans mine) (by simp)
  -- A numbered file leaves what an update has written for itself.
  have numbered : ∀ {metadata created target content}, target.isVersioned = true →
      CallSound (shared.commit metadata created target content) other := by
    intro metadata created target content versioned
    cases other with
    | computed => exact there
    | staged =>
      exact ⟨there.1, (AList.lookup_insert_ne (tempMetadataLocation_ne versioned)).trans there.2⟩
    | _ => trivial
  cases proceeds with
  | ended => exact ⟨there, by simp⟩
  | fetched => exact ⟨there, by simpa using silent _ rfl⟩
  | cached => exact ⟨by cases other <;> exact there, by simp⟩
  | staged catalog update =>
    refine ⟨?_, fun following member => ?_⟩
    · cases other with
      | staged _ own =>
        refine ⟨there.1, (AList.lookup_insert_ne ?_).trans there.2⟩
        intro same
        obtain ⟨-, names⟩ := MetadataPath.mk.injEq .. |>.mp same
        obtain ⟨-, drawn, -⟩ := MetadataName.unique.injEq .. |>.mp names
        exact apart _ rfl (congrArg some drawn)
      | computed => exact there
      | _ => trivial
    · cases member
      exact apart
  | copied catalog update target content named own =>
    exact ⟨numbered (isVersioned_target named), by simpa using silent _ rfl⟩
  | created => exact ⟨numbered rfl, by simpa using silent _ rfl⟩

theorem keeps (table : String) :
    Interleaving.Keeps (system table) (Sound table) CallSound Apart where
  symm apart own mine same := apart own same mine
  begin request {shared} sound := (begin_begins table request shared).sound sound
  beginOther request {shared _} _ there := (begin_begins table request shared).others there
  advance _ {shared call} sound here := (advance_proceeds table call shared).sound sound here
  advanceOther _ {shared call _} _ _ there apart :=
    (advance_proceeds table call shared).others there apart

end Steps

/-- In every run whose commits are each the newest, the last one is stored with the highest
number. -/
theorem last_run (table : String) (events : List Event) :
    Sound table (runTabulars table events).shared := by
  have empty : Sound table .empty := fun _ _ head => nomatch head
  refine (Interleaving.holds_run (keeps table) ⟨empty, ?_, .nil⟩ events).shared
  exact fun call member => absurd member List.not_mem_nil

/-- Whatever the order of the listing, the last commit is what `metadata_location` finds. -/
theorem Last.found {table : String} {files : TabularPaths} {committed : Committed}
    (last : Last table files committed) (order : List MetadataPath) :
    metadataLocation (arrange order (pathsBelow table files)) = some committed.target := by
  have listed : ∀ path, path ∈ arrange order (pathsBelow table files) ↔
      path ∈ files ∧ path.location = table := by
    intro path
    rw [mem_arrange, pathsBelow, List.mem_filter, decide_eq_true_iff]
    rfl
  have member : committed.target ∈ files :=
    AList.lookup_isSome.mp (by rw [last.stored]; rfl)
  refine metadataLocation_eq ((listed _).mpr ⟨member, last.numbered.1⟩) last.numbered.2
    fun path there versioned le => ?_
  obtain ⟨stays, located⟩ := (listed path).mp there
  by_contra differs
  exact absurd (last.above path stays ⟨located, versioned⟩ differs) (Nat.not_lt.mpr le)

end IcebergRust.FileTabulars

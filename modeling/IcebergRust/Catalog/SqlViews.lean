import IcebergRust.Catalog.WrittenOnce
import IcebergRust.Lib.Interleaving

/-!
# Views in the SQL catalog

`create_view`, `update_view`, `create_materialized_view`, `update_materialized_view` and
`load_tabular` of `iceberg-sql-catalog/src/lib.rs`, for one identifier and any number of instances
with a cache each, one SQL statement, object store request or cache access at a time.

A row is inserted unless there is one, and an update moves it from the location it was computed
from; views have no metadata log, and no file is deleted.
-/

namespace IcebergRust.SqlViews

open TabularFiles

/-- What the instances share, and the cache of each. The row stores a location only; the metadata
is that which the file was written with. -/
structure Shared where
  row : Option TabularVersion
  files : TabularFiles
  caches : Nat → Option TabularVersion
  uuids : List Uuid

namespace Shared

variable (shared : Shared)

def empty : Shared := ⟨none, fun _ => none, fun _ => none, []⟩

def draw (transactionUuid : Uuid) : Shared :=
  { shared with uuids := transactionUuid :: shared.uuids }

def putMetadata (version : TabularVersion) : Shared :=
  { shared with files := shared.files.put version }

def cache (catalog : Nat) (entry : Option TabularVersion) : Shared :=
  { shared with caches := Function.update shared.caches catalog entry }

end Shared

inductive Request where
  | loadTabular (catalog : Nat)
  | create (catalog : Nat) (metadata : TabularMetadata) (transactionUuid : Uuid)
  | update (catalog : Nat) (commit : TabularCommit) (transactionUuid : Uuid)

/-- A call between two steps. `previous` is the location an update was computed from; a creation
has none. -/
inductive Call where
  /-- `load_tabular` has read the row. -/
  | selected (catalog : Nat) (location : String)
  /-- `load_tabular` has read the file. -/
  | fetched (catalog : Nat) (version : TabularVersion)
  /-- The new metadata is computed. -/
  | prepared (catalog : Nat) (previous : Option String) (version : TabularVersion)
      (transactionUuid : Uuid)
  /-- The new metadata is written. -/
  | written (catalog : Nat) (previous : Option String) (version : TabularVersion)
  /-- The row names the new metadata. -/
  | swapped (catalog : Nat) (version : TabularVersion)
  /-- The conditional update has matched no row. -/
  | lost (catalog : Nat)

/-- New metadata, and the location of its file. A UUID is never drawn again. -/
def prepare (catalog : Nat) (previous : Option String) (metadata : TabularMetadata)
    (transactionUuid : Uuid) (shared : Shared) : Shared × Option Call :=
  if transactionUuid ∈ shared.uuids then (shared, none)
  else (shared.draw transactionUuid,
    some (.prepared catalog previous ⟨metadata.newMetadataLocation transactionUuid, metadata⟩
      transactionUuid))

/-- A call up to its first pause. Tables are created and updated by functions of their own. -/
def begin (request : Request) (shared : Shared) : Shared × Option Call :=
  match request with
  | .loadTabular catalog =>
    (shared, shared.row.map fun version => .selected catalog version.location)
  | .create _ (.table _) _ | .update _ (.table _ _) _ => (shared, none)
  | .create catalog metadata transactionUuid =>
    prepare catalog none metadata transactionUuid shared
  | .update catalog commit transactionUuid =>
    match shared.caches catalog with
    | none => (shared, none)
    | some previous =>
      match commit.apply previous.metadata with
      | .error _ => (shared, none)
      | .ok metadata => prepare catalog (some previous.location) metadata transactionUuid shared

/-- The next step of a call. -/
def advance (call : Call) (shared : Shared) : Shared × Option Call :=
  match call with
  | .selected catalog location =>
    match (shared.files location).map TabularFile.fromSlice with
    | some (.ok metadata) => (shared, some (.fetched catalog ⟨location, metadata⟩))
    | _ => (shared, none)
  | .fetched catalog version => (shared.cache catalog (some version), none)
  | .prepared catalog previous version _ =>
    (shared.putMetadata version, some (.written catalog previous version))
  | .written catalog previous version =>
    if shared.row.map (·.location) = previous then
      ({ shared with row := some version }, some (.swapped catalog version))
    else if previous.isSome then (shared, some (.lost catalog))
    else (shared, none)
  | .swapped catalog version => (shared.cache catalog (some version), none)
  | .lost catalog => (shared.cache catalog none, none)

def system : Interleaving.System Shared Call Request Unit := ⟨begin, fun _ => advance⟩

abbrev Event := Interleaving.Event Request Unit

/-- A run of any number of instances, from before the view is created. -/
def runViews (events : List Event) : Interleaving.State Shared Call :=
  Interleaving.run system ⟨.empty, []⟩ events

/-! ### Invariants -/

/-- What the row names is stored. -/
structure Filed (shared : Shared) : Prop where
  row : ∀ version, shared.row = some version →
    Stored TabularMetadata.newMetadataLocation shared.files version
  drawn : Drawn shared.files shared.uuids

/-- What holds of a call between two steps. -/
def CallFiled (shared : Shared) : Call → Prop
  | .prepared _ _ version transactionUuid =>
    Pending TabularMetadata.newMetadataLocation shared.files shared.uuids version transactionUuid
  | .written _ _ version => Stored TabularMetadata.newMetadataLocation shared.files version
  | _ => True

/-- The UUID of a call whose version is not written yet. -/
def Call.uuid : Call → Option Uuid
  | .prepared _ _ _ transactionUuid => some transactionUuid
  | _ => none

/-- Calls draw different UUIDs. -/
def Apart (one other : Call) : Prop :=
  ∀ transactionUuid, one.uuid = some transactionUuid → other.uuid ≠ some transactionUuid

section Steps

variable {shared after : Shared}

/-- What a request does up to its first pause. -/
inductive Begins (shared : Shared) : Shared → Option Call → Prop
  | returned : Begins shared shared none
  | selected (catalog : Nat) (location : String) :
      Begins shared shared (some (.selected catalog location))
  | prepared (catalog : Nat) (previous : Option String) (metadata : TabularMetadata)
      (transactionUuid : Uuid) (fresh : transactionUuid ∉ shared.uuids) :
      Begins shared (shared.draw transactionUuid)
        (some (.prepared catalog previous
          ⟨metadata.newMetadataLocation transactionUuid, metadata⟩ transactionUuid))

theorem prepare_begins (catalog : Nat) (previous : Option String) (metadata : TabularMetadata)
    (transactionUuid : Uuid) (shared : Shared) :
    Begins shared (prepare catalog previous metadata transactionUuid shared).1
      (prepare catalog previous metadata transactionUuid shared).2 := by
  unfold prepare
  split
  · exact .returned
  · rename_i fresh
    exact .prepared catalog previous metadata transactionUuid fresh

theorem begin_begins (request : Request) (shared : Shared) :
    Begins shared (begin request shared).1 (begin request shared).2 := by
  unfold SqlViews.begin
  split
  · cases shared.row with
    | none => exact .returned
    | some version => exact .selected _ version.location
  · exact .returned
  · exact .returned
  · exact prepare_begins _ _ _ _ _
  · split
    · exact .returned
    · split
      · exact .returned
      · exact prepare_begins _ _ _ _ _

/-- What the next step of a call does. -/
inductive Proceeds (shared : Shared) : Call → Shared → Option Call → Prop
  | ended (call : Call) : Proceeds shared call shared none
  | fetched (catalog : Nat) (location : String) (metadata : TabularMetadata) :
      Proceeds shared (.selected catalog location) shared
        (some (.fetched catalog ⟨location, metadata⟩))
  | cached (call : Call) (catalog : Nat) (entry : Option TabularVersion) :
      Proceeds shared call (shared.cache catalog entry) none
  | written (catalog : Nat) (previous : Option String) (version : TabularVersion)
      (transactionUuid : Uuid) :
      Proceeds shared (.prepared catalog previous version transactionUuid)
        (shared.putMetadata version) (some (.written catalog previous version))
  | swapped (catalog : Nat) (previous : Option String) (version : TabularVersion) :
      Proceeds shared (.written catalog previous version) { shared with row := some version }
        (some (.swapped catalog version))
  | lost (catalog : Nat) (previous : Option String) (version : TabularVersion) :
      Proceeds shared (.written catalog previous version) shared (some (.lost catalog))

theorem advance_proceeds (call : Call) (shared : Shared) :
    Proceeds shared call (advance call shared).1 (advance call shared).2 := by
  cases call with
  | selected catalog location =>
    simp only [advance]
    split
    · exact .fetched catalog location _
    · exact .ended _
  | fetched catalog version => exact .cached _ catalog (some version)
  | prepared catalog previous version transactionUuid =>
    exact .written catalog previous version transactionUuid
  | written catalog previous version =>
    simp only [advance]
    split
    · exact .swapped catalog previous version
    · split
      · exact .lost catalog previous version
      · exact .ended _
  | swapped catalog version => exact .cached _ catalog (some version)
  | lost catalog => exact .cached _ catalog none

theorem Begins.filed {call : Option Call} (begins : Begins shared after call)
    (filed : Filed shared) : Filed after ∧ ∀ begun ∈ call, CallFiled after begun := by
  cases begins with
  | returned => exact ⟨filed, by simp⟩
  | selected =>
    refine ⟨filed, fun begun member => ?_⟩
    cases member
    trivial
  | prepared catalog previous metadata transactionUuid fresh =>
    refine ⟨⟨filed.row, filed.drawn.mono (List.subset_cons_self _ _)⟩, fun begun member => ?_⟩
    cases member
    exact filed.drawn.pending fresh (.inl rfl)

theorem CallFiled.drawn {call : Call} (filed : CallFiled shared call) {transactionUuid : Uuid}
    (own : call.uuid = some transactionUuid) : transactionUuid ∈ shared.uuids := by
  cases call with
  | prepared => cases own; exact Pending.drawn filed
  | _ => cases own

theorem Begins.others {call : Option Call} {other : Call} (begins : Begins shared after call)
    (there : CallFiled shared other) :
    CallFiled after other ∧ ∀ begun ∈ call, Apart other begun := by
  cases begins with
  | returned => exact ⟨there, by simp⟩
  | selected =>
    refine ⟨there, fun begun member own mine => ?_⟩
    cases member
    simp [Call.uuid]
  | prepared catalog previous metadata transactionUuid fresh =>
    refine ⟨?_, fun begun member own mine same => ?_⟩
    · cases other with
      | prepared =>
        exact ⟨List.mem_cons_of_mem _ (Pending.drawn there), Pending.named there,
          Pending.unwritten there⟩
      | _ => exact there
    · cases member
      cases same
      exact fresh (there.drawn mine)

open TabularMetadata

theorem Proceeds.filed {call : Call} {next : Option Call}
    (proceeds : Proceeds shared call after next) (filed : Filed shared)
    (here : CallFiled shared call) : Filed after ∧ ∀ following ∈ next, CallFiled after following := by
  cases proceeds with
  | ended => exact ⟨filed, by simp⟩
  | fetched =>
    refine ⟨filed, fun following member => ?_⟩
    cases member
    trivial
  | cached => exact ⟨⟨filed.row, filed.drawn⟩, by simp⟩
  | written catalog previous version transactionUuid =>
    have kept := Pending.kept carriesUuid here
    refine ⟨⟨fun other current => (filed.row other current).kept kept, ?_⟩,
      fun following member => ?_⟩
    · exact Pending.drawn_put carriesUuid here filed.drawn
    · cases member
      exact Pending.stored here
  | swapped catalog previous version =>
    refine ⟨⟨fun other current => ?_, filed.drawn⟩, fun following member => ?_⟩
    · cases current
      exact here
    · cases member
      trivial
  | lost =>
    refine ⟨filed, fun following member => ?_⟩
    cases member
    trivial

theorem Proceeds.others {call other : Call} {next : Option Call}
    (proceeds : Proceeds shared call after next) (here : CallFiled shared call)
    (there : CallFiled shared other) (apart : Apart call other) :
    CallFiled after other ∧ ∀ following ∈ next, Apart following other := by
  have silent : ∀ following : Call, following.uuid = none → Apart following other :=
    fun following nothing own mine => absurd (nothing.symm.trans mine) (by simp)
  cases proceeds with
  | ended => exact ⟨there, by simp⟩
  | fetched => exact ⟨there, by simpa using silent _ rfl⟩
  | cached => exact ⟨by cases other <;> exact there, by simp⟩
  | written catalog previous version transactionUuid =>
    refine ⟨?_, by simpa using silent _ rfl⟩
    cases other with
    | prepared _ _ _ own =>
      refine ⟨Pending.drawn there, Pending.named there, ?_⟩
      refine Pending.unwritten_put carriesUuid here ?_ (Pending.unwritten there)
      rintro rfl
      exact apart _ rfl rfl
    | written => exact Stored.kept (Pending.kept carriesUuid here) there
    | _ => trivial
  | swapped => exact ⟨by cases other <;> exact there, by simpa using silent _ rfl⟩
  | lost => exact ⟨there, by simpa using silent _ rfl⟩

theorem keeps : Interleaving.Keeps system Filed CallFiled Apart where
  symm apart own mine same := apart own same mine
  begin request {shared} filed := (begin_begins request shared).filed filed
  beginOther request {shared _} _ there := (begin_begins request shared).others there
  advance _ {shared call} filed here := (advance_proceeds call shared).filed filed here
  advanceOther _ {shared call _} _ here there apart :=
    (advance_proceeds call shared).others here there apart

end Steps

/-- In every run what the row names is stored. -/
theorem filed_run (events : List Event) : Filed (runViews events).shared := by
  have empty : Filed .empty :=
    { row := by simp [Shared.empty]
      drawn := by simp [Shared.empty, Drawn] }
  refine (Interleaving.holds_run keeps ⟨empty, ?_, .nil⟩ events).shared
  exact fun call member => absurd member List.not_mem_nil

end IcebergRust.SqlViews

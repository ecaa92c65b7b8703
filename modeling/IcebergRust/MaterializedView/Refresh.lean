import IcebergRust.Table.Scan
import IcebergRust.Transaction.Operation
import IcebergRust.View.Operation
import Mathlib.Algebra.Order.Group.Multiset

/-!
# Refreshing a materialized view

`datafusion_iceberg/src/materialized_view/mod.rs`: what a refresh reads of the source
tables, what it writes to the storage table, and the refresh state it records.

* Tables are modelled by their rows.  A `Source` keeps the rows of the live files of each
  snapshot with their data sequence numbers, which is what `table_scan` selects by; the
  storage table keeps the rows and the refresh state of the head of each branch.
* A `Planner` is DataFusion: the queries of a view, their delta plans, and the names of
  tables.  The delta plans are exact for their inputs (`Query.deltas_exact`).
* `refresh` is `refresh_materialized_view` without interruption by other writers.
-/

namespace IcebergRust.MaterializedView

open View

variable {Row : Type}

/-! ### Source tables -/

/-- A snapshot of a source table: the live files, each with its data sequence number. -/
structure SourceSnapshot (Row : Type) where
  sequenceNumber : Int
  files : List (Int × Multiset Row)

/-- The rows of a snapshot. -/
def SourceSnapshot.rows (snapshot : SourceSnapshot Row) : Multiset Row :=
  (snapshot.files.map (·.2)).sum

structure Source (Row : Type) where
  formatVersion : FormatVersion
  uuid : Uuid
  lastSequenceNumber : Int
  snapshots : HashMap Int (SourceSnapshot Row)
  refs : HashMap String Int

namespace Source

variable (source : Source Row)

/-- `current_snapshot`, with the id of the snapshot.  In a table that is only appended to, the
current snapshot is the one of `main`. -/
def currentSnapshot (reference : Option String) :
    Except Error (Option (Int × SourceSnapshot Row)) :=
  match source.refs.lookup (branchName reference) with
  | some id => .ok ((source.snapshots.lookup id).map fun snapshot => (id, snapshot))
  | none =>
    if source.snapshots.entries.isEmpty ∨ (reference.isSome ∧ reference ≠ some "main") then .ok none
    else .error (.invalidFormat "snapshots")

def sequenceNumber (id : Int) : Option Int := (source.snapshots.lookup id).map (·.sequenceNumber)

/-- The end of a scan; it does not depend on the branch. -/
def scanEnd (finish : Option Int) : Except Error (Option (SourceSnapshot Row)) :=
  match finish.bind source.snapshots.lookup with
  | some snapshot => .ok (some snapshot)
  | none => (source.currentSnapshot none).map fun current => current.map (·.2)

/-- The rows `table_scan` reads of a snapshot range. -/
def scan (range : Option Int × Option Int) : Except Error (Multiset Row) := do
  match ← source.scanEnd range.2 with
  | none => .ok 0
  | some snapshot =>
    let sequences := (range.1.bind source.sequenceNumber, range.2.bind source.sequenceNumber)
    .ok ((snapshot.files.filter fun file => inSequenceRange sequences file.1).map (·.2)).sum

/-- The sequence number of the next snapshot.  Version 1 metadata keeps none, so it is zero when
the table is loaded again. -/
def nextSequenceNumber : Int :=
  if source.formatVersion = .v1 then 0 else source.lastSequenceNumber + 1

/-- An append to a branch. -/
def append (branch : Option String) (id : Int) (rows : Multiset Row) :
    Except Error (Source Row) := do
  let old ← source.currentSnapshot branch
  let files := (old.map (·.2.files)).getD []
  .ok { source with
    lastSequenceNumber := source.nextSequenceNumber
    snapshots := source.snapshots.insert id
      ⟨source.nextSequenceNumber, files ++ [(source.nextSequenceNumber, rows)]⟩
    refs := source.refs.insert (branchName branch) id }

end Source

/-! ### Queries -/

/-- `RefreshStrategy`. -/
inductive RefreshStrategy where
  | fullOverwrite
  | incrementalAppend
  | incrementalOverwrite
deriving DecidableEq, Repr

/-- The rows that are left after equality deletes. -/
def applyDeletes (sameKey : Row → Row → Bool) (deletes rows : Multiset Row) : Multiset Row :=
  rows.filter fun row => ∀ key ∈ deletes, sameKey key row = false

/-- A planned query.  `result` takes the rows of its relations in their order, and the delta plans
those of their old and their new part, and what they read of the storage table. -/
structure Query (Row : Type) where
  relations : List String
  strategy : RefreshStrategy
  readsStorage : Bool
  result : List (Multiset Row) → Multiset Row
  posDelta : List (Multiset Row) → List (Multiset Row) → Multiset Row → Multiset Row
  negDelta : List (Multiset Row) → List (Multiset Row) → Multiset Row → Multiset Row
  sameKey : Row → Row → Bool
  /-- What is appended and deleted turns the result over the old parts, or nothing where there are
  none, into the result over everything. -/
  deltas_exact : strategy = .incrementalAppend → ∀ old delta stored,
    old.length = relations.length → delta.length = relations.length →
    (stored = result old ∨ ((∀ rows ∈ old, rows = 0) ∧ stored = 0)) →
    let read := if readsStorage then stored else 0
    applyDeletes sameKey (negDelta old delta read) stored + posDelta old delta read =
      result (List.zipWith (· + ·) old delta)

abbrev FullIdentifier := String

/-- `query` plans the text of a query, `resolve` is the table a relation names in a catalog and a
namespace, and `session` the one it names in the session that runs the plan. -/
structure Planner (Row : Type) where
  query : String → Except Error (Query Row)
  resolve : String → String → String → FullIdentifier
  session : String → FullIdentifier

/-! ### The storage table -/

/-- `SourceTable`, without its name. -/
structure SourceState where
  uuid : Uuid
  snapshotId : Int
  ref : Option String
deriving DecidableEq, Repr

structure RefreshState where
  refreshVersionId : Int
  sourceStates : HashMap FullIdentifier SourceState
  refreshStartTimestampMs : Int

/-- The head of a branch of the storage table.  Its rows are lost where its files are deleted. -/
structure Head (Row : Type) where
  rows : Option (Multiset Row)
  refreshState : RefreshState

/-- The source tables, the view, and the branches of its storage table.  Where the locations of the
storage table are plain paths, the clean-up of a full refresh deletes what they name. -/
structure World (Row : Type) where
  sources : FullIdentifier → Option (Source Row)
  view : GeneralViewMetadata String
  heads : HashMap String (Head Row)
  plain : Bool

namespace World

variable (world : World Row)

def setSource (name : FullIdentifier) (source : Source Row) : World Row :=
  { world with sources := fun other => if other = name then some source else world.sources other }

@[simp] theorem setSource_self (name : FullIdentifier) (source : Source Row) :
    (world.setSource name source).sources name = some source := if_pos rfl

theorem setSource_of_ne {name other : FullIdentifier} (source : Source Row) (differ : other ≠ name) :
    (world.setSource name source).sources other = world.sources other := if_neg differ

/-- `current_snapshot` of the storage table. -/
def storageHead (branch : Option String) : Except Error (Option (Head Row)) :=
  match world.heads.lookup (branchName branch) with
  | some head => .ok (some head)
  | none =>
    if world.heads.entries.isEmpty ∨ (branch.isSome ∧ branch ≠ some "main") then .ok none
    else .error (.invalidFormat "snapshots")

/-- `StorageTable::refresh_state`. -/
def refreshState (versionId : Int) (branch : Option String) :
    Except Error (Option RefreshState) := do
  let head ← world.storageHead branch
  .ok ((head.map (·.refreshState)).filter fun state => state.refreshVersionId = versionId)

/-- The rows of a head, if they can be read. -/
def headRows (head : Option (Head Row)) : Except Error (Multiset Row) :=
  match head with
  | none => .ok 0
  | some head =>
    match head.rows with
    | some rows => .ok rows
    | none => .error (.objectStore "storage table")

/-- The scan of the storage table, which reads the main branch. -/
def scanStorage : Except Error (Multiset Row) := do
  let head ← world.storageHead none
  headRows head

end World

/-! ### Planning -/

/-- What a refresh takes of one source: the snapshot it records, and the ranges of the old and the
new part. -/
structure SourceTable (Row : Type) where
  identifier : FullIdentifier
  source : Source Row
  state : SourceState
  old : Option (Option Int × Option Int)
  delta : Option (Option Int × Option Int)

/-- The ranges of a source whose current snapshot is compared with the recorded one: fresh,
invalid, outdated, or not recorded. -/
def sourceRanges (current : Int) (recorded : Option Int) :
    Option (Option Int × Option Int) × Option (Option Int × Option Int) :=
  if some current = recorded then (some (none, none), none)
  else if some (-1) = recorded then (none, some (none, none))
  else match recorded with
    | some revision => (some (none, some revision), some (some revision, none))
    | none => (none, some (none, none))

/-- The snapshot of a source a refresh records: the one of the branch, or of `main`. -/
def sourceSnapshot (source : Source Row) (branch : Option String) : Except Error Int := do
  let onBranch ← source.currentSnapshot branch
  let onMain ← source.currentSnapshot none
  match onBranch.or onMain with
  | some (id, _) => .ok id
  | none => .error (.notFound "Snapshot in source table")

/-- The table a relation of a view version names. -/
def relationTable (planner : Planner Row) (version : Version String) (relation : String) :
    Except Error FullIdentifier :=
  match version.defaultNamespace with
  | namespaceName :: _ =>
    .ok (planner.resolve (version.defaultCatalog.getD "datafusion") namespaceName relation)
  | [] => .error (.panicked "index out of bounds")

/-- One relation of `get_source_tables`. -/
def sourceTable (planner : Planner Row) (world : World Row) (version : Version String)
    (branch : Option String) (old : Option RefreshState) (relation : String) :
    Except Error (SourceTable Row) := do
  let identifier ← relationTable planner version relation
  match world.sources identifier with
  | none => .error (.notFound identifier)
  | some source => do
    let current ← sourceSnapshot source branch
    let recorded := (old.bind (·.sourceStates.lookup identifier)).map (·.snapshotId)
    let ranges := sourceRanges current recorded
    .ok ⟨identifier, source, ⟨source.uuid, current, branch⟩, ranges.1, ranges.2⟩

/-- The rows of one part of a source; there is an empty table in place of a missing part. -/
def SourceTable.scan (table : SourceTable Row) (part : Option (Option Int × Option Int)) :
    Except Error (Multiset Row) :=
  match part with
  | none => .ok 0
  | some range => table.source.scan range

/-- A relation as the session scans it. -/
def sessionScan (planner : Planner Row) (world : World Row) (relation : String) :
    Except Error (Multiset Row) :=
  match world.sources (planner.session relation) with
  | none => .error (.notFound relation)
  | some source => source.scan (none, none)

/-- What a refresh commits to the storage table. -/
inductive StorageCommit (Row : Type) where
  | fullRefresh (rows : Multiset Row) (state : RefreshState)
  | append (sameKey : Row → Row → Bool) (rows deletes : Multiset Row) (state : RefreshState)

/-- The query of a version is its first representation. -/
def versionQuery (planner : Planner Row) (version : Version String) : Except Error (Query Row) :=
  match version.representations with
  | .sql sql _ :: _ => planner.query sql
  | [] => .error (.panicked "index out of bounds")

/-- What the delta plans read of the storage table. -/
def storageInput (world : World Row) (query : Query Row) : Except Error (Multiset Row) :=
  if query.readsStorage then world.scanStorage else .ok 0

/-- What the plans of a refresh compute. -/
def computeRefresh (planner : Planner Row) (world : World Row) (query : Query Row)
    (tables : List (SourceTable Row)) (state : RefreshState) :
    Except Error (StorageCommit Row) :=
  match query.strategy with
  | .incrementalAppend => do
    let old ← tables.mapM fun table => table.scan table.old
    let delta ← tables.mapM fun table => table.scan table.delta
    let stored ← storageInput world query
    .ok (.append query.sameKey (query.posDelta old delta stored) (query.negDelta old delta stored)
      state)
  | _ => do
    let inputs ← query.relations.mapM (sessionScan planner world)
    .ok (.fullRefresh (query.result inputs) state)

/-- `refresh_materialized_view` up to its commit; there is none where all sources are fresh. -/
def planRefresh (planner : Planner Row) (branch : Option String) (now : Int)
    (world : World Row) : Except Error (Option (StorageCommit Row)) := do
  let version ← world.view.currentVersion branch
  let _ ← world.view.currentVersion none
  let query ← versionQuery planner version
  let old ← world.refreshState world.view.currentVersionId branch
  let tables ← query.relations.mapM (sourceTable planner world version branch old)
  if tables.all fun table => table.delta.isNone then .ok none
  else do
    let state : RefreshState := ⟨world.view.currentVersionId,
      HashMap.fromIter (tables.map fun table => (table.identifier, table.state)), now⟩
    let commit ← computeRefresh planner world query tables state
    .ok (some commit)

/-! ### Committing -/

/-- The branches whose files are deleted. -/
def lostHeads (heads : HashMap String (Head Row)) : HashMap String (Head Row) :=
  HashMap.fromIter (heads.iter.map fun entry => (entry.1, { entry.2 with rows := none }))

/-- The clean-up after a full refresh has set `heads`: it deletes files of the snapshots there were
before, unless the main branch had none. -/
def cleanUp (before : World Row) (name : String) (head : Head Row) :
    World Row × Except Error Unit :=
  let after := { before with heads := before.heads.insert name head }
  match before.storageHead none with
  | .error error => (after, .error error)
  | .ok none => (after, .ok ())
  | .ok (some main) =>
    match main.rows with
    | none => (after, .error (.objectStore "storage table"))
    | some _ =>
      if before.plain then
        ({ before with heads := (lostHeads before.heads).insert name head }, .ok ())
      else (after, .ok ())

/-- The commit of a refresh.  An append without files adds no snapshot. -/
def commitRefresh (branch : Option String) (world : World Row) :
    StorageCommit Row → World Row × Except Error Unit
  | .fullRefresh rows state =>
    match world.storageHead branch with
    | .error error => (world, .error error)
    | .ok _ => cleanUp world (branchName branch) ⟨some rows, state⟩
  | .append sameKey rows deletes state =>
    match world.storageHead branch with
    | .error error => (world, .error error)
    | .ok head =>
      if rows.card + deletes.card = 0 then (world, .ok ())
      else match World.headRows head with
        | .error error => (world, .error error)
        | .ok stored =>
          let head := ⟨some (applyDeletes sameKey deletes stored + rows), state⟩
          ({ world with heads := world.heads.insert (branchName branch) head }, .ok ())

/-- `refresh_materialized_view`. -/
def refresh (planner : Planner Row) (branch : Option String) (now : Int) (world : World Row) :
    World Row × Except Error Unit :=
  match planRefresh planner branch now world with
  | .error error => (world, .error error)
  | .ok none => (world, .ok ())
  | .ok (some commit) => commitRefresh branch world commit

/-! ### Runs -/

inductive RefreshEvent (Row : Type) where
  | append (source : FullIdentifier) (branch : Option String) (id : Nat) (rows : Multiset Row)
  | redefine (branch : Option String) (representations : List ViewRepresentation)
      (schema : StructType) (now : Int)
  | refresh (branch : Option String) (now : Int)

/-- A new current version of the view. -/
def redefine (branch : Option String) (representations : List ViewRepresentation)
    (schema : StructType) (now : Int) (view : GeneralViewMetadata String) :
    Except Error (GeneralViewMetadata String) := do
  let sent ← (Operation.updateRepresentations representations schema branch).execute view now
  applyViewUpdates view sent.2

/-- One event; one that fails changes nothing but what a failing refresh has committed.  An id is
never drawn again. -/
def stepRefresh (planner : Planner Row) (world : World Row) : RefreshEvent Row → World Row
  | .append name branch id rows =>
    match world.sources name with
    | none => world
    | some source =>
      if (id : Int) ∈ source.snapshots then world
      else match source.append branch id rows with
        | .error _ => world
        | .ok source => world.setSource name source
  | .redefine branch representations schema now =>
    match redefine branch representations schema now world.view with
    | .error _ => world
    | .ok view => { world with view }
  | .refresh branch now => (refresh planner branch now world).1

/-- A run. -/
def runRefresh (planner : Planner Row) (world : World Row) (events : List (RefreshEvent Row)) :
    World Row :=
  events.foldl (stepRefresh planner) world

end IcebergRust.MaterializedView

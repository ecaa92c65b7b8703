import IcebergRust.MaterializedView.Files
import IcebergRust.MaterializedView.Refresh
import IcebergRust.Spec.RoundTrip
import IcebergRust.View.Effect

/-!
# Refreshes tile the history of their sources

When the rows of a materialized view are the result of its query over the source snapshots
its refresh state has recorded.

* `Tiled` is what is to hold of a branch, and `SoundStep` the conditions on single steps:
  the refresh reads what it records, and does not append to rows it does not account for.
* `Good` is the invariant, kept by sound steps (`Good.step`); `Past` is its part about one
  source, that the recorded snapshot can be continued from.
* A redefined view is refreshed from scratch, but its old rows stay where the refresh
  appends (`refresh_redefined_not_tiled`).
-/

namespace IcebergRust.MaterializedView

open Fallible View

variable {Row : Type}

/-! ### Sources -/

namespace Source

variable {source next : Source Row} {snapshot : SourceSnapshot Row}

theorem currentSnapshot_eq_some {reference : Option String} {id : Int} :
    source.currentSnapshot reference = .ok (some (id, snapshot)) ↔
      source.refs.lookup (branchName reference) = some id ∧
        source.snapshots.lookup id = some snapshot := by
  unfold currentSnapshot
  split
  · rename_i target named
    rw [named]
    constructor
    · intro found
      obtain ⟨snapshot, lookup, same⟩ := Option.map_eq_some_iff.mp (Except.ok.inj found)
      cases same
      exact ⟨rfl, lookup⟩
    · rintro ⟨same, found⟩
      cases same
      rw [found]
      rfl
  · rename_i named
    rw [named]
    split <;> simp

/-- The rows at a snapshot, none if it is not there. -/
def rowsAt (source : Source Row) (id : Int) : Multiset Row :=
  ((source.snapshots.lookup id).map (·.rows)).getD 0

theorem rowsAt_of_lookup {id : Int} (found : source.snapshots.lookup id = some snapshot) :
    source.rowsAt id = snapshot.rows := by
  simp [rowsAt, found]

/-- No id is negative.  With sequence numbers, no snapshot is newer than the table, and no file is
newer than its snapshot. -/
structure Ordered (source : Source Row) : Prop where
  nonneg : ∀ id ∈ source.snapshots, 0 ≤ id
  snapshots : source.formatVersion ≠ .v1 → ∀ id snapshot,
    source.snapshots.lookup id = some snapshot →
    snapshot.sequenceNumber ≤ source.lastSequenceNumber ∧
      ∀ file ∈ snapshot.files, file.1 ≤ snapshot.sequenceNumber

/-- A snapshot that has been the head of the main branch.  With sequence numbers, the head has its
files and newer ones. -/
def Past (source : Source Row) (revision : Int) : Prop :=
  ∃ snapshot, source.snapshots.lookup revision = some snapshot ∧
    (source.formatVersion ≠ .v1 → ∃ id head later,
      source.currentSnapshot none = .ok (some (id, head)) ∧ head.files = snapshot.files ++ later ∧
        ∀ file ∈ later, snapshot.sequenceNumber < file.1)

/-- What an append leaves. -/
structure Appended (source next : Source Row) (branch : Option String) (id : Int)
    (rows : Multiset Row) : Prop where
  formatVersion : next.formatVersion = source.formatVersion
  last : next.lastSequenceNumber = source.nextSequenceNumber
  refs : next.refs = source.refs.insert (branchName branch) id
  snapshots : ∃ old files, source.currentSnapshot branch = .ok old ∧
    files = (old.map (·.2.files)).getD [] ∧ next.snapshots = source.snapshots.insert id
      ⟨source.nextSequenceNumber, files ++ [(source.nextSequenceNumber, rows)]⟩

theorem append_appended {branch : Option String} {id : Int} {rows : Multiset Row}
    (run : source.append branch id rows = .ok next) : Appended source next branch id rows := by
  obtain ⟨old, read, run⟩ := bind_eq_ok.mp run
  cases run
  exact ⟨rfl, rfl, rfl, old, _, read, rfl, rfl⟩

variable {branch : Option String} {id : Int} {rows : Multiset Row}

theorem Appended.lookup (appended : Appended source next branch id rows)
    (fresh : id ∉ source.snapshots) {other : Int}
    (found : source.snapshots.lookup other = some snapshot) :
    next.snapshots.lookup other = some snapshot := by
  obtain ⟨old, files, -, -, grown⟩ := appended.snapshots
  have differ : other ≠ id := by
    rintro rfl
    exact fresh (AList.lookup_isSome.mp (by rw [found]; rfl))
  rw [grown, AList.lookup_insert_ne differ, found]

/-- The files an append starts from are those of an earlier snapshot. -/
theorem Ordered.files_le (ordered : source.Ordered) (versioned : source.formatVersion ≠ .v1)
    {old : Option (Int × SourceSnapshot Row)} (read : source.currentSnapshot branch = .ok old) :
    ∀ file ∈ (old.map (·.2.files)).getD [], file.1 ≤ source.lastSequenceNumber := by
  intro file member
  cases old with
  | none => exact absurd member List.not_mem_nil
  | some head =>
    obtain ⟨known, snapshot⟩ := head
    have found := (currentSnapshot_eq_some.mp read).2
    obtain ⟨below, files⟩ := ordered.snapshots versioned known snapshot found
    exact (files file member).trans below

theorem Appended.ordered (appended : Appended source next branch id rows)
    (fresh : id ∉ source.snapshots) (nonneg : 0 ≤ id) (ordered : source.Ordered) :
    next.Ordered := by
  obtain ⟨old, files, read, taken, grown⟩ := appended.snapshots
  constructor
  · intro other member
    rw [grown, AList.mem_insert] at member
    rcases member with rfl | before
    · exact nonneg
    · exact ordered.nonneg other before
  · intro versioned other snapshot found
    rw [appended.formatVersion] at versioned
    have advance : source.nextSequenceNumber = source.lastSequenceNumber + 1 := if_neg versioned
    rw [appended.last, advance]
    by_cases here : other = id
    · subst here
      rw [grown, AList.lookup_insert] at found
      cases found
      rw [advance]
      refine ⟨le_rfl, fun file member => ?_⟩
      rcases List.mem_append.mp member with before | new
      · rw [taken] at before
        have below := ordered.files_le versioned read file before
        show file.1 ≤ source.lastSequenceNumber + 1
        omega
      · rw [List.mem_singleton.mp new]
    · rw [grown, AList.lookup_insert_ne here] at found
      obtain ⟨below, within⟩ := ordered.snapshots versioned other snapshot found
      exact ⟨by omega, within⟩

theorem Past.append {revision : Int} (past : source.Past revision)
    (appended : Appended source next branch id rows) (fresh : id ∉ source.snapshots)
    (ordered : source.Ordered) : next.Past revision := by
  obtain ⟨snapshot, found, below⟩ := past
  refine ⟨snapshot, appended.lookup fresh found, fun versioned => ?_⟩
  rw [appended.formatVersion] at versioned
  obtain ⟨headId, head, later, main, files, newer⟩ := below versioned
  have mainRef := currentSnapshot_eq_some.mp main
  obtain ⟨old, taken, read, chosen, grown⟩ := appended.snapshots
  by_cases onMain : branchName branch = "main"
  · -- The new head continues the old one.
    have same : old = some (headId, head) := by
      have again : source.currentSnapshot branch = .ok (some (headId, head)) :=
        currentSnapshot_eq_some.mpr ⟨by rw [onMain]; exact mainRef.1, mainRef.2⟩
      exact Except.ok.inj (read.symm.trans again)
    have advance : source.nextSequenceNumber = source.lastSequenceNumber + 1 := if_neg versioned
    refine ⟨id, ⟨source.nextSequenceNumber, head.files ++ [(source.nextSequenceNumber, rows)]⟩,
      later ++ [(source.nextSequenceNumber, rows)], ?_, ?_, ?_⟩
    · rw [currentSnapshot_eq_some, appended.refs, onMain]
      refine ⟨AList.lookup_insert _, ?_⟩
      rw [grown, AList.lookup_insert, chosen, same]
      rfl
    · show head.files ++ _ = _
      rw [files, List.append_assoc]
    · intro file member
      rcases List.mem_append.mp member with before | new
      · exact newer file before
      · rw [List.mem_singleton.mp new, advance]
        have := (ordered.snapshots versioned revision snapshot found).1
        omega
  · refine ⟨headId, head, later, ?_, files, newer⟩
    rw [currentSnapshot_eq_some, appended.refs]
    refine ⟨?_, appended.lookup fresh mainRef.2⟩
    have other : branchName none ≠ branchName branch := fun same => onMain same.symm
    rw [AList.lookup_insert_ne other]
    exact mainRef.1

theorem past_of_main {headId : Int} {head : SourceSnapshot Row}
    (main : source.currentSnapshot none = .ok (some (headId, head))) : source.Past headId :=
  ⟨head, (currentSnapshot_eq_some.mp main).2, fun _ => ⟨headId, head, [], main, by simp, by simp⟩⟩

/-! ### Scans -/

theorem scan_all {headId : Int} {head : SourceSnapshot Row}
    (main : source.currentSnapshot none = .ok (some (headId, head))) :
    source.scan (none, none) = .ok head.rows := by
  have kept : (head.files.filter fun file => inSequenceRange (none, none) file.1) = head.files := by
    simp [inSequenceRange]
  simp only [scan, scanEnd, main, Option.bind_none, Except.map, Option.map_some, ok_bind, kept]
  rfl

/-- The two parts of a source whose recorded snapshot is not its head. -/
theorem scan_parts {revision : Int} (past : source.Past revision) (ordered : source.Ordered)
    (versioned : source.formatVersion ≠ .v1) :
    ∃ headId head delta, source.currentSnapshot none = .ok (some (headId, head)) ∧
      source.scan (none, some revision) = .ok (source.rowsAt revision) ∧
      source.scan (some revision, none) = .ok delta ∧
      source.rowsAt revision + delta = head.rows := by
  obtain ⟨snapshot, found, below⟩ := past
  obtain ⟨headId, head, later, main, files, newer⟩ := below versioned
  have within := (ordered.snapshots versioned revision snapshot found).2
  have sequence : source.sequenceNumber revision = some snapshot.sequenceNumber := by
    simp [sequenceNumber, found]
  refine ⟨headId, head, (later.map (·.2)).sum, main, ?_, ?_, ?_⟩
  · have kept : (snapshot.files.filter fun file =>
        inSequenceRange (none, some snapshot.sequenceNumber) file.1) = snapshot.files := by
      refine List.filter_eq_self.mpr fun file member => ?_
      simpa [inSequenceRange] using within file member
    rw [rowsAt_of_lookup found]
    simp only [scan, scanEnd, Option.bind_some, Option.bind_none, found, ok_bind, sequence, kept]
    rfl
  · have old : (snapshot.files.filter fun file =>
        inSequenceRange (some snapshot.sequenceNumber, none) file.1) = [] := by
      refine List.filter_eq_nil_iff.mpr fun file member => ?_
      simpa [inSequenceRange] using within file member
    have new : (later.filter fun file =>
        inSequenceRange (some snapshot.sequenceNumber, none) file.1) = later := by
      refine List.filter_eq_self.mpr fun file member => ?_
      simpa [inSequenceRange] using newer file member
    simp only [scan, scanEnd, Option.bind_some, Option.bind_none, main, Except.map, Option.map_some,
      ok_bind, sequence, files, List.filter_append, old, new, List.nil_append]
  · rw [rowsAt_of_lookup found, SourceSnapshot.rows, SourceSnapshot.rows, files, List.map_append,
      List.sum_append]

end Source

/-! ### What is to hold -/

/-- How a branch of the storage table is named where its head is. -/
def headRef (name : String) : Option String := if name = "main" then none else some name

/-- The rows of the storage table on a branch. -/
def branchRows (world : World Row) (branch : Option String) : Except Error (Multiset Row) := do
  let head ← world.storageHead branch
  World.headRows head

variable (planner : Planner Row) (world : World Row) (version : Version String)

/-- The rows of a relation at the snapshot a refresh state has recorded. -/
def recordedInput (state : RefreshState) (relation : String) : Multiset Row :=
  match relationTable planner version relation with
  | .error _ => 0
  | .ok identifier =>
    match world.sources identifier, state.sourceStates.lookup identifier with
    | some source, some recorded => source.rowsAt recorded.snapshotId
    | _, _ => 0

/-- The rows of a relation as its table is. -/
def currentInput (relation : String) : Multiset Row :=
  match relationTable planner version relation with
  | .error _ => 0
  | .ok identifier =>
    match world.sources identifier with
    | some source => (source.scan (none, none)).toOption.getD 0
    | none => 0

/-- The inputs a branch of the storage table is the result of: what its refresh state has recorded
and, where none counts, the tables as they are. -/
def tiledInput : Option RefreshState → String → Multiset Row
  | some state => recordedInput planner world version state
  | none => currentInput planner world version

/-- The rows on a branch are the result of its current query over what is recorded. -/
def Tiled (branch : Option String) : Prop :=
  ∃ version query state, world.view.currentVersion branch = .ok version ∧
    versionQuery planner version = .ok query ∧
    world.refreshState world.view.currentVersionId branch = .ok state ∧
    branchRows world branch =
      .ok (query.result (query.relations.map (tiledInput planner world version state)))

/-- The result the rows on a branch should be. -/
def viewRows (branch : Option String) : Except Error (Multiset Row) := do
  let version ← world.view.currentVersion branch
  let query ← versionQuery planner version
  let state ← world.refreshState world.view.currentVersionId branch
  .ok (query.result (query.relations.map (tiledInput planner world version state)))

variable {planner world version} in
variable {branch : Option String}

theorem Tiled.branchRows_eq (tiled : Tiled planner world branch) :
    branchRows world branch = viewRows planner world branch := by
  obtain ⟨version, query, state, resolved, planned, read, rows⟩ := tiled
  simp only [viewRows, resolved, planned, read, ok_bind, rows]

/-! ### Conditions -/

/-- When an incremental refresh is sound. -/
structure SoundAppend (branch : Option String) (query : Query Row) : Prop where
  /-- Where no refresh state counts, there are no rows yet. -/
  restarts : world.refreshState world.view.currentVersionId branch = .ok none →
    branchRows world branch = .ok 0
  /-- A delta plan that reads the storage table reads the main branch, so it has to be like the
  branch. -/
  stored : query.readsStorage = true → branchRows world none = branchRows world branch
  /-- A source of version 1 has not changed. -/
  versioned : ∀ state, world.refreshState world.view.currentVersionId branch = .ok (some state) →
    ∀ relation ∈ query.relations, ∀ identifier source,
      relationTable planner version relation = .ok identifier →
      world.sources identifier = some source → source.formatVersion = .v1 →
      ∀ id head, source.currentSnapshot none = .ok (some (id, head)) →
        (state.sourceStates.lookup identifier).map (·.snapshotId) = some id

/-- When a refresh with a full result is sound. -/
structure SoundOverwrite (branch : Option String) (query : Query Row) : Prop where
  /-- The session finds the tables of the view. -/
  session : ∀ relation ∈ query.relations,
    relationTable planner version relation = .ok (planner.session relation)
  /-- The clean-up deletes nothing, or the branch is the only one. -/
  cleanup : world.plain = false ∨ world.heads.lookup "main" = none ∨
    ∀ name ∈ world.heads, name = branchName branch

/-- When a refresh is sound. -/
structure SoundQuery (branch : Option String) (query : Query Row) : Prop where
  relations : query.relations ≠ []
  /-- Scans read the main branch of a source, so it has to be where the branch is. -/
  heads : ∀ relation ∈ query.relations, ∀ identifier source,
    relationTable planner version relation = .ok identifier →
    world.sources identifier = some source → ∀ id head,
      source.currentSnapshot branch = .ok (some (id, head)) →
      source.currentSnapshot none = .ok (some (id, head))
  appends : query.strategy = .incrementalAppend → SoundAppend planner world version branch query
  overwrites : query.strategy ≠ .incrementalAppend →
    SoundOverwrite planner world version branch query

structure SoundRefresh (branch : Option String) : Prop where
  /-- Naming `main` makes no difference. -/
  named : world.view.currentVersion branch = world.view.currentVersion (headRef (branchName branch))
  query : ∀ version query, world.view.currentVersion branch = .ok version →
    versionQuery planner version = .ok query → SoundQuery planner world version branch query

/-- When a step is sound: a refresh under these conditions, and a redefinition under an id that is
not taken, which it draws unless the largest one is in use. -/
def SoundStep : RefreshEvent Row → Prop
  | .append _ _ _ _ => True
  | .redefine _ _ _ _ => nextVersionId world.view ∉ world.view.versions
  | .refresh branch _ => SoundRefresh planner world branch

/-- All steps of a run are sound. -/
def SoundRun : World Row → List (RefreshEvent Row) → Prop
  | _, [] => True
  | world, event :: events =>
    SoundStep planner world event ∧ SoundRun (stepRefresh planner world event) events

/-! ### The invariant -/

/-- A head of the storage table that has the rows of the current query over what it has recorded,
with recorded snapshots that can be continued from. -/
def Valid (name : String) (head : Head Row) : Prop :=
  ∃ version query, world.view.currentVersion (headRef name) = .ok version ∧
    versionQuery planner version = .ok query ∧
    head.rows = some (query.result
      (query.relations.map (recordedInput planner world version head.refreshState))) ∧
    ∀ relation ∈ query.relations, ∃ identifier source recorded,
      relationTable planner version relation = .ok identifier ∧
      world.sources identifier = some source ∧
      head.refreshState.sourceStates.lookup identifier = some recorded ∧
      source.Past recorded.snapshotId

structure Good : Prop where
  ordered : ∀ name source, world.sources name = some source → source.Ordered
  known : ∀ name head, world.heads.lookup name = some head →
    head.refreshState.refreshVersionId ∈ world.view.versions
  valid : ∀ name head, world.heads.lookup name = some head →
    head.refreshState.refreshVersionId = world.view.currentVersionId →
    Valid planner world name head

variable {planner world version}

theorem recordedInput_eq {state : RefreshState} {relation identifier : String}
    {source : Source Row} {recorded : SourceState}
    (named : relationTable planner version relation = .ok identifier)
    (here : world.sources identifier = some source)
    (found : state.sourceStates.lookup identifier = some recorded) :
    recordedInput planner world version state relation = source.rowsAt recorded.snapshotId := by
  simp only [recordedInput, named, here, found]

/-! ### Appends and redefinitions -/

/-- A source that has been appended to. -/
theorem Good.setSource (good : Good planner world) {name : FullIdentifier}
    {source next : Source Row} {id : Nat} {rows : Multiset Row}
    (here : world.sources name = some source) (fresh : (id : Int) ∉ source.snapshots)
    (appended : source.Appended next branch id rows) :
    Good planner (world.setSource name next) := by
  have ordered := good.ordered name source here
  constructor
  · intro other stored found
    by_cases same : other = name
    · subst same
      rw [World.setSource_self] at found
      exact Option.some.inj found ▸ appended.ordered fresh (Int.natCast_nonneg id) ordered
    · rw [world.setSource_of_ne next same] at found
      exact good.ordered other stored found
  · exact good.known
  · intro other head found current
    obtain ⟨version, query, resolved, planned, rows, each⟩ := good.valid other head found current
    refine ⟨version, query, resolved, planned, ?_, ?_⟩
    · rw [rows]
      refine congrArg (fun inputs => some (query.result inputs)) (List.map_congr_left ?_)
      intro relation member
      obtain ⟨identifier, stored, recorded, named, there, state, past⟩ := each relation member
      rw [recordedInput_eq named there state]
      by_cases same : identifier = name
      · subst same
        obtain rfl := Option.some.inj (here.symm.trans there)
        obtain ⟨snapshot, lookup, -⟩ := past
        rw [recordedInput_eq named (world.setSource_self identifier next) state,
          Source.rowsAt_of_lookup lookup, Source.rowsAt_of_lookup (appended.lookup fresh lookup)]
      · rw [recordedInput_eq named ((world.setSource_of_ne next same).trans there) state]
    · intro relation member
      obtain ⟨identifier, stored, recorded, named, there, state, past⟩ := each relation member
      by_cases same : identifier = name
      · subst same
        obtain rfl := Option.some.inj (here.symm.trans there)
        exact ⟨identifier, next, recorded, named, world.setSource_self identifier next, state,
          past.append appended fresh ordered⟩
      · exact ⟨identifier, stored, recorded, named, (world.setSource_of_ne next same).trans there,
          state, past⟩

variable {representations : List ViewRepresentation}

/-- A redefinition adds the version it makes current. -/
theorem redefine_spec {view next : GeneralViewMetadata String} {schema : StructType} {now : Int}
    (run : redefine branch representations schema now view = .ok next) :
    next.currentVersionId = nextVersionId view ∧
      ∃ version, next.versions = view.versions.insert (nextVersionId view) version := by
  obtain ⟨sent, executed, applied⟩ := bind_eq_ok.mp run
  obtain ⟨schemas, version, numbered, adds, updates⟩ := execute_representations executed
  have effect := applyViewUpdates_effect applied
  rw [updates] at effect
  have current := effect.currentVersionId
  have versions := effect.versions
  rcases adds with rfl | ⟨schema, column, rfl, -⟩ <;>
  · simp only [versionUpdates, List.nil_append, List.cons_append, List.foldl_cons, List.foldl_nil,
      ViewUpdate.currentVersionId, ViewUpdate.versions, numbered] at current versions
    exact ⟨current, version, versions⟩

/-- After a redefinition under a new id no refresh state counts. -/
theorem Good.redefine (good : Good planner world) {schema : StructType} {now : Int}
    {view : GeneralViewMetadata String}
    (run : redefine branch representations schema now world.view = .ok view)
    (fresh : nextVersionId world.view ∉ world.view.versions) :
    Good planner { world with view } := by
  obtain ⟨current, version, versions⟩ := redefine_spec run
  constructor
  · exact good.ordered
  · intro name head found
    show _ ∈ view.versions
    rw [versions, AList.mem_insert]
    exact .inr (good.known name head found)
  · intro name head found same
    have known := good.known name head found
    rw [show head.refreshState.refreshVersionId = nextVersionId world.view from same.trans current]
      at known
    exact absurd known fresh

/-! ### What a refresh plans -/

theorem lookup_of_storageHead {head : Option (Head Row)}
    (found : world.storageHead branch = .ok head) :
    world.heads.lookup (branchName branch) = head := by
  unfold World.storageHead at found
  split at found
  · rename_i stored here
    rw [here]
    exact Except.ok.inj found
  · rename_i absent
    rw [absent]
    split at found
    · exact Except.ok.inj found
    · cases found

/-- The refresh state that counts is the one of the head. -/
theorem refreshState_spec {versionId : Int} {old : Option RefreshState}
    (found : world.refreshState versionId branch = .ok old) :
    ∃ head, world.storageHead branch = .ok head ∧ ∀ state ∈ old, ∃ stored, head = some stored ∧
      stored.refreshState = state ∧ state.refreshVersionId = versionId := by
  obtain ⟨head, read, found⟩ := bind_eq_ok.mp found
  refine ⟨head, read, ?_⟩
  intro state here
  cases found
  obtain ⟨mapped, counts⟩ := Option.filter_eq_some_iff.mp here
  obtain ⟨stored, rfl, rfl⟩ := Option.map_eq_some_iff.mp mapped
  exact ⟨stored, rfl, rfl, of_decide_eq_true counts⟩

/-- What is known of the table a refresh takes for a relation. -/
structure Located (planner : Planner Row) (world : World Row) (version : Version String)
    (branch : Option String) (old : Option RefreshState) (relation : String)
    (table : SourceTable Row) : Prop where
  named : relationTable planner version relation = .ok table.identifier
  here : world.sources table.identifier = some table.source
  current : sourceSnapshot table.source branch = .ok table.state.snapshotId
  ranges : (table.old, table.delta) = sourceRanges table.state.snapshotId
    ((old.bind (·.sourceStates.lookup table.identifier)).map (·.snapshotId))

theorem sourceTable_located {old : Option RefreshState} {relation : String}
    {table : SourceTable Row}
    (run : sourceTable planner world version branch old relation = .ok table) :
    Located planner world version branch old relation table := by
  obtain ⟨identifier, named, run⟩ := bind_eq_ok.mp run
  split at run
  · cases run
  · rename_i source here
    obtain ⟨current, read, run⟩ := bind_eq_ok.mp run
    cases run
    exact ⟨named, here, read, rfl⟩

/-- A plan: the version and its query, the refresh state that counts, and the tables. -/
structure Plan (planner : Planner Row) (world : World Row) (branch : Option String)
    (version : Version String) (query : Query Row) (old : Option RefreshState)
    (tables : List (SourceTable Row)) : Prop where
  resolved : world.view.currentVersion branch = .ok version
  current : world.view.currentVersionId ∈ world.view.versions
  planned : versionQuery planner version = .ok query
  read : world.refreshState world.view.currentVersionId branch = .ok old
  located : List.Forall₂ (Located planner world version branch old) query.relations tables

/-- The refresh state of a plan. -/
def newState (world : World Row) (tables : List (SourceTable Row)) (now : Int) : RefreshState :=
  ⟨world.view.currentVersionId,
    HashMap.fromIter (tables.map fun table => (table.identifier, table.state)), now⟩

theorem planRefresh_spec {now : Int} {result : Option (StorageCommit Row)}
    (run : planRefresh planner branch now world = .ok result) :
    ∃ version query old tables, Plan planner world branch version query old tables ∧
      ((result = none ∧ ∀ table ∈ tables, table.delta = none) ∨
        ∃ commit, result = some commit ∧
          computeRefresh planner world query tables (newState world tables now) = .ok commit) := by
  simp only [planRefresh, bind_eq_ok] at run
  obtain ⟨version, resolved, main, mainResolved, query, planned, old, read, tables, located, run⟩ :=
    run
  have current : world.view.currentVersionId ∈ world.view.versions := by
    have found : world.view.versions.lookup world.view.currentVersionId = some main :=
      GeneralViewMetadata.currentVersion_eq_ok.mp mainResolved
    exact AList.lookup_isSome.mp (by rw [found]; rfl)
  refine ⟨version, query, old, tables, ⟨resolved, current, planned, read, ?_⟩, ?_⟩
  · exact (mapM_eq_ok.mp located).imp fun _ _ step => sourceTable_located step
  · by_cases fresh : tables.all fun table => table.delta.isNone
    · rw [if_pos fresh] at run
      cases run
      exact .inl ⟨rfl, fun table member => by simpa using List.all_eq_true.mp fresh table member⟩
    · rw [if_neg fresh] at run
      obtain ⟨commit, computed, run⟩ := bind_eq_ok.mp run
      cases run
      exact .inr ⟨commit, rfl, computed⟩

/-! ### The inputs of a refresh -/

section Inputs

variable {branch : Option String} {old : Option RefreshState} {query : Query Row}
  {relation : String} {table : SourceTable Row}

/-- The old part of an input: what the refresh state has recorded, and nothing where none counts. -/
def oldInput (planner : Planner Row) (world : World Row) (version : Version String) :
    Option RefreshState → String → Multiset Row
  | some state => recordedInput planner world version state
  | none => fun _ => 0

/-- The snapshot a refresh records is the head of the main branch. -/
theorem Located.main (located : Located planner world version branch old relation table)
    (sound : SoundQuery planner world version branch query) (member : relation ∈ query.relations) :
    ∃ head, table.source.currentSnapshot none = .ok (some (table.state.snapshotId, head)) := by
  have current := located.current
  simp only [sourceSnapshot, bind_eq_ok] at current
  obtain ⟨onBranch, readBranch, onMain, readMain, current⟩ := current
  cases onBranch with
  | some found =>
    obtain ⟨id, head⟩ := found
    cases current
    exact ⟨head, sound.heads relation member _ _ located.named located.here _ _ readBranch⟩
  | none =>
    cases onMain with
    | some found =>
      obtain ⟨id, head⟩ := found
      cases current
      exact ⟨head, readMain⟩
    | none => cases current

theorem currentInput_eq {id : Int} {head : SourceSnapshot Row}
    (located : Located planner world version branch old relation table)
    (main : table.source.currentSnapshot none = .ok (some (id, head))) :
    currentInput planner world version relation = head.rows := by
  simp only [currentInput, located.named, located.here, Source.scan_all main]
  rfl

/-- The two parts of an input make up the table as it is. -/
structure Parts (planner : Planner Row) (world : World Row) (version : Version String)
    (old : Option RefreshState) (relation : String) (table : SourceTable Row) : Prop where
  before : table.scan table.old = .ok (oldInput planner world version old relation)
  after : ∃ delta, table.scan table.delta = .ok delta ∧
    oldInput planner world version old relation + delta =
      currentInput planner world version relation

/-- Without a refresh state that counts, everything is new. -/
theorem Located.parts_invalid
    (located : Located planner world version branch none relation table)
    (sound : SoundQuery planner world version branch query) (member : relation ∈ query.relations) :
    Parts planner world version none relation table := by
  obtain ⟨head, main⟩ := located.main sound member
  have ranges := located.ranges
  simp only [Option.bind_none, Option.map_none, sourceRanges, reduceCtorEq, if_false,
    Prod.mk.injEq] at ranges
  constructor
  · rw [ranges.1]
    rfl
  · refine ⟨head.rows, ?_, ?_⟩
    · rw [ranges.2]
      exact Source.scan_all main
    · rw [currentInput_eq located main]
      exact zero_add head.rows

/-- With a refresh state that counts, what it has recorded is old. -/
theorem Located.parts_recorded {state : RefreshState} {recorded : SourceState}
    (located : Located planner world version branch (some state) relation table)
    (sound : SoundQuery planner world version branch query) (member : relation ∈ query.relations)
    (ordered : table.source.Ordered)
    (found : state.sourceStates.lookup table.identifier = some recorded)
    (past : table.source.Past recorded.snapshotId)
    (versioned : table.source.formatVersion = .v1 →
      recorded.snapshotId = table.state.snapshotId) :
    Parts planner world version (some state) relation table := by
  obtain ⟨head, main⟩ := located.main sound member
  have input : oldInput planner world version (some state) relation =
      table.source.rowsAt recorded.snapshotId :=
    recordedInput_eq located.named located.here found
  have ranges := located.ranges
  simp only [Option.bind_some, found, Option.map_some] at ranges
  rw [sourceRanges] at ranges
  by_cases fresh : table.state.snapshotId = recorded.snapshotId
  · rw [if_pos (congrArg some fresh)] at ranges
    simp only [Prod.mk.injEq] at ranges
    have lookup := (Source.currentSnapshot_eq_some.mp main).2
    rw [fresh] at lookup
    constructor
    · rw [ranges.1, input, Source.rowsAt_of_lookup lookup]
      exact Source.scan_all main
    · refine ⟨0, by rw [ranges.2]; rfl, ?_⟩
      rw [input, Source.rowsAt_of_lookup lookup, currentInput_eq located main, add_zero]
  · rw [if_neg (fun same => fresh (Option.some.inj same))] at ranges
    have present : recorded.snapshotId ∈ table.source.snapshots := by
      obtain ⟨snapshot, stored, -⟩ := past
      exact AList.lookup_isSome.mp (by rw [stored]; rfl)
    have marked : ¬ (some (-1) : Option Int) = some recorded.snapshotId := by
      intro same
      have := ordered.nonneg _ present
      have := Option.some.inj same
      omega
    rw [if_neg marked] at ranges
    simp only [Prod.mk.injEq] at ranges
    have numbered : table.source.formatVersion ≠ .v1 := fun one => fresh (versioned one).symm
    obtain ⟨headId, current, delta, again, before, after, whole⟩ :=
      Source.scan_parts past ordered numbered
    constructor
    · rw [ranges.1, input]
      exact before
    · refine ⟨delta, by rw [ranges.2]; exact after, ?_⟩
      rw [input, currentInput_eq located again, whole]

variable {tables : List (SourceTable Row)}

/-- The recorded snapshots of a valid head are continued from. -/
theorem Plan.parts (plan : Plan planner world branch version query old tables)
    (good : Good planner world) (sound : SoundQuery planner world version branch query)
    (named : world.view.currentVersion branch =
      world.view.currentVersion (headRef (branchName branch)))
    (append : SoundAppend planner world version branch query) (member : relation ∈ query.relations)
    (located : Located planner world version branch old relation table) :
    Parts planner world version old relation table := by
  cases old with
  | none => exact located.parts_invalid sound member
  | some state =>
    obtain ⟨head, stored, counts⟩ := refreshState_spec plan.read
    obtain ⟨storedHead, rfl, rfl, current⟩ := counts state rfl
    obtain ⟨version', query', resolved, planned, -, each⟩ :=
      good.valid _ storedHead (lookup_of_storageHead stored) current
    obtain rfl : version = version' :=
      Except.ok.inj ((plan.resolved.symm.trans named).trans resolved)
    obtain rfl : query = query' := Except.ok.inj (plan.planned.symm.trans planned)
    obtain ⟨identifier, source, recorded, sameName, here, found, past⟩ := each relation member
    obtain rfl : identifier = table.identifier :=
      Except.ok.inj (sameName.symm.trans located.named)
    obtain rfl : source = table.source := Option.some.inj (here.symm.trans located.here)
    refine located.parts_recorded sound member (good.ordered _ _ here) found past ?_
    intro one
    obtain ⟨mainHead, main⟩ := located.main sound member
    have unchanged := append.versioned _ plan.read relation member _ _ sameName here one _ _ main
    rw [found] at unchanged
    exact Option.some.inj unchanged

/-- What the two scans of all tables give. -/
theorem scan_tables {relations : List String}
    (parts : List.Forall₂ (Parts planner world version old) relations tables)
    {before after : List (Multiset Row)}
    (reads : List.Forall₂ (fun table rows => SourceTable.scan table table.old = .ok rows) tables
      before)
    (news : List.Forall₂ (fun table rows => SourceTable.scan table table.delta = .ok rows) tables
      after) :
    before = relations.map (oldInput planner world version old) ∧
      List.zipWith (· + ·) before after =
        relations.map (currentInput planner world version) ∧
      after.length = relations.length := by
  induction parts generalizing before after with
  | nil =>
    cases reads
    cases news
    exact ⟨rfl, rfl, rfl⟩
  | cons first _ ih =>
    cases reads with
    | cons read reads =>
      cases news with
      | cons new news =>
        obtain ⟨old, whole, length⟩ := ih reads news
        obtain ⟨delta, scanned, sum⟩ := first.after
        have oldRows := Except.ok.inj (read.symm.trans first.before)
        have newRows := Except.ok.inj (new.symm.trans scanned)
        refine ⟨?_, ?_, ?_⟩
        · rw [oldRows, old, List.map_cons]
        · rw [List.zipWith_cons_cons, whole, oldRows, newRows, sum, List.map_cons]
        · rw [List.length_cons, length, List.length_cons]

/-- What a plan records of a relation: the head of its table's main branch. -/
theorem Plan.recorded (plan : Plan planner world branch version query old tables)
    (sound : SoundQuery planner world version branch query) (now : Int)
    (member : relation ∈ query.relations) :
    (∃ identifier source recorded, relationTable planner version relation = .ok identifier ∧
      world.sources identifier = some source ∧
      (newState world tables now).sourceStates.lookup identifier = some recorded ∧
      source.Past recorded.snapshotId) ∧
    recordedInput planner world version (newState world tables now) relation =
      currentInput planner world version relation := by
  obtain ⟨table, within, located⟩ := exists_of_mem_forall₂ plan.located.flip member
  have states : (newState world tables now).sourceStates =
      byKey SourceTable.identifier SourceTable.state tables := rfl
  have present : ((newState world tables now).sourceStates.lookup table.identifier).isSome := by
    rw [states]
    exact lookup_byKey_isSome within
  obtain ⟨recorded, found⟩ := Option.isSome_iff_exists.mp present
  -- The entry may be that of another relation that names the same table.
  obtain ⟨other, among, sameTable, rfl⟩ := lookup_byKey_eq_some (states ▸ found)
  obtain ⟨otherRelation, elsewhere, twin⟩ := exists_of_mem_forall₂ plan.located among
  obtain ⟨head, main⟩ := twin.main sound elsewhere
  have sameSource : other.source = table.source :=
    Option.some.inj (twin.here.symm.trans ((congrArg world.sources sameTable).trans located.here))
  rw [sameSource] at main
  refine ⟨⟨table.identifier, table.source, other.state, located.named, located.here, found,
    Source.past_of_main main⟩, ?_⟩
  rw [recordedInput_eq located.named located.here found, currentInput_eq located main,
    Source.rowsAt_of_lookup (Source.currentSnapshot_eq_some.mp main).2]

end Inputs

/-! ### Refreshes -/

section Refresh

variable {branch : Option String} {old : Option RefreshState} {query : Query Row}
  {tables : List (SourceTable Row)}

/-- The head a refresh writes is valid if it has the result over the tables as they are. -/
theorem Plan.valid (plan : Plan planner world branch version query old tables)
    (sound : SoundQuery planner world version branch query)
    (named : world.view.currentVersion branch =
      world.view.currentVersion (headRef (branchName branch))) (now : Int)
    {rows : Multiset Row}
    (result : rows = query.result (query.relations.map (currentInput planner world version))) :
    Valid planner world (branchName branch) ⟨some rows, newState world tables now⟩ := by
  refine ⟨version, query, named ▸ plan.resolved, plan.planned, ?_, ?_⟩
  · rw [result]
    refine congrArg (fun inputs => some (query.result inputs)) (List.map_congr_left ?_)
    intro relation member
    exact (plan.recorded sound now member).2.symm
  · intro relation member
    exact (plan.recorded sound now member).1

/-- Setting the head of the branch to the result over the tables as they are, without touching
another one. -/
theorem Plan.tiles (plan : Plan planner world branch version query old tables)
    (good : Good planner world) (sound : SoundQuery planner world version branch query)
    (named : world.view.currentVersion branch =
      world.view.currentVersion (headRef (branchName branch))) (now : Int)
    {rows : Multiset Row}
    (result : rows = query.result (query.relations.map (currentInput planner world version)))
    {heads : HashMap String (Head Row)}
    (others : ∀ name head, heads.lookup name = some head → name ≠ branchName branch →
      world.heads.lookup name = some head)
    (here : heads.lookup (branchName branch) = some ⟨some rows, newState world tables now⟩) :
    Good planner { world with heads } ∧ Tiled planner { world with heads } branch := by
  have valid := plan.valid sound named now result
  constructor
  · refine ⟨good.ordered, ?_, ?_⟩
    · intro name head found
      by_cases same : name = branchName branch
      · subst same
        obtain rfl := Option.some.inj (found.symm.trans here)
        exact plan.current
      · exact good.known name head (others name head found same)
    · intro name head found current
      by_cases same : name = branchName branch
      · subst same
        obtain rfl := Option.some.inj (found.symm.trans here)
        exact valid
      · exact good.valid name head (others name head found same) current
  · obtain ⟨version', query', resolved, planned, stored, -⟩ := valid
    have head : World.storageHead { world with heads } branch =
        .ok (some ⟨some rows, newState world tables now⟩) := by
      simp only [World.storageHead, here]
    refine ⟨version', query', some (newState world tables now), named.trans resolved, planned,
      ?_, ?_⟩
    · simp only [World.refreshState, head, ok_bind]
      simp [newState]
    · simp only [branchRows, head, ok_bind, World.headRows]
      exact congrArg Except.ok (Option.some.inj stored)

/-- A refresh state that counts is one the rows are the result of. -/
theorem Good.tiled (good : Good planner world) {state : RefreshState}
    (named : world.view.currentVersion branch =
      world.view.currentVersion (headRef (branchName branch)))
    (read : world.refreshState world.view.currentVersionId branch = .ok (some state)) :
    Tiled planner world branch := by
  obtain ⟨head, stored, counts⟩ := refreshState_spec read
  obtain ⟨storedHead, rfl, rfl, current⟩ := counts state rfl
  obtain ⟨version, query, resolved, planned, rows, -⟩ :=
    good.valid _ storedHead (lookup_of_storageHead stored) current
  refine ⟨version, query, _, named.trans resolved, planned, read, ?_⟩
  simp only [branchRows, stored, ok_bind, World.headRows, rows]
  rfl

theorem applyDeletes_zero (sameKey : Row → Row → Bool) (rows : Multiset Row) :
    applyDeletes sameKey 0 rows = rows :=
  Multiset.filter_eq_self.mpr fun _ _ key member => absurd member (Multiset.notMem_zero key)

/-- An incremental refresh. -/
theorem Plan.append (plan : Plan planner world branch version query old tables)
    (good : Good planner world) (sound : SoundRefresh planner world branch) (now : Int)
    (incremental : query.strategy = .incrementalAppend) {commit : StorageCommit Row}
    (computed : computeRefresh planner world query tables (newState world tables now) =
      .ok commit) :
    Good planner (commitRefresh branch world commit).1 ∧
      ((commitRefresh branch world commit).2 = .ok () →
        Tiled planner (commitRefresh branch world commit).1 branch) := by
  have soundQuery := sound.query version query plan.resolved plan.planned
  have soundAppend := soundQuery.appends incremental
  simp only [computeRefresh, incremental, bind_eq_ok] at computed
  obtain ⟨before, reads, after, news, stored, scanned, computed⟩ := computed
  cases computed
  -- The scans of the tables are the inputs of the delta plans.
  have parts : List.Forall₂ (Parts planner world version old) query.relations tables := by
    have members := (List.forall₂_and_left query.relations tables).mpr
      ⟨fun relation (member : relation ∈ query.relations) => member, plan.located⟩
    exact members.imp fun relation table here =>
      plan.parts good soundQuery sound.named soundAppend here.1 here.2
  obtain ⟨olds, whole, lengthAfter⟩ := scan_tables parts (mapM_eq_ok.mp reads) (mapM_eq_ok.mp news)
  obtain ⟨head, found, counts⟩ := refreshState_spec plan.read
  have exactly : ∀ rows, World.headRows head = .ok rows →
      applyDeletes query.sameKey (query.negDelta before after stored) rows +
          query.posDelta before after stored =
        query.result (query.relations.map (currentInput planner world version)) := by
    intro rows read
    have onBranch : branchRows world branch = .ok rows := by
      simp only [branchRows, found, ok_bind, read]
    have same : stored = if query.readsStorage then rows else 0 := by
      unfold storageInput at scanned
      by_cases reading : query.readsStorage = true
      · rw [if_pos reading] at scanned ⊢
        have main : world.scanStorage = branchRows world branch := soundAppend.stored reading
        exact Except.ok.inj (scanned.symm.trans (main.trans onBranch))
      · rw [if_neg reading] at scanned ⊢
        exact (Except.ok.inj scanned).symm
    have start : rows = query.result before ∨ ((∀ part ∈ before, part = 0) ∧ rows = 0) := by
      cases old with
      | none =>
        refine .inr ⟨?_, ?_⟩
        · intro part member
          rw [olds] at member
          obtain ⟨relation, -, rfl⟩ := List.mem_map.mp member
          rfl
        · exact Except.ok.inj (onBranch.symm.trans (soundAppend.restarts plan.read))
      | some state =>
        obtain ⟨version', query', state', resolved, planned, again, tiled⟩ :=
          good.tiled sound.named plan.read
        obtain rfl := Except.ok.inj (plan.resolved.symm.trans resolved)
        obtain rfl := Except.ok.inj (plan.planned.symm.trans planned)
        obtain rfl := Except.ok.inj (plan.read.symm.trans again)
        rw [olds]
        exact .inl (Except.ok.inj (onBranch.symm.trans tiled))
    have lengthBefore : before.length = query.relations.length := by rw [olds, List.length_map]
    rw [← whole, same]
    exact query.deltas_exact incremental before after rows lengthBefore lengthAfter start
  simp only [commitRefresh, found]
  by_cases nothing : (query.posDelta before after stored).card +
      (query.negDelta before after stored).card = 0
  · rw [if_pos nothing]
    refine ⟨good, fun _ => ?_⟩
    cases old with
    | some state => exact good.tiled sound.named plan.read
    | none =>
      -- Nothing is recorded, and nothing is there.
      have empty := soundAppend.restarts plan.read
      have rows : World.headRows head = .ok 0 := by
        simpa only [branchRows, found, ok_bind] using empty
      have result := exactly 0 rows
      have noRows : query.posDelta before after stored = 0 := Multiset.card_eq_zero.mp (by omega)
      have noDeletes : query.negDelta before after stored = 0 := Multiset.card_eq_zero.mp (by omega)
      rw [noRows, noDeletes, applyDeletes_zero, zero_add] at result
      refine ⟨version, query, none, plan.resolved, plan.planned, plan.read, ?_⟩
      rw [empty, result]
      rfl
  · rw [if_neg nothing]
    cases read : World.headRows head with
    | error failure => exact ⟨good, fun done => by cases done⟩
    | ok rows =>
      have tiles := plan.tiles good soundQuery sound.named now (exactly rows read)
        (fun name head found differ => (AList.lookup_insert_ne differ).symm.trans found)
        (AList.lookup_insert world.heads)
      exact ⟨tiles.1, fun _ => tiles.2⟩

theorem mem_of_lookup_lostHeads {heads : HashMap String (Head Row)} {name : String}
    {head : Head Row} (found : (lostHeads heads).lookup name = some head) : name ∈ heads := by
  have lost : (byKey Prod.fst (fun entry : String × Head Row => { entry.2 with rows := none })
      heads.iter).lookup name = some head := found
  obtain ⟨entry, member, rfl, -⟩ := lookup_byKey_eq_some lost
  exact AList.lookup_isSome.mp (by rw [HashMap.mem_iter_iff.mp member]; rfl)

/-- A sound clean-up leaves the other branches as they are. -/
theorem cleanUp_spec {name : String} (head : Head Row)
    (sound : world.plain = false ∨ world.heads.lookup "main" = none ∨
      ∀ other ∈ world.heads, other = name) :
    ∃ heads, (cleanUp world name head).1 = { world with heads } ∧
      heads.lookup name = some head ∧ ∀ other stored, heads.lookup other = some stored →
        other ≠ name → world.heads.lookup other = some stored := by
  have inserts (heads : HashMap String (Head Row)) (found : ∀ other stored,
      heads.lookup other = some stored → other ≠ name → world.heads.lookup other = some stored) :
      (heads.insert name head).lookup name = some head ∧ ∀ other stored,
        (heads.insert name head).lookup other = some stored → other ≠ name →
        world.heads.lookup other = some stored := by
    refine ⟨AList.lookup_insert _, fun other stored here differ => ?_⟩
    rw [AList.lookup_insert_ne differ] at here
    exact found other stored here differ
  have kept := inserts world.heads fun _ _ here _ => here
  unfold cleanUp
  split
  · exact ⟨_, rfl, kept⟩
  · exact ⟨_, rfl, kept⟩
  · rename_i main read
    split
    · exact ⟨_, rfl, kept⟩
    · split
      · rename_i plain
        refine ⟨_, rfl, inserts (lostHeads world.heads) ?_⟩
        intro other stored here differ
        rcases sound with remote | empty | alone
        · rw [plain] at remote
          cases remote
        · have found := lookup_of_storageHead read
          rw [show branchName none = "main" from rfl, empty] at found
          cases found
        · exact absurd (alone other (mem_of_lookup_lostHeads here)) differ
      · exact ⟨_, rfl, kept⟩

/-- A refresh with a full result. -/
theorem Plan.overwrite (plan : Plan planner world branch version query old tables)
    (good : Good planner world) (sound : SoundRefresh planner world branch) (now : Int)
    (full : query.strategy ≠ .incrementalAppend) {commit : StorageCommit Row}
    (computed : computeRefresh planner world query tables (newState world tables now) =
      .ok commit) :
    Good planner (commitRefresh branch world commit).1 ∧
      ((commitRefresh branch world commit).2 = .ok () →
        Tiled planner (commitRefresh branch world commit).1 branch) := by
  have soundQuery := sound.query version query plan.resolved plan.planned
  have soundOverwrite := soundQuery.overwrites full
  have scans : query.relations.mapM (sessionScan planner world) =
      .ok (query.relations.map (currentInput planner world version)) := by
    rw [mapM_eq_ok, List.forall₂_map_right_iff, List.forall₂_same]
    intro relation member
    obtain ⟨table, -, located⟩ := exists_of_mem_forall₂ plan.located.flip member
    obtain ⟨head, main⟩ := located.main soundQuery member
    have named : planner.session relation = table.identifier :=
      Except.ok.inj ((soundOverwrite.session relation member).symm.trans located.named)
    rw [currentInput_eq located main]
    simp only [sessionScan, named, located.here]
    exact Source.scan_all main
  have fullRefresh : commit = .fullRefresh
      (query.result (query.relations.map (currentInput planner world version)))
      (newState world tables now) := by
    unfold computeRefresh at computed
    split at computed
    · rename_i incremental
      exact absurd incremental full
    · rw [scans] at computed
      exact (Except.ok.inj computed).symm
  obtain ⟨head, found, -⟩ := refreshState_spec plan.read
  obtain ⟨heads, set, here, others⟩ := cleanUp_spec
    ⟨some (query.result (query.relations.map (currentInput planner world version))),
      newState world tables now⟩ soundOverwrite.cleanup
  obtain ⟨kept, tiled⟩ := plan.tiles good soundQuery sound.named now rfl others here
  rw [fullRefresh]
  simp only [commitRefresh, found]
  rw [set]
  exact ⟨kept, fun _ => tiled⟩

/-- A sound refresh keeps the invariant and, where it succeeds, its branch has the result of the
current query over what is recorded. -/
theorem refresh_good (good : Good planner world) (sound : SoundRefresh planner world branch)
    (now : Int) :
    Good planner (refresh planner branch now world).1 ∧
      ((refresh planner branch now world).2 = .ok () →
        Tiled planner (refresh planner branch now world).1 branch) := by
  unfold refresh
  cases planned : planRefresh planner branch now world with
  | error failure => exact ⟨good, fun done => by cases done⟩
  | ok result =>
    obtain ⟨version, query, old, tables, plan, ⟨rfl, fresh⟩ | ⟨commit, rfl, computed⟩⟩ :=
      planRefresh_spec planned
    · refine ⟨good, fun _ => ?_⟩
      -- There is a relation, and being fresh it has been recorded.
      have soundQuery := sound.query version query plan.resolved plan.planned
      obtain ⟨relation, member⟩ := List.exists_mem_of_ne_nil _ soundQuery.relations
      obtain ⟨table, within, located⟩ := exists_of_mem_forall₂ plan.located.flip member
      cases old with
      | some state => exact good.tiled sound.named plan.read
      | none =>
        have ranges := located.ranges
        simp [fresh table within, sourceRanges] at ranges
    · by_cases incremental : query.strategy = .incrementalAppend
      · exact plan.append good sound now incremental computed
      · exact plan.overwrite good sound now incremental computed

end Refresh

/-! ### Runs -/

theorem Good.step (good : Good planner world) {event : RefreshEvent Row}
    (sound : SoundStep planner world event) : Good planner (stepRefresh planner world event) := by
  cases event with
  | append name branch id rows =>
    simp only [stepRefresh]
    split
    · exact good
    · rename_i source here
      split
      · exact good
      · rename_i fresh
        split
        · exact good
        · rename_i next appended
          exact good.setSource here fresh (Source.append_appended appended)
  | redefine branch representations schema now =>
    simp only [stepRefresh]
    split
    · exact good
    · rename_i view run
      exact good.redefine run sound
  | refresh branch now => exact (refresh_good good sound now).1

theorem Good.run {events : List (RefreshEvent Row)} :
    ∀ {world : World Row}, Good planner world → SoundRun planner world events →
      Good planner (runRefresh planner world events) := by
  induction events with
  | nil => exact fun good _ => good
  | cons event events ih => exact fun good sound => ih (good.step sound.1) sound.2

/-- Before anything is appended or refreshed. -/
structure Created (world : World Row) : Prop where
  sources : ∀ name source, world.sources name = some source → source.snapshots = ∅
  heads : world.heads = ∅

theorem Created.good (created : Created world) : Good planner world := by
  constructor
  · intro name source here
    have empty := created.sources name source here
    constructor
    · intro id member
      rw [empty] at member
      exact absurd member (AList.notMem_empty id)
    · intro _ id snapshot found
      rw [empty] at found
      cases found
  · intro name head found
    rw [created.heads] at found
    cases found
  · intro name head found
    rw [created.heads] at found
    cases found

theorem soundRun_snoc {world : World Row} {events : List (RefreshEvent Row)}
    {event : RefreshEvent Row} : SoundRun planner world (events ++ [event]) ↔
      SoundRun planner world events ∧ SoundStep planner (runRefresh planner world events) event := by
  induction events generalizing world with
  | nil => simp [SoundRun, runRefresh]
  | cons first events ih =>
    simp only [List.cons_append, SoundRun, ih, and_assoc]
    rfl

variable (planner)

/-- After a run of sound steps, a sound refresh that succeeds leaves on its branch the result of the
current query over the recorded snapshots. -/
theorem refresh_tiled {initial : World Row} (created : Created initial)
    (events : List (RefreshEvent Row)) (branch : Option String) (now : Int)
    (sound : SoundRun planner initial (events ++ [.refresh branch now]))
    (done : (refresh planner branch now (runRefresh planner initial events)).2 = .ok ()) :
    Tiled planner (refresh planner branch now (runRefresh planner initial events)).1 branch := by
  obtain ⟨before, here⟩ := soundRun_snoc.mp sound
  have good : Good planner (runRefresh planner initial events) := created.good.run before
  exact (refresh_good good here now).2 done

/-! ### Two runs -/

/-- A query that computes one value from each row of a relation. -/
def projection (relation : String) (f : Nat → Nat) : Query Nat where
  relations := [relation]
  strategy := .incrementalAppend
  readsStorage := false
  result inputs := inputs.sum.map f
  posDelta _ delta _ := delta.sum.map f
  negDelta _ _ _ := 0
  sameKey _ _ := false
  deltas_exact := by
    intro _ old delta stored oldLength deltaLength start
    obtain ⟨before, rfl⟩ := List.length_eq_one_iff.mp oldLength
    obtain ⟨after, rfl⟩ := List.length_eq_one_iff.mp deltaLength
    rcases start with rfl | ⟨empty, rfl⟩
    · simp [applyDeletes_zero]
    · simp [applyDeletes_zero, empty before List.mem_cons_self]

def textPlanner : Planner Nat where
  query
    | "SELECT x FROM source" => .ok (projection "source" id)
    | "SELECT x + 1 FROM source" => .ok (projection "source" (· + 1))
    | _ => .error (.invalidFormat "query")
  resolve _ _ relation := relation
  session relation := relation

/-- One source table and a view of it. -/
def createdWorld : World Nat where
  sources name := if name = "source" then some ⟨.v2, ⟨3⟩, 0, ∅, ∅⟩ else none
  view := createdView
  heads := ∅
  plain := true

theorem textPlanner_query {version : Version String} {query : Query Nat}
    (planned : versionQuery textPlanner version = .ok query) :
    ∃ f, query = projection "source" f := by
  unfold versionQuery at planned
  split at planned
  · simp only [textPlanner] at planned
    split at planned
    · exact ⟨_, (Except.ok.inj planned).symm⟩
    · exact ⟨_, (Except.ok.inj planned).symm⟩
    · cases planned
  · cases planned

/-- Refreshes of the main branch that continue from a refresh state, or start from nothing. -/
theorem textPlanner_sound {world : World Nat}
    (numbered : (world.sources "source").all fun source => decide (source.formatVersion ≠ .v1))
    (restarts : (world.refreshState world.view.currentVersionId none).toOption.join.isNone →
      branchRows world none = .ok 0) : SoundRefresh textPlanner world none := by
  refine ⟨rfl, fun version query _ planned => ?_⟩
  obtain ⟨f, rfl⟩ := textPlanner_query planned
  refine ⟨List.cons_ne_nil _ _, fun _ _ _ _ _ _ _ _ main => main, fun _ => ?_,
    fun full => absurd rfl full⟩
  refine ⟨fun read => restarts (by rw [read]; rfl), fun _ => rfl, ?_⟩
  intro state _ relation member identifier source named here one
  obtain rfl := List.mem_singleton.mp member
  have same : identifier = "source" := by
    unfold relationTable at named
    split at named
    · exact (Except.ok.inj named).symm
    · cases named
  rw [same] at here
  rw [here] at numbered
  exact absurd one (of_decide_eq_true numbered)

/-- Rows are appended before each of two refreshes. -/
def appendedBetween : List (RefreshEvent Nat) :=
  [.append "source" none 1 {1}, .refresh none 0, .append "source" none 2 {5}]

theorem refresh_tiled_appended :
    Tiled textPlanner
      (refresh textPlanner none 0 (runRefresh textPlanner createdWorld appendedBetween)).1 none := by
  have created : Created createdWorld := by
    refine ⟨fun name source here => ?_, rfl⟩
    by_cases same : name = "source"
    · simp only [createdWorld, same, if_true, Option.some.injEq] at here
      rw [← here]
    · simp [createdWorld, same] at here
  refine refresh_tiled textPlanner created appendedBetween none 0
    ⟨trivial, ?_, trivial, ?_, trivial⟩ (by decide +kernel)
  · exact textPlanner_sound (by decide +kernel) (by decide +kernel)
  · exact textPlanner_sound (by decide +kernel) (by decide +kernel)

/-- The same with a redefinition of the view before the second refresh. -/
def redefinedBetween : List (RefreshEvent Nat) :=
  [.append "source" none 1 {1}, .refresh none 0,
    .redefine none [.sql "SELECT x + 1 FROM source" "ansi"] ⟨[]⟩ 0, .append "source" none 2 {5}]

/-- The result of the new query is appended to the rows of the old one. -/
theorem refresh_redefined_not_tiled :
    (refresh textPlanner none 0 (runRefresh textPlanner createdWorld redefinedBetween)).2 = .ok () ∧
      ¬ Tiled textPlanner
        (refresh textPlanner none 0 (runRefresh textPlanner createdWorld redefinedBetween)).1
        none := by
  refine ⟨by decide +kernel, fun tiled => ?_⟩
  have rows := tiled.branchRows_eq
  revert rows
  decide +kernel

end IcebergRust.MaterializedView

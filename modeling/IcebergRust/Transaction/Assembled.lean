import IcebergRust.Table.Passes
import IcebergRust.Transaction.Operation

/-!
# Data operations as runs of the machine

`Append`, `AppendSequenceGroups` and `Overwrite` take the rows of the head's list and the
new entries to a state in which nothing is held and nothing is left to be written.

* `displacedRows` and `displacedByOverwrite` are the rows an operation loses, read off the
  list it starts from.
* `…_assembled` are the runs of whole operations.
-/

namespace IcebergRust

open Fallible ManifestListWriter

variable {V : Type} [PartitionValue V]

/-! ### Where an operation starts -/

/-- The rows of the list an operation starts from. -/
def headRows (metadata : TableMetadata) (store : Store V) :
    Option Snapshot → Except Error (List (ManifestListEntry V))
  | none => .ok []
  | some snapshot => do
    let file ← store.getManifestList snapshot.manifestList
    let hydrated ← hydratedList file metadata store
    hydrated.read metadata

/-- The default partition spec has no fields. -/
def unpartitioned (metadata : TableMetadata) : Bool :=
  match metadata.defaultPartitionSpec with
  | .ok spec => spec.fields.isEmpty
  | .error _ => false

/-- The rows the selection of an append loses: in an unpartitioned table of version 1 or 2, those
the unpartitioned selection loses for either content. -/
def displacedRows (metadata : TableMetadata) (rows : List (ManifestListEntry V)) :
    List (ManifestListEntry V) :=
  match rewritePartitionTypes metadata with
  | .error _ => []
  | .ok types =>
    if metadata.formatVersion = .v3 ∨ unpartitioned metadata = false then []
    else lostRows (compatible metadata types .data rows) ++
      lostRows (compatible metadata types .deletes rows)

/-- The rows the selection of an overwrite with new files loses. -/
def displacedByOverwrite (metadata : TableMetadata) (rows : List (ManifestListEntry V)) :
    List (ManifestListEntry V) :=
  match rewritePartitionTypes metadata with
  | .error _ => []
  | .ok types =>
    if metadata.formatVersion = .v3 ∨ unpartitioned metadata = false then []
    else lostRows (rows.filter (rewriteAllows metadata types))

/-- The state of the machine an operation starts in. -/
def Assembly.begin (metadata : TableMetadata) (store : Store V)
    (rows : List (ManifestListEntry V))
    (loose : Multiset (ManifestContent × ManifestEntry V)) : Assembly V :=
  ⟨store, .start metadata.formatVersion (ManifestListWriter.tableAssigner metadata),
    Multiset.ofList rows, loose, .empty, 0⟩

namespace ManifestListWriter

variable {metadata : TableMetadata} {snapshotId : Int} {uuid : String} {mixes : Prop}
  {files : List (DataFile V)}

theorem names_isEmpty {names : List String} {bounding : Rectangle V}
    (run : partitionNamesAndBounds files metadata = .ok (names, bounding)) :
    names.isEmpty = unpartitioned metadata := by
  simp only [partitionNamesAndBounds, TableMetadata.currentPartitionFields, partitionFields,
    bind_eq_ok] at run
  obtain ⟨fields, ⟨schema, -, spec, default, bound⟩, rectangle, -, run⟩ := run
  cases run
  rw [unpartitioned, default]
  have same := length_mapM bound
  cases hf : fields <;> cases hs : spec.fields <;> simp_all

omit [PartitionValue V] in
theorem tableAssigner_of_ne (versioned : metadata.formatVersion ≠ .v3) :
    tableAssigner metadata = none := by
  simp [tableAssigner, versioned]

variable {writer : ManifestListWriter V}

omit [PartitionValue V] in
theorem ready_of_none (data : writer.selectedDataManifest = none)
    (deletes : writer.selectedDeleteManifest = none) : writer.Ready metadata mixes := by
  constructor
  · rintro (_ | _) row chosen
    · simp [selected, data] at chosen
    · simp [selected, deletes] at chosen
  · rintro (_ | _) row chosen
    · simp [selected, data] at chosen
    · simp [selected, deletes] at chosen

theorem new_assembles (run : new files metadata uuid = .ok writer) (store : Store V)
    (loose : Multiset (ManifestContent × ManifestEntry V)) :
    Assembly.begin metadata store [] loose = writer.assembly store 0 loose .empty ∧
      writer.commitUuid = uuid ∧ writer.Ready metadata mixes := by
  obtain ⟨⟨names, bounding⟩, -, run⟩ := bind_eq_ok.mp run
  cases run
  exact ⟨rfl, rfl, ready_of_none rfl rfl⟩

/-- The list writer left by a selection pass. -/
theorem selected_assembles {κ : Type}
    {J : List (ManifestListEntry V) → Option (κ × ManifestListEntry V) →
      List (ManifestListEntry V) → Prop} {allows : ManifestListEntry V → Bool}
    {rows lostData lostDeletes : List (ManifestListEntry V)} {state : SelectState V κ}
    (versioned : metadata.formatVersion ≠ .v3)
    (done : SelectRun metadata snapshotId uuid mixes J allows (.start metadata.formatVersion none)
      rows state lostData lostDeletes) (bounding : Rectangle V) (store : Store V)
    (loose : Multiset (ManifestContent × ManifestEntry V)) :
    let writer : ManifestListWriter V := ⟨state.output, state.data.map (·.2),
      state.deletes.map (·.2), bounding, state.fileCountAllEntries, uuid, 0⟩
    Assembles metadata snapshotId uuid mixes (Assembly.begin metadata store rows loose)
        (writer.assembly store 0 loose (Ledger.empty.lose (lostData ++ lostDeletes))) ∧
      writer.Ready metadata mixes := by
  refine ⟨?_, ?_, fun _ _ _ => versioned⟩
  · have run := done.assembles store 0 loose .empty 0
    rw [← tableAssigner_of_ne versioned] at run
    simpa [Assembly.begin, assembly, held] using run
  · rintro (_ | _) row chosen
    · obtain ⟨held, here, rfl⟩ := Option.map_eq_some_iff.mp chosen
      exact .inl (done.dataContent held here).symm
    · obtain ⟨held, here, rfl⟩ := Option.map_eq_some_iff.mp chosen
      exact .inl (done.deletesContent held here).symm

/-- The list writer of an append, from the rows of the old list. -/
theorem fromExisting_assembles {file : ManifestListFile V} {rows : List (ManifestListEntry V)}
    (run : fromExisting file files metadata uuid = .ok writer)
    (read : file.read metadata = .ok rows) (store : Store V)
    (loose : Multiset (ManifestContent × ManifestEntry V)) :
    Assembles metadata snapshotId uuid mixes (Assembly.begin metadata store rows loose)
        (writer.assembly store 0 loose (Ledger.empty.lose (displacedRows metadata rows))) ∧
      writer.commitUuid = uuid ∧ writer.Ready metadata mixes := by
  simp only [fromExisting, bind_eq_ok] at run
  obtain ⟨⟨names, bounding⟩, bounds, rows', read', run⟩ := run
  obtain rfl := Except.ok.inj (read.symm.trans read')
  have empty := names_isEmpty bounds
  split at run
  · rename_i v3
    obtain ⟨state, copied, run⟩ := bind_eq_ok.mp run
    cases run
    have copy : CopyRun metadata snapshotId uuid mixes [] _ rows state.passed :=
      copyManifests_run copied
    have none : state.passed.manifestsToOverwrite = [] := by
      have aside := copy.aside
      simpa [namedRows] using aside.symm
    have lost : displacedRows metadata rows = [] := by
      rw [displacedRows]
      split
      · rfl
      · rw [if_pos (.inl v3)]
    refine ⟨?_, rfl, ready_of_none rfl rfl⟩
    rw [lost, Ledger.lose_nil]
    simpa [Assembly.begin, assembly, held, none] using copy.assembles store 0 loose .empty 0
  · rename_i versioned
    split at run
    · rename_i noNames
      obtain ⟨selected, selects, run⟩ := bind_eq_ok.mp run
      cases run
      obtain ⟨types, data, deletes, lostData, lostDeletes, typed, one, two, done⟩ :=
        @selectManifest_assembles V _ _ metadata snapshotId uuid mixes _ _ _ _ unpartitioned_tracks
          versioned _ _ selects
      have lost : displacedRows metadata rows = lostData ++ lostDeletes := by
        have flat : unpartitioned metadata = true := empty ▸ noNames
        rw [displacedRows, typed]
        simp only [versioned, flat, false_or, Bool.true_eq_false, if_false]
        rw [← candidateStep_lost, ← candidateStep_lost, compatible, compatible]
        rw [done.data.2, done.deletes.2]
      obtain ⟨assembles, ready⟩ := selected_assembles versioned done bounding store loose
      rw [one, two, lost]
      exact ⟨assembles, rfl, ready⟩
    · rename_i hasNames
      obtain ⟨selected, selects, run⟩ := bind_eq_ok.mp run
      cases run
      obtain ⟨types, data, deletes, lostData, lostDeletes, typed, one, two, done⟩ :=
        @selectManifest_assembles V _ _ metadata snapshotId uuid mixes _ _ _ _
          (partitioned_tracks bounding) versioned _ _ selects
      have lost : displacedRows metadata rows = lostData ++ lostDeletes := by
        have deep : unpartitioned metadata = false := empty ▸ (Bool.not_eq_true _).mp hasNames
        rw [displacedRows, typed]
        simp only [deep, or_true, if_true]
        rw [done.data, done.deletes]
        rfl
      obtain ⟨assembles, ready⟩ := selected_assembles versioned done bounding store loose
      rw [one, two, lost]
      exact ⟨assembles, rfl, ready⟩

/-- Finishing lists the manifests that are still selected. -/
theorem finish_assembles {store stored : Store V} {location : String} {nextRowId : Option Int}
    (run : writer.finish metadata store snapshotId = .ok (stored, location, nextRowId))
    (ledger : Ledger V) :
    ∃ output, Assembles metadata snapshotId uuid mixes (writer.assembly store 0 0 ledger)
        ⟨store, output, 0, 0, ledger, writer.manifestCount⟩ ∧
      stored = store.putManifestList location output.writer ∧
      nextRowId = output.rowIdAssigner.map (·.nextRowId) ∧
      location = newManifestListLocation metadata.location snapshotId 0 writer.commitUuid := by
  simp only [finish, bind_eq_ok] at run
  obtain ⟨withData, data, output, deletes, run⟩ := run
  injection run with same
  simp only [Prod.mk.injEq] at same
  obtain ⟨rfl, rfl, rfl⟩ := same
  have remaining {before after : ListOutput V} {row : Option (ManifestListEntry V)}
      (run : appendRemaining before row = .ok after) (rest : Multiset (ManifestListEntry V)) :
      Assembles metadata snapshotId uuid mixes
        ⟨store, before, optional row + rest, 0, ledger, writer.manifestCount⟩
        ⟨store, after, rest, 0, ledger, writer.manifestCount⟩ := by
    cases row with
    | none =>
      cases run
      simpa using Assembles.refl _
    | some row =>
      have list : AssemblyStep metadata snapshotId uuid mixes _ _ :=
        .list ⟨store, before, rest, 0, ledger, writer.manifestCount⟩ row after run
      simpa using list.assembles
  refine ⟨output, ?_, rfl, rfl, rfl⟩
  have one := remaining data (optional writer.selectedDeleteManifest)
  have two := remaining deletes 0
  rw [add_zero] at two
  simpa [assembly, held] using one.trans two

end ManifestListWriter

/-! ### Appends -/

variable {metadata : TableMetadata} {mixes : Prop} {entropy : Entropy} {store stored : Store V}

/-- The new entries of an append. -/
def addedEntries (metadata : TableMetadata) (sequenceNumber : Option Int)
    (files : List (DataFile V)) : List (ManifestEntry V) :=
  files.map (addedEntry metadata none sequenceNumber)

variable {writer : ManifestListWriter V} {dataFiles : List (DataFile V)} {files : List (DataFile V)}
  {branch : Option String} {additional : Option (HashMap String String)}
  {requirement : Option TableRequirement} {updates : List TableUpdate}
  {filesToOverwrite : HashMap String (List String)}

/-- The list writer of an append, as a state of the machine. -/
theorem beginAppend_assembles {old : Option Snapshot}
    (run : beginAppend metadata store old files entropy = .ok writer)
    (loose : Multiset (ManifestContent × ManifestEntry V)) :
    ∃ rows, headRows metadata store old = .ok rows ∧
      Assembles metadata entropy.snapshotId entropy.writerUuid mixes
        (Assembly.begin metadata store rows loose)
        (writer.assembly store 0 loose (Ledger.empty.lose (displacedRows metadata rows))) ∧
      writer.commitUuid = entropy.writerUuid ∧ writer.Ready metadata mixes := by
  cases old with
  | none =>
    obtain ⟨same, named, ready⟩ := new_assembles run store loose
    have none : displacedRows metadata ([] : List (ManifestListEntry V)) = [] := by
      rw [displacedRows]
      split
      · rfl
      · split <;> rfl
    refine ⟨[], rfl, ?_, named, ready⟩
    rw [same, none, Ledger.lose_nil]
    exact .refl _
  | some snapshot =>
    simp only [beginAppend, bind_eq_ok] at run
    obtain ⟨file, fetched, hydrated, hydrates, run⟩ := run
    have reads : ∃ rows, hydrated.read metadata = .ok rows := by
      simp only [fromExisting, bind_eq_ok] at run
      obtain ⟨-, -, rows, read, -⟩ := run
      exact ⟨rows, read⟩
    obtain ⟨rows, read⟩ := reads
    obtain ⟨assembles, named, ready⟩ :=
      fromExisting_assembles run read store loose
    exact ⟨rows, by simp [headRows, fetched, hydrates, read], assembles, named, ready⟩

section Advances

variable {snapshotId : Int} {content : ManifestContent}
  {before after : Store V × ManifestListWriter V}

/-- Appending files of one content. -/
theorem appendContent_advances
    (run : appendContent metadata store writer files snapshotId content = .ok after)
    (ready : writer.Ready metadata mixes) :
    ManifestListWriter.Advances metadata snapshotId mixes
      (tagged content (addedEntries metadata none files)) (store, writer) after := by
  simp only [appendContent] at run
  split at run
  · rename_i none
    cases run
    rw [List.isEmpty_iff.mp none]
    exact .refl ready
  · split at run
    · exact append_advances run ready
    · exact appendMultiple_advances run ready

/-- The new entries of sequence groups from an offset on, with their contents. -/
def groupEntries (metadata : TableMetadata) :
    Int → List (SequenceGroup V) → Multiset (ManifestContent × ManifestEntry V)
  | _, [] => 0
  | dsnOffset, group :: groups =>
    let sequenceNumber := some (wrapI64 (metadata.lastSequenceNumber + (dsnOffset + 1)))
    tagged .data (addedEntries metadata sequenceNumber group.dataFiles) +
      (tagged .deletes (addedEntries metadata sequenceNumber group.deleteFiles) +
        groupEntries metadata (dsnOffset + 1) groups)

theorem appendGroupContent_advances {sequenceNumber : Int}
    (run : appendGroupContent metadata snapshotId sequenceNumber before files content = .ok after)
    (ready : before.2.Ready metadata mixes) :
    ManifestListWriter.Advances metadata snapshotId mixes
      (tagged content (addedEntries metadata (some sequenceNumber) files)) before after := by
  simp only [appendGroupContent] at run
  split at run
  · rename_i none
    cases run
    rw [List.isEmpty_iff.mp none]
    exact .refl ready
  · exact append_advances run ready

/-- The loop over the groups, each of which appends its data files and its delete files. -/
theorem appendGroups_advances {groups : List (SequenceGroup V)} {dsnOffset : Int}
    (run : appendGroups metadata snapshotId dsnOffset before groups = .ok after)
    (ready : before.2.Ready metadata mixes) :
    ManifestListWriter.Advances metadata snapshotId mixes (groupEntries metadata dsnOffset groups)
      before after := by
  induction groups generalizing dsnOffset before with
  | nil =>
    cases run
    exact .refl ready
  | cons group groups ih =>
    simp only [appendGroups, bind_eq_ok] at run
    obtain ⟨withData, data, filled, deletes, rest⟩ := run
    have one := appendGroupContent_advances data ready
    have two := appendGroupContent_advances deletes one.ready
    exact one.trans (two.trans (ih rest two.ready))

end Advances

/-! ### Whole operations -/

/-- A data operation has written a list: from the rows of the old one and new entries, a run of the
machine has arrived at a state in which everything is listed. -/
structure WritesList (metadata : TableMetadata) (store stored : Store V) (entropy : Entropy)
    (mixes : Prop) (old : Option Snapshot)
    (loose : Multiset (ManifestContent × ManifestEntry V)) (snapshot : Snapshot)
    (rows : List (ManifestListEntry V)) (final : Assembly V) : Prop where
  read : headRows metadata store old = .ok rows
  assembles : Assembles metadata entropy.snapshotId entropy.writerUuid mixes
    (Assembly.begin metadata store rows loose) final
  held : final.held = 0
  loose : final.loose = 0
  location : snapshot.manifestList =
    newManifestListLocation metadata.location entropy.snapshotId 0 entropy.writerUuid
  stored : stored = final.store.putManifestList snapshot.manifestList final.output.writer
  id : snapshot.snapshotId = entropy.snapshotId
  parent : snapshot.parentSnapshotId = old.map (·.snapshotId)
  lineage : applyV3RowLineage metadata (final.output.rowIdAssigner.map (·.nextRowId)) =
    .ok (snapshot.firstRowId, snapshot.addedRows)

/-- The new entries of an append, with their contents. -/
def appendedEntries (metadata : TableMetadata) (dataFiles deleteFiles : List (DataFile V)) :
    Multiset (ManifestContent × ManifestEntry V) :=
  tagged .data (addedEntries metadata none dataFiles) +
    tagged .deletes (addedEntries metadata none deleteFiles)

/-- The list writer of an append that has gone on and is finished. -/
theorem writesList_of_advances {old : Option Snapshot} {filled : Store V × ManifestListWriter V}
    {list : String} {next : Option Int} {entries : Multiset (ManifestContent × ManifestEntry V)}
    (begins : beginAppend metadata store old files entropy = .ok writer)
    (advances : writer.Ready metadata mixes → ManifestListWriter.Advances metadata
      entropy.snapshotId mixes entries (store, writer) filled)
    (finishes : filled.2.finish metadata filled.1 entropy.snapshotId = .ok (stored, list, next)) :
    ∃ rows final, final.ledger = Ledger.empty.lose (displacedRows metadata rows) ∧
      ∀ snapshot : Snapshot, snapshot.manifestList = list →
        snapshot.snapshotId = entropy.snapshotId →
        snapshot.parentSnapshotId = old.map (·.snapshotId) →
        applyV3RowLineage metadata next = .ok (snapshot.firstRowId, snapshot.addedRows) →
        WritesList metadata store stored entropy mixes old entries snapshot rows final := by
  obtain ⟨rows, head, start, named, ready⟩ := beginAppend_assembles begins entries
  obtain ⟨uuid, -, goes⟩ := advances ready
  have middle := goes 0 (Ledger.empty.lose (displacedRows metadata rows))
  obtain ⟨output, last, stores, rfl, located⟩ := finish_assembles finishes
    (Ledger.empty.lose (displacedRows metadata rows))
  rw [add_zero, named] at middle
  rw [uuid, named] at located
  refine ⟨rows, ⟨filled.1, output, 0, 0, Ledger.empty.lose (displacedRows metadata rows),
    filled.2.manifestCount⟩, rfl, fun snapshot location id parent lineage => ?_⟩
  exact ⟨head, (start.trans middle).trans last, rfl, rfl, location.trans located, location ▸ stores,
    id, parent, lineage⟩

theorem executeAppend_assembled {deleteFiles : List (DataFile V)}
    (run : executeAppend metadata store entropy branch dataFiles deleteFiles additional =
      .ok (stored, requirement, updates)) :
    (dataFiles = [] ∧ deleteFiles = [] ∧ stored = store ∧ requirement = none ∧ updates = []) ∨
      ∃ old snapshot rows final, metadata.currentSnapshot branch = .ok old ∧
        (requirement, updates) = snapshotCommit branch old snapshot ∧
        snapshot.sequenceNumber = ManifestWriter.nextSequenceNumber metadata ∧
        WritesList metadata store stored entropy mixes old
          (appendedEntries metadata dataFiles deleteFiles) snapshot rows final ∧
        final.ledger = Ledger.empty.lose (displacedRows metadata rows) := by
  simp only [executeAppend, bind_eq_ok] at run
  obtain ⟨old, read, run⟩ := run
  split at run
  · rename_i none
    cases run
    have lengths : dataFiles.length = 0 ∧ deleteFiles.length = 0 := by omega
    exact .inl ⟨List.length_eq_zero_iff.mp lengths.1, List.length_eq_zero_iff.mp lengths.2, rfl, rfl,
      rfl⟩
  · simp only [bind_eq_ok] at run
    obtain ⟨begun, begins, ⟨s1, withData⟩, data, ⟨s2, filled⟩, deletes, ⟨s3, list, next⟩, finishes,
      schema, -, ⟨first, added⟩, lineage, run⟩ := run
    injection run with sent
    simp only [Prod.mk.injEq] at sent
    obtain ⟨rfl, rfl, rfl⟩ := sent
    obtain ⟨rows, final, ledger, writes⟩ := writesList_of_advances begins (fun ready =>
      have one := appendContent_advances data ready
      one.trans (appendContent_advances deletes one.ready)) finishes
    exact .inr ⟨old, _, rows, final, read, rfl, rfl, writes _ rfl rfl rfl lineage, ledger⟩

theorem executeAppendSequenceGroups_assembled {groups : List (SequenceGroup V)}
    (run : executeAppendSequenceGroups metadata store entropy branch groups =
      .ok (stored, requirement, updates)) :
    (stored = store ∧ requirement = none ∧ updates = []) ∨
      ∃ old snapshot rows final, metadata.currentSnapshot branch = .ok old ∧
        (requirement, updates) = snapshotCommit branch old snapshot ∧
        snapshot.sequenceNumber = wrapI64 (metadata.lastSequenceNumber + groups.length) ∧
        WritesList metadata store stored entropy mixes old (groupEntries metadata 0 groups) snapshot
          rows final ∧
        final.ledger = Ledger.empty.lose (displacedRows metadata rows) := by
  simp only [executeAppendSequenceGroups, bind_eq_ok] at run
  obtain ⟨old, read, run⟩ := run
  split at run
  · cases run
    exact .inl ⟨rfl, rfl, rfl⟩
  · simp only [bind_eq_ok] at run
    obtain ⟨begun, begins, ⟨s1, filled⟩, fills, ⟨s2, list, next⟩, finishes, schema, -,
      ⟨first, added⟩, lineage, run⟩ := run
    injection run with sent
    simp only [Prod.mk.injEq] at sent
    obtain ⟨rfl, rfl, rfl⟩ := sent
    obtain ⟨rows, final, ledger, writes⟩ := writesList_of_advances begins
      (fun ready => appendGroups_advances fills ready) finishes
    exact .inr ⟨old, _, rows, final, read, rfl, rfl, writes _ rfl rfl rfl lineage, ledger⟩

/-! ### Overwrites -/

/-- The list writer of an overwrite, the manifests it has set aside and the rows it has lost. -/
structure BeginsOverwrite (metadata : TableMetadata) (store : Store V) (entropy : Entropy)
    (mixes : Prop) (rows : List (ManifestListEntry V)) (dataFiles : List (DataFile V))
    (overwrites : List String) (begun : ManifestListWriter V)
    (aside lost : List (ManifestListEntry V)) : Prop where
  losing : lost = if dataFiles.isEmpty then [] else displacedByOverwrite metadata rows
  setAside : namedRows overwrites (Multiset.ofList rows) =
    Multiset.ofList aside + namedRows overwrites (begun.held + Multiset.ofList lost)
  deletes : begun.selectedDeleteManifest = none
  versioned : ∀ row ∈ begun.selectedDataManifest, metadata.formatVersion ≠ .v3
  unselected : dataFiles.isEmpty → begun.selectedDataManifest = none
  uuid : begun.commitUuid = entropy.writerUuid
  assembles : ∀ loose, Assembles metadata entropy.snapshotId entropy.writerUuid mixes
    (Assembly.begin metadata store rows loose)
    (begun.assembly store (Multiset.ofList aside) loose (Ledger.empty.lose lost))

theorem PassRun.begins {κ : Type}
    {J : List (ManifestListEntry V) → Option (κ × ManifestListEntry V) →
      List (ManifestListEntry V) → Prop} {allows : ManifestListEntry V → Bool}
    {rows lost : List (ManifestListEntry V)} {passed : OverwriteOutput V}
    {selected : Option (κ × ManifestListEntry V)} {overwrites : List String}
    (done : PassRun metadata entropy.snapshotId entropy.writerUuid mixes overwrites J allows
      (.start metadata.formatVersion none) rows passed selected lost)
    (versioned : metadata.formatVersion ≠ .v3) (some : ¬ dataFiles.isEmpty = true)
    (losing : displacedByOverwrite metadata rows = lost) (bounding : Rectangle V) (n : Nat)
    (store : Store V) :
    BeginsOverwrite metadata store entropy mixes rows dataFiles overwrites
      ⟨passed.output, selected.map (·.2), none, bounding, n, entropy.writerUuid, 0⟩
      passed.manifestsToOverwrite lost where
  losing := by rw [if_neg some, losing]
  setAside := by simpa [held] using done.aside
  deletes := rfl
  versioned := fun _ _ => versioned
  unselected := fun none => absurd none some
  uuid := rfl
  assembles := by
    intro loose
    have run := done.assembles store 0 loose .empty 0
    rw [← tableAssigner_of_ne versioned] at run
    simpa [Assembly.begin, assembly, held] using run

theorem beginOverwrite_begins {file : ManifestListFile V} {rows aside : List (ManifestListEntry V)}
    {overwrites : List String} {begun : ManifestListWriter V}
    (run : beginOverwrite metadata file dataFiles overwrites entropy = .ok (begun, aside))
    (read : file.read metadata = .ok rows) (store : Store V) :
    ∃ lost, BeginsOverwrite metadata store entropy mixes rows dataFiles overwrites begun aside
      lost := by
  simp only [beginOverwrite] at run
  split at run
  · rename_i none
    simp only [fromExistingForDeletion, bind_eq_ok] at run
    obtain ⟨rows', read', state, copied, run⟩ := run
    obtain rfl := Except.ok.inj (read.symm.trans read')
    cases run
    have copy : CopyRun metadata entropy.snapshotId entropy.writerUuid mixes overwrites _ rows
        state.passed := copyManifests_run copied
    refine ⟨[], by rw [if_pos none], ?_, rfl, by simp, fun _ => rfl, rfl, fun loose => ?_⟩
    · simpa [held] using copy.aside
    · have run := copy.assembles store 0 loose .empty 0
      simpa [Assembly.begin, assembly, held,
        Ledger.lose_nil] using run
  · rename_i some
    simp only [fromExistingWithoutOverwrites, bind_eq_ok] at run
    obtain ⟨⟨names, bounding⟩, bounds, rows', read', run⟩ := run
    obtain rfl := Except.ok.inj (read.symm.trans read')
    have empty := names_isEmpty bounds
    split at run
    · rename_i v3
      obtain ⟨state, copied, run⟩ := bind_eq_ok.mp run
      cases run
      have copy : CopyRun metadata entropy.snapshotId entropy.writerUuid mixes overwrites _ rows
          state.passed := copyManifests_run copied
      have lost : displacedByOverwrite metadata rows = [] := by
        rw [displacedByOverwrite]
        split
        · rfl
        · rw [if_pos (.inl v3)]
      refine ⟨[], by rw [if_neg some, lost], ?_, rfl, by simp, fun _ => rfl, rfl, fun loose => ?_⟩
      · simpa [held] using copy.aside
      · have run := copy.assembles store 0 loose .empty 0
        simpa [Assembly.begin, assembly, held,
          Ledger.lose_nil] using run
    · rename_i versioned
      split at run
      · rename_i noNames
        obtain ⟨selected, selects, run⟩ := bind_eq_ok.mp run
        cases run
        obtain ⟨types, candidate, lost, typed, chosen, done⟩ :=
          @selectWithoutOverwrites_run V _ _ _ metadata entropy.snapshotId entropy.writerUuid mixes
            _ _ _ _ unpartitioned_tracks versioned _ _ selects
        have losing : displacedByOverwrite metadata rows = lost := by
          have flat : unpartitioned metadata = true := empty ▸ noNames
          rw [displacedByOverwrite, typed]
          simp only [versioned, flat, false_or, Bool.true_eq_false, if_false]
          rw [← candidateStep_lost, done.candidate.2]
        rw [chosen]
        exact ⟨lost, done.begins versioned some losing bounding _ store⟩
      · rename_i hasNames
        obtain ⟨selected, selects, run⟩ := bind_eq_ok.mp run
        cases run
        obtain ⟨types, candidate, lost, typed, chosen, done⟩ :=
          @selectWithoutOverwrites_run V _ _ _ metadata entropy.snapshotId entropy.writerUuid mixes
            _ _ _ _ (partitioned_tracks bounding) versioned _ _ selects
        have losing : displacedByOverwrite metadata rows = lost := by
          have deep : unpartitioned metadata = false := empty ▸ (Bool.not_eq_true _).mp hasNames
          rw [displacedByOverwrite, typed]
          simp only [deep, or_true, if_true]
          rw [done.candidate]
        rw [chosen]
        exact ⟨lost, done.begins versioned some losing bounding _ store⟩

/-- The filter of the manifest selected for the new files of an overwrite. -/
def selectedFilter (writer : ManifestListWriter V)
    (filesToOverwrite : HashMap String (List String)) : Option (List String) :=
  writer.selectedDataManifest.bind fun row => filesToOverwrite.lookup row.manifestPath

/-- Writing the new files of an overwrite; tombstones of files of the selected manifest are left. -/
theorem overwriteNewFiles_assembles {after : ManifestListWriter V} {snapshotId : Int}
    {before stats : FilteredManifestStats V}
    (run : overwriteNewFiles metadata store writer before files snapshotId filesToOverwrite =
      .ok (stored, after, stats)) (ready : writer.Ready metadata mixes)
    (unselected : files.isEmpty → writer.selectedDataManifest = none)
    (left : Multiset (ManifestContent × ManifestEntry V))
    (gathered : left.map (·.2) = Multiset.ofList before.filteredEntries) (ledger : Ledger V) :
    ∃ more, (writer.selectedDataManifest = none → more = []) ∧
      Assembles metadata snapshotId writer.commitUuid mixes
        (writer.assembly store 0 (left + tagged .data (addedEntries metadata none files)) ledger)
        (after.assembly stored 0 (tagged .data more + left)
          (ledgerAfter ledger writer.selectedDataManifest
            (selectedFilter writer filesToOverwrite))) ∧
      (tagged .data more + left).map (·.2) = Multiset.ofList stats.filteredEntries ∧
      after.commitUuid = writer.commitUuid ∧ after.Ready metadata mixes := by
  simp only [overwriteNewFiles] at run
  split at run
  · rename_i none
    cases run
    refine ⟨[], fun _ => rfl, ?_, by simpa using gathered, rfl, ready⟩
    rw [unselected none, List.isEmpty_iff.mp none]
    simpa [addedEntries, ledgerAfter] using Assembles.refl _
  · have gathers (selected : Option (FilteredManifestStats V)) :
        (tagged .data (leftOvers selected) + left).map (·.2) =
          Multiset.ofList (selected.elim before before.append).filteredEntries := by
      rw [Multiset.map_add, gathered]
      cases selected with
      | none => simp [leftOvers]
      | some selected =>
        simp [leftOvers, FilteredManifestStats.append, tagged,
          ← Multiset.coe_add, add_comm]
    rw [add_comm left]
    split at run
    · obtain ⟨⟨next, listed, selected⟩, appends, run⟩ := bind_eq_ok.mp run
      cases run
      obtain ⟨kept, assembles⟩ := appendFiltered_fills appends ready
      refine ⟨_, appendFiltered_unselected appends, assembles left ledger, ?_,
        kept.uuid, ready.continues kept⟩
      cases selected <;> exact gathers _
    · obtain ⟨⟨next, listed, selected⟩, appends, run⟩ := bind_eq_ok.mp run
      cases run
      obtain ⟨kept, assembles⟩ := appendMultipleFiltered_fills appends ready
      refine ⟨_, appendMultipleFiltered_unselected appends, assembles left ledger,
        ?_, kept.uuid, ready.continues kept⟩
      cases selected <;> exact gathers _

/-- The tombstones of the current spec are written to data manifests. -/
theorem writeTombstones_assembles {after : ManifestListWriter V} {filtered : List (ManifestEntry V)}
    {snapshotId : Int}
    (run : writeTombstones metadata store writer filtered snapshotId = .ok (stored, after))
    (ready : writer.Ready metadata mixes) (left : Multiset (ManifestContent × ManifestEntry V))
    (gathered : left.map (·.2) = Multiset.ofList filtered)
    (allowed : ∀ x ∈ left, x.1 = .data ∨ mixes)
    (dead : metadata.formatVersion = .v3 → ∀ x ∈ left, x.2.live = false) (ledger : Ledger V) :
    Assembles metadata snapshotId writer.commitUuid mixes (writer.assembly store 0 left ledger)
        (after.assembly stored 0 0 ledger) ∧ after.commitUuid = writer.commitUuid := by
  simp only [writeTombstones] at run
  split at run
  · rename_i none
    cases run
    rw [List.isEmpty_iff.mp none] at gathered
    rw [Multiset.map_eq_zero.mp gathered]
    exact ⟨.refl _, rfl⟩
  · simp only [bind_eq_ok] at run
    obtain ⟨spec, -, schema, -, types, -, promoted, promotes, run⟩ := run
    have changes : List.Forall₂ (fun (before after : ManifestEntry V) => ∃ partition,
        after = { before with dataFile := { before.dataFile with partition } }) filtered promoted := by
      refine (mapM_eq_ok.mp promotes).imp fun before after promote => ?_
      obtain ⟨file, promotion, same⟩ := map_eq_ok.mp promote
      rw [← same, ManifestWriter.promotePartitionToTypes_file promotion]
      exact ⟨file.partition, rfl⟩
    have gather : Assembles metadata snapshotId writer.commitUuid mixes _ _ :=
      assembles_gather (writer.assembly store 0 0 ledger) .data gathered allowed dead
    have promote : Assembles metadata snapshotId writer.commitUuid mixes _ _ :=
      assembles_promote (writer.assembly store 0 0 ledger) .data changes
    have start : Assembles metadata snapshotId writer.commitUuid mixes
        (writer.assembly store 0 left ledger)
        (writer.assembly store 0 (tagged .data promoted + 0) ledger) := by
      simpa only [assembly, add_zero] using gather.trans promote
    split at run
    · obtain ⟨named, -, assembles⟩ := append_advances run ready
      exact ⟨start.trans (assembles 0 ledger), named⟩
    · obtain ⟨named, -, assembles⟩ := appendMultiple_advances run ready
      exact ⟨start.trans (assembles 0 ledger), named⟩

/-- What an overwrite must not mix: new files go to a manifest of content `Data`, and so do the
tombstones of the current spec. -/
structure Unmixed (metadata : TableMetadata) (store : Store V)
    (filesToOverwrite : HashMap String (List String)) (begun : ManifestListWriter V)
    (aside : List (ManifestListEntry V)) (mixes : Prop) : Prop where
  selected : ∀ row ∈ begun.selectedDataManifest, row.content = .data ∨ mixes
  tombstones : ∀ row ∈ aside, ∀ entry, ManifestListWriter.Leaves metadata store
    (ManifestListWriter.removal filesToOverwrite row) entry → row.content = .data ∨ mixes

/-- The ledger of an overwrite. -/
def overwriteLedger (metadata : TableMetadata) (store : Store V)
    (filesToOverwrite : HashMap String (List String)) (begun : ManifestListWriter V)
    (aside lost : List (ManifestListEntry V)) : Ledger V :=
  ManifestListWriter.ledgerAfter
    ((Ledger.empty.lose lost).remove
      (aside.map (ManifestListWriter.removal filesToOverwrite))
      (ManifestListWriter.Vanishing metadata store))
    begun.selectedDataManifest (selectedFilter begun filesToOverwrite)

/-- The manifests an overwrite may write are at new locations. -/
def FreshFor (metadata : TableMetadata) (uuid : String) (rows : List (ManifestListEntry V)) : Prop :=
  ∀ row ∈ rows, ∀ i, row.manifestPath ≠ newManifestLocation metadata.location uuid i

section Begun

variable {begun : ManifestListWriter V} {rows aside lost : List (ManifestListEntry V)}

/-- The manifests set aside are rows of the old list. -/
theorem BeginsOverwrite.mem_rows
    (starts : BeginsOverwrite metadata store entropy mixes rows dataFiles filesToOverwrite.keys begun
      aside lost) : ∀ row ∈ aside, row ∈ rows := by
  intro row member
  have named : row ∈ namedRows filesToOverwrite.keys (Multiset.ofList rows) := by
    rw [starts.setAside]
    exact Multiset.mem_add.mpr (.inl (Multiset.mem_coe.mpr member))
  exact Multiset.mem_coe.mp (Multiset.mem_of_mem_filter named)

theorem BeginsOverwrite.ready
    (starts : BeginsOverwrite metadata store entropy mixes rows dataFiles filesToOverwrite.keys begun
      aside lost) (clean : Unmixed metadata store filesToOverwrite begun aside mixes) :
    begun.Ready metadata mixes := by
  constructor <;> rintro (_ | _) row chosen
  · exact (clean.selected row chosen).imp Eq.symm id
  · exact absurd chosen (by simp [selected, starts.deletes])
  · exact starts.versioned row chosen
  · exact absurd chosen (by simp [selected, starts.deletes])

end Begun

theorem executeOverwrite_assembled
    (run : executeOverwrite metadata store entropy branch dataFiles filesToOverwrite additional =
      .ok (stored, requirement, updates))
    (fresh : ∀ old rows, metadata.currentSnapshot branch = .ok old →
      headRows metadata store old = .ok rows → FreshFor metadata entropy.writerUuid rows)
    (unmixed : ∀ old rows begun aside lost, metadata.currentSnapshot branch = .ok old →
      headRows metadata store old = .ok rows →
      BeginsOverwrite metadata store entropy mixes rows dataFiles filesToOverwrite.keys begun aside
        lost →
      Unmixed metadata store filesToOverwrite begun aside mixes) :
    (dataFiles = [] ∧ filesToOverwrite.keys = [] ∧ stored = store ∧ requirement = none ∧
        updates = []) ∨
      ∃ old snapshot rows final begun aside lost, metadata.currentSnapshot branch = .ok (some old) ∧
        (requirement, updates) = snapshotCommit branch (some old) snapshot ∧
        snapshot.sequenceNumber = ManifestWriter.nextSequenceNumber metadata ∧
        BeginsOverwrite metadata store entropy mixes rows dataFiles filesToOverwrite.keys begun
          aside lost ∧
        WritesList metadata store stored entropy mixes (some old)
          (tagged .data (addedEntries metadata none dataFiles)) snapshot rows final ∧
        final.ledger = overwriteLedger metadata store filesToOverwrite begun aside lost := by
  simp only [executeOverwrite, bind_eq_ok] at run
  obtain ⟨old, read, run⟩ := run
  cases old with
  | none => simp at run
  | some old =>
    simp only at run
    split at run
    · rename_i none
      cases run
      exact .inl ⟨List.length_eq_zero_iff.mp none.1, List.isEmpty_iff.mp none.2, rfl, rfl, rfl⟩
    · simp only [bind_eq_ok] at run
      obtain ⟨file, fetched, hydrated, hydrates, rows, listed, run⟩ := run
      split at run
      · cases run
      · simp only [bind_eq_ok] at run
        obtain ⟨⟨begun, aside⟩, begins, ⟨s1, w1, f1⟩, filters, ⟨s2, w2, f2⟩, writes, ⟨s3, w3⟩,
          tombs, ⟨s4, list, next⟩, finishes, schema, -, ⟨first, added⟩, lineage, run⟩ := run
        injection run with sent
        simp only [Prod.mk.injEq] at sent
        obtain ⟨rfl, rfl, rfl⟩ := sent
        have head : headRows metadata store (some old) = .ok rows := by
          simp [headRows, fetched, hydrates, listed]
        obtain ⟨lost, starts⟩ : ∃ lost, BeginsOverwrite metadata store entropy mixes rows dataFiles
            filesToOverwrite.keys begun aside lost := beginOverwrite_begins begins listed store
        have clean := unmixed (some old) rows begun aside lost read head starts
        have start := starts.assembles (tagged .data (addedEntries metadata none dataFiles))
        obtain ⟨left, leftBy, one, resumes⟩ :=
          @ManifestListWriter.appendAndFilter_assembles V _ metadata entropy.snapshotId mixes
            _ _ _ _ _ _ _ filters
          (fun row member i => by
            rw [starts.uuid]
            exact fresh (some old) rows read head row (starts.mem_rows row member) i) 0
          (tagged .data (addedEntries metadata none dataFiles)) (Ledger.empty.lose lost)
        have chosen : w1.selectedDataManifest = begun.selectedDataManifest := resumes.selected .data
        obtain ⟨more, nothing, two, gathered, namedData, readyData⟩ := overwriteNewFiles_assembles
          writes ((starts.ready clean).resumes resumes) (fun none => chosen.trans (starts.unselected none)) left
          leftBy.entries ((Ledger.empty.lose lost).remove
            (aside.map (removal filesToOverwrite))
            (ManifestListWriter.Vanishing metadata store))
        have allowed : ∀ x ∈ tagged .data more + left, x.1 = .data ∨ mixes := by
          intro x member
          rcases Multiset.mem_add.mp member with new | old
          · obtain ⟨entry, -, rfl⟩ := List.mem_map.mp (Multiset.mem_coe.mp new)
            exact .inl rfl
          · obtain ⟨row, inside, content, leaves⟩ := leftBy.source x old
            rw [content]
            exact clean.tombstones row inside x.2 leaves
        have dead : metadata.formatVersion = .v3 → ∀ x ∈ tagged .data more + left,
            x.2.live = false := by
          intro v3 x member
          have unselected : w1.selectedDataManifest = none := by
            rw [chosen, Option.eq_none_iff_forall_not_mem]
            exact fun row selected => starts.versioned row selected v3
          rw [nothing unselected, tagged_nil, zero_add] at member
          obtain ⟨row, -, -, leaves⟩ := leftBy.source x member
          exact leaves.1
        rw [selectedFilter, chosen, ← selectedFilter] at two
        obtain ⟨three, namedTombs⟩ := writeTombstones_assembles tombs readyData _ gathered allowed dead
          (overwriteLedger metadata store filesToOverwrite begun aside lost)
        obtain ⟨output, four, rfl, rfl, rfl⟩ := finish_assembles finishes
          (overwriteLedger metadata store filesToOverwrite begun aside lost)
        rw [namedTombs, namedData, resumes.uuid, starts.uuid] at *
        rw [add_zero] at one
        exact .inr ⟨old, _, rows, _, begun, aside, lost, read, rfl, rfl, starts,
          ⟨head, (((start.trans one).trans two).trans three).trans four, rfl, rfl, rfl, rfl, rfl,
            rfl, lineage⟩, rfl⟩

end IcebergRust

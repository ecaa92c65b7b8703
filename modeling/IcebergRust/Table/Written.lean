import IcebergRust.Lib.Fallible
import IcebergRust.Table.Manifest

/-!
# What a manifest writer writes

Spec lemmas of the manifest writers: which records end up in the file, in terms of the
entries that were handed in.

* `storedAs` is the record of an entry; only its partition tuple depends on the codec.
* `fill_spec`, `fromExisting_spec` and `fromExistingWithFilter_spec` say what `append`
  in a loop, `fromExisting` and `fromExistingWithFilter` leave in the file and the row.
-/

namespace IcebergRust

open Fallible

variable {V : Type}

/-- The record of an entry whose partition tuple encodes as `partition`. -/
def storedAs (entry : ManifestEntry V) (partition : Struct V) : ManifestEntry V :=
  ManifestEntry.toVersion { entry with dataFile := { entry.dataFile with partition } }

/-- The record is one of the entry. -/
def RecordOf (entry stored : ManifestEntry V) : Prop := ∃ partition, stored = storedAs entry partition

open ManifestEntry

@[simp] theorem storedAs_status (entry : ManifestEntry V) (partition : Struct V) :
    (storedAs entry partition).status = entry.status := by
  cases h : entry.formatVersion <;> simp [storedAs, toVersion, h]

theorem storedAs_dataFile (entry : ManifestEntry V) (partition : Struct V) :
    (storedAs entry partition).dataFile =
      DataFile.toVersion { entry.dataFile with partition } entry.formatVersion := by
  cases h : entry.formatVersion <;> simp [storedAs, toVersion, h]

@[simp] theorem storedAs_live (entry : ManifestEntry V) (partition : Struct V) :
    (storedAs entry partition).live = entry.live := by
  simp [live]

variable [PartitionValue V]

namespace ManifestWriter

variable {writer after begun : ManifestWriter V} {entry : ManifestEntry V}
  {context : FilterContext V}

theorem write_spec (run : writer.write entry = .ok after) :
    entry.formatVersion = writer.avro.formatVersion ∧ ∃ stored, RecordOf entry stored ∧
      after = { writer with file :=
        { writer.file with entries := writer.file.entries ++ [stored] } } := by
  simp only [write, guard_eq_ok, bind_eq_ok, not_not] at run
  obtain ⟨version, partition, -, run⟩ := run
  injection run with same
  exact ⟨version, _, ⟨partition, rfl⟩, same.symm⟩

variable {metadata : TableMetadata} {entries : List (ManifestEntry V)}

theorem append_spec (run : append metadata writer entry = .ok after) :
    entry.formatVersion = writer.avro.formatVersion ∧ ∃ stored summaries, RecordOf entry stored ∧
      after = ⟨{ countEntry writer.manifest entry with partitions := some summaries }, writer.avro,
        { writer.file with entries := writer.file.entries ++ [stored] }⟩ := by
  simp only [append, bind_eq_ok] at run
  obtain ⟨spec, -, summaries, -, written, writes, run⟩ := run
  injection run with same
  obtain ⟨version, stored, record, rfl⟩ := write_spec writes
  exact ⟨version, stored, summaries, record, same.symm⟩

/-- The counts of a row after entries. -/
def countEntries (manifest : ManifestListEntry V) (entries : List (ManifestEntry V)) :
    ManifestListEntry V :=
  entries.foldl countEntry manifest

omit [PartitionValue V] in
theorem countEntries_partitions (manifest : ManifestListEntry V)
    (partitions : Option (List (FieldSummary V))) (entries : List (ManifestEntry V)) :
    countEntries { manifest with partitions } entries =
      { countEntries manifest entries with partitions } := by
  induction entries generalizing manifest with
  | nil => rfl
  | cons entry entries ih => exact ih (countEntry manifest entry)

/-- Appending entries in a loop. -/
theorem fill_spec {filled : ManifestWriter V}
    (run : entries.foldlM (append metadata) begun = .ok filled) :
    (∀ entry ∈ entries, entry.formatVersion = begun.avro.formatVersion) ∧
      ∃ stored partitions, List.Forall₂ RecordOf entries stored ∧
        filled = ⟨{ countEntries begun.manifest entries with partitions }, begun.avro,
          { begun.file with entries := begun.file.entries ++ stored }⟩ := by
  induction entries generalizing begun with
  | nil =>
    cases foldlM_nil_eq_ok.mp run
    exact ⟨by simp, [], filled.manifest.partitions, .nil, by simp [countEntries]⟩
  | cons entry entries ih =>
    obtain ⟨middle, first, rest⟩ := foldlM_cons_eq_ok.mp run
    obtain ⟨version, one, summaries, record, rfl⟩ := append_spec first
    obtain ⟨versions, stored, partitions, records, rfl⟩ := ih rest
    refine ⟨List.forall_mem_cons.mpr ⟨version, versions⟩, one :: stored, partitions,
      .cons record records, ?_⟩
    rw [countEntries_partitions]
    simp [countEntries]

omit [PartitionValue V] in
theorem new_spec {location : String} {snapshotId : Int} {avro : EntrySchema}
    {content : ManifestContent} (run : new location snapshotId avro metadata content = .ok begun) :
    begun.avro = avro ∧ begun.file.entries = [] ∧
      begun.manifest = {
        formatVersion := metadata.formatVersion
        manifestPath := location
        partitionSpecId := metadata.defaultSpecId
        content := content
        sequenceNumber := nextSequenceNumber metadata
        minSequenceNumber := nextSequenceNumber metadata
        addedSnapshotId := snapshotId
        addedFilesCount := some 0
        existingFilesCount := some 0
        deletedFilesCount := some 0
        addedRowsCount := some 0
        existingRowsCount := some 0
        deletedRowsCount := some 0
        partitions := none
        keyMetadata := none
        firstRowId := none } := by
  simp only [new, bind_eq_ok] at run
  obtain ⟨file, header, run⟩ := run
  injection run with same
  simp only [currentHeader, bind_eq_ok] at header
  obtain ⟨schema, -, header⟩ := header
  split at header
  · cases header
  · injection header with head
    subst same head
    exact ⟨rfl, rfl, rfl⟩

/-- What `fromExisting` writes for a live entry. -/
def keptEntry (source : ManifestListEntry V) (metadata : TableMetadata) (entry : ManifestEntry V) :
    ManifestEntry V :=
  { resolveInherited source entry with
    formatVersion := metadata.formatVersion, status := .existing }

theorem fromExistingStep_fold {source : ManifestListEntry V} {state after : Rewrite V}
    (run : entries.foldlM (fromExistingStep source metadata) state = .ok after) :
    ∃ stored, List.Forall₂ RecordOf ((entries.filter (·.live)).map (keptEntry source metadata)) stored ∧
      after.writer.avro = state.writer.avro ∧ after.writer.manifest = state.writer.manifest ∧
      after.writer.file.entries = state.writer.file.entries ++ stored ∧
      after.deletedFiles = state.deletedFiles ∧ after.deletedRows = state.deletedRows := by
  induction entries generalizing state with
  | nil =>
    cases foldlM_nil_eq_ok.mp run
    exact ⟨[], .nil, rfl, rfl, by simp, rfl, rfl⟩
  | cons entry entries ih =>
    obtain ⟨middle, first, rest⟩ := foldlM_cons_eq_ok.mp run
    obtain ⟨stored, records, avro, row, contents, files, rows⟩ := ih rest
    simp only [fromExistingStep] at first
    split at first
    · rename_i gone
      cases first
      refine ⟨stored, ?_, avro, row, contents, files, rows⟩
      rwa [List.filter_cons_of_neg (by simp [live, gone])]
    · rename_i lives
      obtain ⟨writer, writes, first⟩ := bind_eq_ok.mp first
      obtain ⟨-, one, record, rfl⟩ := write_spec writes
      cases first
      refine ⟨one :: stored, ?_, avro, row, ?_, files, rows⟩
      · rw [List.filter_cons_of_pos (by simp [live, lives]), List.map_cons]
        exact .cons record records
      · rw [contents]
        simp

/-- The manifest `fromExisting` begins: the live entries of the source, as `Existing`. -/
theorem fromExisting_spec {manifest : ManifestListEntry V} {snapshotId : Int} {avro : EntrySchema}
    (run : fromExisting entries manifest snapshotId avro metadata = .ok begun) :
    ∃ stored state,
      List.Forall₂ RecordOf ((entries.filter (·.live)).map (keptEntry manifest metadata)) stored ∧
      begun.avro = avro ∧ begun.file.entries = stored ∧ state.deletedFiles = 0 ∧
      begun.manifest = rewrittenRow manifest snapshotId metadata state := by
  simp only [fromExisting, bind_eq_ok] at run
  obtain ⟨file, header, state, folded, run⟩ := run
  injection run with same
  obtain ⟨stored, records, avro, row, contents, files, -⟩ := fromExistingStep_fold folded
  have empty : file.entries = [] := by
    simp only [currentHeader, bind_eq_ok] at header
    obtain ⟨schema, -, header⟩ := header
    split at header
    · cases header
    · injection header with head
      rw [← head]
  subst same
  refine ⟨stored, state, records, avro, ?_, files, rfl⟩
  show state.writer.file.entries = stored
  rw [contents]
  simp [Rewrite.start, empty]

/-! ### Filtering -/

/-- The files of live entries with the row ids `inheritFirstRowId` gives them in order. -/
def inheritFiles (content : ManifestContent) :
    Option Int → List (ManifestEntry V) → Except Error (List (DataFile V))
  | _, [] => .ok []
  | next, entry :: entries => do
    let (later, file) ← inheritFirstRowId content next entry.dataFile
    let files ← inheritFiles content later entries
    .ok (file :: files)

/-- A live entry with everything it inherits, written out. -/
def resolvedEntry (context : FilterContext V) (entry : ManifestEntry V) (file : DataFile V) :
    ManifestEntry V :=
  { resolveInherited context.manifest { entry with dataFile := file } with
    formatVersion := context.formatVersion }

/-- The tombstone of a removed file. -/
def tombstoneOf (context : FilterContext V) (resolved : ManifestEntry V) : ManifestEntry V :=
  { resolved with status := .deleted, snapshotId := some context.snapshotId }

/-- The filter names the file of an entry. -/
def isNamed (filter : List String) (entry : ManifestEntry V) : Bool :=
  entry.dataFile.filePath ∈ filter

/-- What the filtering loop writes for a live entry: the file as `Existing`, or its tombstone where
that must use the spec of the manifest. -/
def rewritten (context : FilterContext V) (resolved : ManifestEntry V) : List (ManifestEntry V) :=
  if isNamed context.filter resolved then
    if context.oldSpec then [tombstoneOf context resolved] else []
  else [{ resolved with status := .existing }]

/-- The tombstones the filtering loop leaves to its caller. -/
def leftOver (context : FilterContext V) (resolved : ManifestEntry V) : List (ManifestEntry V) :=
  if isNamed context.filter resolved && !context.oldSpec then [tombstoneOf context resolved] else []

omit [PartitionValue V] in
theorem inheritFirstRowId_file {content : ManifestContent} {next later : Option Int}
    {file after : DataFile V} (run : inheritFirstRowId content next file = .ok (later, after)) :
    after = { file with firstRowId := after.firstRowId } := by
  simp only [inheritFirstRowId] at run
  split at run
  · cases run
    rfl
  · split at run
    · cases run
      rfl
    · split at run
      · cases run
      · obtain ⟨n, -, run⟩ := bind_eq_ok.mp run
        cases run
        rfl

theorem promotePartitionToTypes_file {file after : DataFile V} {spec : PartitionSpec}
    {types : List IcebergType} (run : file.promotePartitionToTypes spec types = .ok after) :
    after = { file with partition := after.partition } := by
  simp only [DataFile.promotePartitionToTypes, guard_eq_ok, bind_eq_ok] at run
  obtain ⟨-, partition, -, run⟩ := run
  injection run with same
  rw [← same]

theorem writeRecorded_spec (run : writeRecorded context writer entry = .ok after) :
    ∃ stored summaries, RecordOf entry stored ∧
      after = ⟨{ writer.manifest with partitions := some summaries }, writer.avro,
        { writer.file with entries := writer.file.entries ++ [stored] }⟩ := by
  simp only [writeRecorded, bind_eq_ok] at run
  obtain ⟨dataFile, promotes, summaries, -, writes⟩ := run
  obtain ⟨-, stored, ⟨partition, rfl⟩, rfl⟩ := write_spec writes
  have same := promotePartitionToTypes_file promotes
  refine ⟨_, summaries, ⟨partition, ?_⟩, rfl⟩
  rw [same]
  rfl

/-- The counters of the filtering loop: the number of entries counted, as an `i32`. -/
def Counts (count : Int) (n : Nat) : Prop := count = wrapI32 n

theorem Counts.bump {count : Int} {n : Nat} (counts : Counts count n) :
    Counts (wrapI32 (count + 1)) (n + 1) := by
  rw [Counts, counts, wrapI32, wrapI32, Int.bmod_add_bmod]
  push_cast
  rfl

/-- The state of the filtering loop after live entries, in terms of the resolved entries. -/
structure Filtered (context : FilterContext V) (resolved : List (ManifestEntry V))
    (before after : Rewrite V) : Prop where
  avro : after.writer.avro = before.writer.avro
  row : ∃ partitions, after.writer.manifest = { before.writer.manifest with partitions }
  file : ∃ stored, List.Forall₂ RecordOf (resolved.flatMap (rewritten context)) stored ∧
    after.writer.file = { before.writer.file with entries := before.writer.file.entries ++ stored }
  stats : after.stats.filteredEntries =
    before.stats.filteredEntries ++ resolved.flatMap (leftOver context)
  existing : ∀ n, Counts before.existingFiles n →
    Counts after.existingFiles (n + (resolved.filter fun r => !isNamed context.filter r).length)
  deleted : ∀ n, Counts before.deletedFiles n → Counts after.deletedFiles
    (n + (resolved.filter fun r => isNamed context.filter r && context.oldSpec).length)

omit [PartitionValue V] in
theorem Filtered.refl (context : FilterContext V) (state : Rewrite V) :
    Filtered context [] state state where
  avro := rfl
  row := ⟨state.writer.manifest.partitions, rfl⟩
  file := ⟨[], .nil, by simp⟩
  stats := by simp
  existing := fun n counts => counts
  deleted := fun n counts => counts

omit [PartitionValue V] in
theorem Filtered.trans {first second : List (ManifestEntry V)} {a b c : Rewrite V}
    (one : Filtered context first a b) (two : Filtered context second b c) :
    Filtered context (first ++ second) a c where
  avro := two.avro.trans one.avro
  row := by
    obtain ⟨p, here⟩ := one.row
    obtain ⟨q, there⟩ := two.row
    exact ⟨q, by rw [there, here]⟩
  file := by
    obtain ⟨s, here, left⟩ := one.file
    obtain ⟨t, there, right⟩ := two.file
    refine ⟨s ++ t, ?_, by rw [right, left, List.append_assoc]⟩
    rw [List.flatMap_append]
    exact List.rel_append here there
  stats := by rw [two.stats, one.stats, List.flatMap_append, List.append_assoc]
  existing := by
    intro n counts
    have := two.existing _ (one.existing n counts)
    rwa [Nat.add_assoc, ← List.length_append, ← List.filter_append] at this
  deleted := by
    intro n counts
    have := two.deleted _ (one.deleted n counts)
    rwa [Nat.add_assoc, ← List.length_append, ← List.filter_append] at this

/-- One turn of the filtering loop: a tombstone is dropped, a live entry is resolved. -/
theorem fromExistingWithFilterStep_filtered {state after : Rewrite V}
    (run : fromExistingWithFilterStep context state entry = .ok after) :
    (entry.live = false ∧ after = state) ∨
      (entry.live = true ∧ ∃ file,
        inheritFirstRowId context.manifest.content state.nextInheritedRowId entry.dataFile =
          .ok (after.nextInheritedRowId, file) ∧
        Filtered context [resolvedEntry context entry file] state after) := by
  simp only [fromExistingWithFilterStep] at run
  split at run
  · rename_i gone
    cases run
    exact .inl ⟨by simp [live, gone], rfl⟩
  · rename_i lives
    refine .inr ⟨by simp [live, lives], ?_⟩
    obtain ⟨⟨later, file⟩, inherits, run⟩ := bind_eq_ok.mp run
    dsimp only at run
    split at run
    · rename_i named
      have hit : isNamed context.filter (resolvedEntry context entry file) = true :=
        decide_eq_true named
      split at run
      · rename_i old
        obtain ⟨writer, records, run⟩ := bind_eq_ok.mp run
        cases run
        obtain ⟨stored, summaries, record, rfl⟩ := writeRecorded_spec records
        refine ⟨file, inherits, rfl, ⟨_, rfl⟩, ⟨[stored], ?_, rfl⟩, ?_, ?_, ?_⟩
        · rw [List.flatMap_singleton, rewritten, if_pos hit, if_pos old]
          exact .cons record .nil
        · simp [leftOver, old, FilteredManifestStats.remove]
        · intro n counts
          simpa [hit] using counts
        · intro n counts
          simpa [hit, old] using counts.bump
      · rename_i current
        cases run
        refine ⟨file, inherits, rfl, ⟨_, rfl⟩, ⟨[], ?_, by simp⟩, ?_, ?_, ?_⟩
        · rw [List.flatMap_singleton, rewritten, if_pos hit, if_neg current]
          exact .nil
        · rw [List.flatMap_singleton, leftOver, hit, (Bool.not_eq_true _).mp current]
          rfl
        · intro n counts
          simpa [hit] using counts
        · intro n counts
          simpa [hit, current] using counts
    · rename_i unnamed
      have miss : isNamed context.filter (resolvedEntry context entry file) = false :=
        decide_eq_false unnamed
      obtain ⟨writer, records, run⟩ := bind_eq_ok.mp run
      cases run
      obtain ⟨stored, summaries, record, rfl⟩ := writeRecorded_spec records
      refine ⟨file, inherits, rfl, ⟨_, rfl⟩, ⟨[stored], ?_, rfl⟩, ?_, ?_, ?_⟩
      · rw [List.flatMap_singleton, rewritten, miss]
        exact .cons record .nil
      · simp [leftOver, miss]
      · intro n counts
        simpa [miss] using counts.bump
      · intro n counts
        simpa [miss] using counts

theorem fromExistingWithFilterStep_fold {state after : Rewrite V}
    (run : entries.foldlM (fromExistingWithFilterStep context) state = .ok after) :
    ∃ files, inheritFiles context.manifest.content state.nextInheritedRowId
        (entries.filter (·.live)) = .ok files ∧
      Filtered context (List.zipWith (resolvedEntry context) (entries.filter (·.live)) files)
        state after := by
  induction entries generalizing state with
  | nil =>
    cases foldlM_nil_eq_ok.mp run
    exact ⟨[], rfl, .refl context after⟩
  | cons entry entries ih =>
    obtain ⟨middle, first, rest⟩ := foldlM_cons_eq_ok.mp run
    obtain ⟨files, inherits, filtered⟩ := ih rest
    rcases fromExistingWithFilterStep_filtered first with ⟨gone, rfl⟩ | ⟨lives, file, one, step⟩
    · rw [List.filter_cons_of_neg (by simp [gone])]
      exact ⟨files, inherits, filtered⟩
    · rw [List.filter_cons_of_pos lives]
      refine ⟨file :: files, ?_, step.trans filtered⟩
      simp [inheritFiles, one, inherits]

/-- What filtering a manifest leaves: `resolved` are the live entries of the source with everything
they inherit. -/
structure FilterResult (context : FilterContext V) (metadata : TableMetadata)
    (entries resolved : List (ManifestEntry V)) (begun : ManifestWriter V)
    (stats : FilteredManifestStats V) : Prop where
  inherits : ∃ files, inheritFiles context.manifest.content context.manifest.firstRowId
      (entries.filter (·.live)) = .ok files ∧
    resolved = List.zipWith (resolvedEntry context) (entries.filter (·.live)) files
  records : List.Forall₂ RecordOf (resolved.flatMap (rewritten context)) begun.file.entries
  row : ∃ partitions state, begun.manifest =
      rewrittenRow { context.manifest with partitions } context.snapshotId metadata state ∧
    Counts state.existingFiles (resolved.filter fun r => !isNamed context.filter r).length ∧
    Counts state.deletedFiles
      (resolved.filter fun r => isNamed context.filter r && context.oldSpec).length
  leftOver : stats.filteredEntries = resolved.flatMap (leftOver context)

/-- The context a manifest is filtered in. -/
structure FilterContext.Of (context : FilterContext V) (manifest : ManifestListEntry V)
    (filter : List String) (snapshotId : Int) (metadata : TableMetadata) : Prop where
  row : context.manifest = manifest
  paths : context.filter = filter
  commit : context.snapshotId = snapshotId
  version : context.formatVersion = metadata.formatVersion
  spec : context.oldSpec = decide (manifest.partitionSpecId ≠ metadata.defaultSpecId)

theorem fromExistingWithFilter_spec {manifest : ManifestListEntry V} {filter : List String}
    {snapshotId : Int} {avro : EntrySchema} {source : Option (Schema × PartitionSpec)}
    {stats : FilteredManifestStats V}
    (run : fromExistingWithFilter entries manifest filter snapshotId avro metadata source =
      .ok (begun, stats)) :
    ∃ context resolved, context.Of manifest filter snapshotId metadata ∧ begun.avro = avro ∧
      FilterResult context metadata entries resolved begun stats := by
  simp only [fromExistingWithFilter, guard_eq_ok, bind_eq_ok] at run
  obtain ⟨-, ⟨schema, spec⟩, -, ⟨specs, types, -, state, folded, run⟩⟩ := run
  injection run with same
  obtain ⟨rfl, rfl⟩ := Prod.mk.inj same
  obtain ⟨files, inherits, filtered⟩ := fromExistingWithFilterStep_fold folded
  obtain ⟨partitions, row⟩ := filtered.row
  obtain ⟨stored, records, contents⟩ := filtered.file
  have specId : spec.specId = manifest.partitionSpecId := by
    by_contra differ
    exact specs (.inl differ)
  refine ⟨_, _, ⟨rfl, rfl, rfl, rfl, rfl⟩, filtered.avro, ⟨files, inherits, rfl⟩, ?_, ?_, ?_⟩
  · rw [contents]
    exact records
  · refine ⟨partitions, state, ?_, ?_, ?_⟩
    · dsimp only
      rw [row]
      simp [Rewrite.start, specId]
    · simpa using filtered.existing 0 rfl
    · simpa using filtered.deleted 0 rfl
  · rw [filtered.stats]
    rfl

end ManifestWriter

end IcebergRust

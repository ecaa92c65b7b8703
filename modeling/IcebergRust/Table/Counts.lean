import IcebergRust.Spec.LongValue
import IcebergRust.Table.ManifestList
import IcebergRust.Table.Written

/-!
# The counts of a manifest

What `append`, `from_existing` and `from_existing_with_filter` count, against what
`hydrate_v1_manifest_list_row_counts` counts in the file that was written.

* Files are counted by status everywhere, and so are the rows of a manifest that is rewritten.
* `append` counts the rows of an equality delete as deleted and none of a position delete, whatever
  the status; `counts_exact_iff` says when that comes to the same.
-/

namespace IcebergRust

open Fallible

variable {V : Type}

/-! ### Counting by status -/

/-- One where the status is the given one. -/
def oneOf (status : Status) (entry : ManifestEntry V) : Int := if entry.status = status then 1 else 0

/-- The rows of an entry where its status is the given one. -/
def rowsOf (status : Status) (entry : ManifestEntry V) : Int :=
  if entry.status = status then entry.dataFile.recordCount else 0

/-- The rows `append` counts for an entry. -/
def appendedRows (status : Status) (entry : ManifestEntry V) : Int :=
  match status with
  | .added => (ManifestWriter.rowCounts entry).1
  | .existing => (ManifestWriter.rowCounts entry).2.1
  | .deleted => (ManifestWriter.rowCounts entry).2.2

/-- The sum of a quantity over entries. -/
def total (quantity : ManifestEntry V → Int) (entries : List (ManifestEntry V)) : Int :=
  (entries.map quantity).sum

section Total

variable {quantity other : ManifestEntry V → Int}

@[simp] theorem total_nil : total quantity [] = 0 := rfl

@[simp] theorem total_cons (entry : ManifestEntry V) (entries : List (ManifestEntry V)) :
    total quantity (entry :: entries) = quantity entry + total quantity entries := by
  rw [total, List.map_cons, List.sum_cons, total]

@[simp] theorem total_append (first second : List (ManifestEntry V)) :
    total quantity (first ++ second) = total quantity first + total quantity second := by
  rw [total, List.map_append, List.sum_append, total, total]

theorem total_congr {first second : List (ManifestEntry V)}
    (same : List.Forall₂ (fun one two => quantity one = quantity two) first second) :
    total quantity first = total quantity second := by
  induction same with
  | nil => rfl
  | cons here _ ih => rw [total_cons, total_cons, here, ih]

variable {entries : List (ManifestEntry V)}

theorem total_eq_zero (zero : ∀ entry ∈ entries, quantity entry = 0) :
    total quantity entries = 0 := by
  induction entries with
  | nil => rfl
  | cons entry entries ih =>
    obtain ⟨here, rest⟩ := List.forall_mem_cons.mp zero
    rw [total_cons, here, ih rest, Int.add_zero]

theorem total_le (atMost : ∀ entry ∈ entries, quantity entry ≤ other entry) :
    total quantity entries ≤ total other entries := by
  induction entries with
  | nil => exact Int.le_refl _
  | cons entry entries ih =>
    obtain ⟨here, rest⟩ := List.forall_mem_cons.mp atMost
    rw [total_cons, total_cons]
    exact Int.add_le_add here (ih rest)

theorem total_nonneg (nonneg : ∀ entry ∈ entries, 0 ≤ quantity entry) :
    0 ≤ total quantity entries := by
  induction entries with
  | nil => exact Int.le_refl _
  | cons entry entries ih =>
    obtain ⟨here, rest⟩ := List.forall_mem_cons.mp nonneg
    rw [total_cons]
    exact Int.add_nonneg here (ih rest)

/-- Quantities none of which is above the other have the same sum where they are the same. -/
theorem total_eq_iff (atMost : ∀ entry ∈ entries, quantity entry ≤ other entry) :
    total quantity entries = total other entries ↔
      ∀ entry ∈ entries, quantity entry = other entry := by
  induction entries with
  | nil => simp
  | cons entry entries ih =>
    obtain ⟨here, rest⟩ := List.forall_mem_cons.mp atMost
    have below := total_le rest
    rw [total_cons, total_cons, List.forall_mem_cons, ← ih rest]
    omega

end Total

/-! ### The counts of a row -/

namespace ManifestListEntry

variable (row : ManifestListEntry V)

/-- The file counts of a row. -/
def files : Status → Option Int
  | .added => row.addedFilesCount
  | .existing => row.existingFilesCount
  | .deleted => row.deletedFilesCount

/-- The row counts of a row. -/
def rows : Status → Option Int
  | .added => row.addedRowsCount
  | .existing => row.existingRowsCount
  | .deleted => row.deletedRowsCount

/-- A row as the list of a version 1 table may have it. -/
def withoutCounts : ManifestListEntry V :=
  { row with
    addedFilesCount := none
    existingFilesCount := none
    deletedFilesCount := none
    addedRowsCount := none
    existingRowsCount := none
    deletedRowsCount := none }

end ManifestListEntry

/-- The counts of a row are these, as far as their types hold them. -/
structure Totals (row : ManifestListEntry V) (files rows : Status → Int) : Prop where
  files : ∀ status, row.files status = some (wrapI32 (files status))
  rows : ∀ status, row.rows status = some (wrapI64 (rows status))

theorem wrapI64_add_wrapI64 (a b : Int) : wrapI64 (wrapI64 a + b) = wrapI64 (a + b) :=
  Int.bmod_add_bmod

theorem wrapI32_add_wrapI32 (a b : Int) : wrapI32 (wrapI32 a + b) = wrapI32 (a + b) :=
  Int.bmod_add_bmod

open ManifestWriter

variable {row : ManifestListEntry V} {entries : List (ManifestEntry V)} {counts : StatusCounts}

/-- What `append` adds to the counts of a row. -/
theorem Totals.countEntry {files rows : Status → Int} (totals : Totals row files rows)
    (entry : ManifestEntry V) :
    Totals (countEntry row entry) (fun status => files status + oneOf status entry)
      (fun status => rows status + appendedRows status entry) where
  files status := by
    have before := totals.files status
    cases status <;>
    · simp only [ManifestListEntry.files] at before
      simp only [ManifestListEntry.files, ManifestWriter.countEntry, oneOf, before, bump]
      split
      · rw [wrapI32_add_wrapI32]
      · rw [Int.add_zero]
  rows status := by
    have before := totals.rows status
    cases status <;>
    · simp only [ManifestListEntry.rows] at before
      simp only [ManifestListEntry.rows, ManifestWriter.countEntry, appendedRows, before, addRows]
      rw [wrapI64_add_wrapI64]

theorem Totals.countEntries {files rows : Status → Int} (totals : Totals row files rows)
    (entries : List (ManifestEntry V)) :
    Totals (countEntries row entries) (fun status => files status + total (oneOf status) entries)
      (fun status => rows status + total (appendedRows status) entries) := by
  induction entries generalizing row files rows with
  | nil =>
    simp only [total_nil, Int.add_zero]
    exact totals
  | cons entry entries ih =>
    have rest := ih (totals.countEntry entry)
    simp only [Int.add_assoc] at rest
    simp only [total_cons]
    exact rest

/-! ### Records -/

/-- Two entries count the same. -/
def Alike (one two : ManifestEntry V) : Prop :=
  one.status = two.status ∧ one.dataFile.recordCount = two.dataFile.recordCount

theorem alike_counts {first second : List (ManifestEntry V)}
    (alike : List.Forall₂ Alike first second) (status : Status) :
    total (oneOf status) first = total (oneOf status) second ∧
      total (rowsOf status) first = total (rowsOf status) second := by
  constructor
  · exact total_congr (alike.imp fun one two same => by rw [oneOf, oneOf, same.1])
  · exact total_congr (alike.imp fun one two same => by rw [rowsOf, rowsOf, same.1, same.2])

theorem RecordOf.alike {entry stored : ManifestEntry V} (record : RecordOf entry stored) :
    Alike entry stored := by
  obtain ⟨partition, rfl⟩ := record
  refine ⟨(storedAs_status entry partition).symm, ?_⟩
  rw [storedAs_dataFile]
  cases entry.formatVersion <;> rfl

variable [PartitionValue V]

/-- Decoding keeps what is counted. -/
theorem read_alike {file : ManifestFile V} (run : file.read = .ok entries) :
    List.Forall₂ Alike file.entries entries := by
  refine (mapM_eq_ok.mp run).imp fun stored entry decodes => ?_
  obtain ⟨dataFile, decoded, same⟩ := bind_eq_ok.mp decodes
  simp only [DataFile.tryFromStored, bind_eq_ok] at decoded
  obtain ⟨partition, -, lower, -, upper, -, decoded⟩ := decoded
  cases decoded
  cases same
  exact ⟨rfl, rfl⟩

/-! ### What writers count -/

section Writers

/-- The counts of a writer are those of the entries it has written. -/
def CountsFile (writer : ManifestWriter V) : Prop :=
  Totals writer.manifest (fun status => total (oneOf status) writer.file.entries)
    fun status => total (rowsOf status) writer.file.entries

variable {metadata : TableMetadata} {writer : ManifestWriter V}

omit [PartitionValue V] in
theorem new_countsFile {location : String} {snapshotId : Int} {avro : EntrySchema}
    {content : ManifestContent} (run : new location snapshotId avro metadata content = .ok writer) :
    CountsFile writer := by
  obtain ⟨-, empty, row⟩ := new_spec run
  rw [CountsFile, empty, row]
  constructor
  · intro status
    cases status <;> rfl
  · intro status
    cases status <;> rfl

/-- The counters of the loops over an existing manifest are those of the entries written. -/
structure Tallied (state : Rewrite V) : Prop where
  existingFiles : state.existingFiles =
    wrapI32 (total (oneOf .existing) state.writer.file.entries)
  existingRows : state.existingRows =
    wrapI64 (total (rowsOf .existing) state.writer.file.entries)
  deletedFiles : state.deletedFiles = wrapI32 (total (oneOf .deleted) state.writer.file.entries)
  deletedRows : state.deletedRows = wrapI64 (total (rowsOf .deleted) state.writer.file.entries)
  added : ∀ stored ∈ state.writer.file.entries, stored.status ≠ .added

variable {state : Rewrite V}

omit [PartitionValue V] in
theorem Tallied.rewrittenRow (tallied : Tallied state) (manifest : ManifestListEntry V)
    (snapshotId : Int) :
    Totals (rewrittenRow manifest snapshotId metadata state)
      (fun status => total (oneOf status) state.writer.file.entries)
      fun status => total (rowsOf status) state.writer.file.entries := by
  constructor
  · intro status
    cases status with
    | added =>
      have unadded : total (oneOf .added) state.writer.file.entries = 0 :=
        total_eq_zero fun stored member => if_neg (tallied.added stored member)
      rw [unadded]
      rfl
    | existing => exact congrArg some tallied.existingFiles
    | deleted => exact congrArg some tallied.deletedFiles
  · intro status
    cases status with
    | added =>
      have unadded : total (rowsOf .added) state.writer.file.entries = 0 :=
        total_eq_zero fun stored member => if_neg (tallied.added stored member)
      rw [unadded]
      rfl
    | existing => exact congrArg some tallied.existingRows
    | deleted => exact congrArg some tallied.deletedRows

omit [PartitionValue V] in
theorem tallied_start (begun : ManifestWriter V) (empty : begun.file.entries = [])
    (next : Option Int) : Tallied (Rewrite.start begun next) where
  existingFiles := by rw [Rewrite.start, empty]; rfl
  existingRows := by rw [Rewrite.start, empty]; rfl
  deletedFiles := by rw [Rewrite.start, empty]; rfl
  deletedRows := by rw [Rewrite.start, empty]; rfl
  added stored member := by
    rw [Rewrite.start, empty] at member
    cases member

variable {after : Rewrite V}

section

omit [PartitionValue V]

/-- One more record is written as `Existing`. -/
theorem Tallied.keep {stored : ManifestEntry V} (tallied : Tallied state)
    (existing : stored.status = .existing)
    (entries : after.writer.file.entries = state.writer.file.entries ++ [stored])
    (files : after.existingFiles = wrapI32 (state.existingFiles + 1))
    (rows : after.existingRows = wrapI64 (state.existingRows + stored.dataFile.recordCount))
    (deletedFiles : after.deletedFiles = state.deletedFiles)
    (deletedRows : after.deletedRows = state.deletedRows) : Tallied after where
  existingFiles := by
    rw [files, tallied.existingFiles, entries, total_append, wrapI32_add_wrapI32]
    simp [oneOf, existing]
  existingRows := by
    rw [rows, tallied.existingRows, entries, total_append, wrapI64_add_wrapI64]
    simp [rowsOf, existing]
  deletedFiles := by
    rw [deletedFiles, tallied.deletedFiles, entries, total_append]
    simp [oneOf, existing]
  deletedRows := by
    rw [deletedRows, tallied.deletedRows, entries, total_append]
    simp [rowsOf, existing]
  added record member := by
    rw [entries] at member
    rcases List.mem_append.mp member with before | here
    · exact tallied.added record before
    · rw [List.mem_singleton.mp here, existing]
      decide

/-- One more record is written as a tombstone. -/
theorem Tallied.bury {stored : ManifestEntry V} (tallied : Tallied state)
    (deleted : stored.status = .deleted)
    (entries : after.writer.file.entries = state.writer.file.entries ++ [stored])
    (files : after.deletedFiles = wrapI32 (state.deletedFiles + 1))
    (rows : after.deletedRows = wrapI64 (state.deletedRows + stored.dataFile.recordCount))
    (existingFiles : after.existingFiles = state.existingFiles)
    (existingRows : after.existingRows = state.existingRows) : Tallied after where
  existingFiles := by
    rw [existingFiles, tallied.existingFiles, entries, total_append]
    simp [oneOf, deleted]
  existingRows := by
    rw [existingRows, tallied.existingRows, entries, total_append]
    simp [rowsOf, deleted]
  deletedFiles := by
    rw [files, tallied.deletedFiles, entries, total_append, wrapI32_add_wrapI32]
    simp [oneOf, deleted]
  deletedRows := by
    rw [rows, tallied.deletedRows, entries, total_append, wrapI64_add_wrapI64]
    simp [rowsOf, deleted]
  added record member := by
    rw [entries] at member
    rcases List.mem_append.mp member with before | here
    · exact tallied.added record before
    · rw [List.mem_singleton.mp here, deleted]
      decide

/-- What the counters do not read may change. -/
theorem Tallied.congr (tallied : Tallied state)
    (entries : after.writer.file.entries = state.writer.file.entries)
    (existingFiles : after.existingFiles = state.existingFiles)
    (existingRows : after.existingRows = state.existingRows)
    (deletedFiles : after.deletedFiles = state.deletedFiles)
    (deletedRows : after.deletedRows = state.deletedRows) : Tallied after where
  existingFiles := by rw [existingFiles, entries]; exact tallied.existingFiles
  existingRows := by rw [existingRows, entries]; exact tallied.existingRows
  deletedFiles := by rw [deletedFiles, entries]; exact tallied.deletedFiles
  deletedRows := by rw [deletedRows, entries]; exact tallied.deletedRows
  added := by rw [entries]; exact tallied.added

end

theorem Tallied.fromExistingStep {source : ManifestListEntry V} {entry : ManifestEntry V}
    (tallied : Tallied state) (run : fromExistingStep source metadata state entry = .ok after) :
    Tallied after := by
  simp only [ManifestWriter.fromExistingStep] at run
  split at run
  · cases run
    exact tallied
  · obtain ⟨written, writes, run⟩ := bind_eq_ok.mp run
    obtain ⟨-, stored, record, rfl⟩ := write_spec writes
    cases run
    obtain ⟨status, records⟩ := record.alike
    refine tallied.keep status.symm rfl rfl ?_ rfl rfl
    rw [← records]

theorem Tallied.fromExistingWithFilterStep {context : FilterContext V} {entry : ManifestEntry V}
    (tallied : Tallied state) (run : fromExistingWithFilterStep context state entry = .ok after) :
    Tallied after := by
  simp only [ManifestWriter.fromExistingWithFilterStep] at run
  split at run
  · cases run
    exact tallied
  · obtain ⟨⟨later, file⟩, inherits, run⟩ := bind_eq_ok.mp run
    dsimp only at run
    split at run
    · split at run
      · obtain ⟨written, writes, run⟩ := bind_eq_ok.mp run
        obtain ⟨stored, summaries, record, rfl⟩ := writeRecorded_spec writes
        cases run
        obtain ⟨status, records⟩ := record.alike
        refine tallied.bury status.symm rfl rfl ?_ rfl rfl
        rw [← records]
        rfl
      · cases run
        exact tallied.congr rfl rfl rfl rfl rfl
    · obtain ⟨written, writes, run⟩ := bind_eq_ok.mp run
      obtain ⟨stored, summaries, record, rfl⟩ := writeRecorded_spec writes
      cases run
      obtain ⟨status, records⟩ := record.alike
      refine tallied.keep status.symm rfl rfl ?_ rfl rfl
      rw [← records]
      rfl

theorem fromExisting_countsFile {entries : List (ManifestEntry V)} {manifest : ManifestListEntry V}
    {snapshotId : Int} {avro : EntrySchema}
    (run : fromExisting entries manifest snapshotId avro metadata = .ok writer) :
    CountsFile writer := by
  simp only [fromExisting, bind_eq_ok] at run
  obtain ⟨file, header, state, folded, run⟩ := run
  cases run
  have empty : file.entries = [] := by
    simp only [currentHeader, bind_eq_ok] at header
    obtain ⟨schema, -, header⟩ := header
    split at header
    · cases header
    · cases header
      rfl
  have tallied : Tallied state :=
    foldlM_invariant Tallied (fun entry _ before after tallied step => tallied.fromExistingStep step)
      folded (tallied_start _ empty _)
  exact tallied.rewrittenRow manifest snapshotId

theorem fromExistingWithFilter_countsFile {entries : List (ManifestEntry V)}
    {manifest : ManifestListEntry V} {filter : List String} {snapshotId : Int} {avro : EntrySchema}
    {source : Option (Schema × PartitionSpec)} {stats : FilteredManifestStats V}
    (run : fromExistingWithFilter entries manifest filter snapshotId avro metadata source =
      .ok (writer, stats)) : CountsFile writer := by
  simp only [fromExistingWithFilter, guard_eq_ok, bind_eq_ok] at run
  obtain ⟨-, ⟨schema, spec⟩, -, -, types, -, state, folded, run⟩ := run
  cases run
  have tallied : Tallied state :=
    foldlM_invariant Tallied
      (fun entry _ before after tallied step => tallied.fromExistingWithFilterStep step)
      folded (tallied_start _ rfl _)
  exact tallied.rewrittenRow _ snapshotId

/-- The ways a writer is begun. -/
inductive Begins (metadata : TableMetadata) : ManifestWriter V → Prop
  | new {location : String} {snapshotId : Int} {avro : EntrySchema} {content : ManifestContent}
      {writer : ManifestWriter V}
      (run : new location snapshotId avro metadata content = .ok writer) : Begins metadata writer
  | fromExisting {entries : List (ManifestEntry V)} {manifest : ManifestListEntry V}
      {snapshotId : Int} {avro : EntrySchema} {writer : ManifestWriter V}
      (run : fromExisting entries manifest snapshotId avro metadata = .ok writer) :
      Begins metadata writer
  | fromExistingWithFilter {entries : List (ManifestEntry V)} {manifest : ManifestListEntry V}
      {filter : List String} {snapshotId : Int} {avro : EntrySchema}
      {source : Option (Schema × PartitionSpec)} {writer : ManifestWriter V}
      {stats : FilteredManifestStats V}
      (run : fromExistingWithFilter entries manifest filter snapshotId avro metadata source =
        .ok (writer, stats)) : Begins metadata writer

theorem Begins.countsFile (begins : Begins metadata writer) : CountsFile writer := by
  cases begins with
  | new run => exact new_countsFile run
  | fromExisting run => exact fromExisting_countsFile run
  | fromExistingWithFilter run => exact fromExistingWithFilter_countsFile run

end Writers

/-! ### Counting the file again -/

namespace StatusCounts

def filesOf (counts : StatusCounts) : Status → Int
  | .added => counts.files.1
  | .existing => counts.files.2.1
  | .deleted => counts.files.2.2

def rowsOf (counts : StatusCounts) : Status → Int
  | .added => counts.rows.1
  | .existing => counts.rows.2.1
  | .deleted => counts.rows.2.2

end StatusCounts

/-- The counts fit their types. -/
structure Fits (counts : StatusCounts) : Prop where
  files : ∀ status, 0 ≤ counts.filesOf status ∧ counts.filesOf status ≤ 2147483647
  rows : ∀ status, 0 ≤ counts.rowsOf status ∧ counts.rowsOf status ≤ maxI64

section

omit [PartitionValue V]

/-- What is counted for one entry. -/
theorem countStatus_spec {after : StatusCounts} {entry : ManifestEntry V}
    (run : countStatus counts entry = .ok after) (fits : Fits counts) :
    0 ≤ entry.dataFile.recordCount ∧ Fits after ∧
      ∀ status, after.filesOf status = counts.filesOf status + oneOf status entry ∧
        after.rowsOf status = counts.rowsOf status + rowsOf status entry := by
  simp only [countStatus, guard_eq_ok] at run
  obtain ⟨positive, run⟩ := run
  have positive : 0 ≤ entry.dataFile.recordCount := Int.not_lt.mp positive
  refine ⟨positive, ?_⟩
  have oneMore : ∀ {count next : Int}, checkedCount count = .ok next →
      next = count + 1 ∧ next ≤ 2147483647 := by
    intro count next checked
    unfold checkedCount at checked
    split at checked
    · rename_i small
      cases checked
      exact ⟨rfl, small⟩
    · cases checked
  have moreRows : ∀ {count next : Int} {overflow : Error},
      checkedAddI64 count entry.dataFile.recordCount overflow = .ok next →
        next = count + entry.dataFile.recordCount ∧ next ≤ maxI64 := by
    intro count next overflow checked
    unfold checkedAddI64 at checked
    split at checked
    · rename_i small
      cases checked
      exact ⟨rfl, small.1⟩
    · cases checked
  cases here : entry.status <;>
  · rw [here] at run
    obtain ⟨files, one, run⟩ := bind_eq_ok.mp run
    obtain ⟨rows, more, run⟩ := bind_eq_ok.mp run
    cases run
    obtain ⟨rfl, smallFiles⟩ := oneMore one
    obtain ⟨rfl, smallRows⟩ := moreRows more
    refine ⟨⟨?_, ?_⟩, ?_⟩
    · intro status
      have := fits.files status
      cases status <;> simp only [StatusCounts.filesOf] at this ⊢ <;> omega
    · intro status
      have := fits.rows status
      cases status <;> simp only [StatusCounts.rowsOf] at this ⊢ <;> omega
    · intro status
      cases status <;> simp [StatusCounts.filesOf, StatusCounts.rowsOf, oneOf, IcebergRust.rowsOf, here]

theorem recount_spec (run : entries.foldlM countStatus ⟨(0, 0, 0), (0, 0, 0)⟩ = .ok counts) :
    (∀ entry ∈ entries, 0 ≤ entry.dataFile.recordCount) ∧ Fits counts ∧
      ∀ status, counts.filesOf status = total (oneOf status) entries ∧
        counts.rowsOf status = total (rowsOf status) entries := by
  refine foldlM_prefix_invariant (fun done counts =>
    (∀ entry ∈ done, 0 ≤ entry.dataFile.recordCount) ∧ Fits counts ∧
      ∀ status, counts.filesOf status = total (oneOf status) done ∧
        counts.rowsOf status = total (rowsOf status) done) ?_ run ?_
  · rintro done entry before after - ⟨positives, fits, same⟩ step
    obtain ⟨positive, fits', next⟩ := countStatus_spec step fits
    refine ⟨?_, fits', ?_⟩
    · intro other member
      rcases List.mem_append.mp member with earlier | here
      · exact positives other earlier
      · rwa [List.mem_singleton.mp here]
    · intro status
      obtain ⟨files, rows⟩ := next status
      rw [files, rows, (same status).1, (same status).2, total_append, total_append]
      simp
  · refine ⟨fun entry member => absurd member List.not_mem_nil, ⟨?_, ?_⟩, ?_⟩
    all_goals
      intro status
      cases status <;> simp [StatusCounts.filesOf, StatusCounts.rowsOf, maxI64]

/-- Counts put into a row without counts give the row where they are its own. -/
theorem withCounts_eq_iff :
    { row.withoutCounts with
      addedFilesCount := some counts.files.1
      existingFilesCount := some counts.files.2.1
      deletedFilesCount := some counts.files.2.2
      addedRowsCount := some counts.rows.1
      existingRowsCount := some counts.rows.2.1
      deletedRowsCount := some counts.rows.2.2 } = row ↔
      ∀ status, row.files status = some (counts.filesOf status) ∧
        row.rows status = some (counts.rowsOf status) := by
  constructor
  · intro same status
    rw [← same]
    cases status <;> exact ⟨rfl, rfl⟩
  · intro same
    obtain ⟨addedFiles, addedRows⟩ := same .added
    obtain ⟨existingFiles, existingRows⟩ := same .existing
    obtain ⟨deletedFiles, deletedRows⟩ := same .deleted
    cases row
    simp only [ManifestListEntry.files, ManifestListEntry.rows, StatusCounts.filesOf,
      StatusCounts.rowsOf] at *
    simp [ManifestListEntry.withoutCounts, *]

end

/-! ### Where the counts are exact -/

/-- An entry that `append` counts the rows of by its status. -/
def CountedByStatus (entry : ManifestEntry V) : Prop :=
  entry.dataFile.content = .data ∨ entry.dataFile.recordCount = 0 ∨
    (entry.dataFile.content = .equalityDeletes ∧ entry.status = .deleted)

section Rows

omit [PartitionValue V]

variable {entry : ManifestEntry V}

theorem countedByStatus_iff :
    CountedByStatus entry ↔ ∀ status, appendedRows status entry = rowsOf status entry := by
  unfold CountedByStatus
  constructor
  · intro counted status
    cases content : entry.dataFile.content <;> cases here : entry.status <;> cases status <;>
      simp_all [appendedRows, rowCounts, rowsOf]
  · intro same
    have added := same .added
    have existing := same .existing
    have deleted := same .deleted
    cases content : entry.dataFile.content <;> cases here : entry.status <;>
      simp_all [appendedRows, rowCounts, rowsOf]

/-- Live files are never counted more rows than they have. -/
theorem appendedRows_le (positive : 0 ≤ entry.dataFile.recordCount) {status : Status}
    (live : status ≠ .deleted) :
    0 ≤ appendedRows status entry ∧ appendedRows status entry ≤ rowsOf status entry := by
  cases content : entry.dataFile.content <;> cases here : entry.status <;> cases status <;>
    simp_all [appendedRows, rowCounts, rowsOf]

theorem appendedRows_deleted_le (positive : 0 ≤ entry.dataFile.recordCount)
    (added : appendedRows .added entry = rowsOf .added entry)
    (existing : appendedRows .existing entry = rowsOf .existing entry) :
    0 ≤ appendedRows .deleted entry ∧
      appendedRows .deleted entry ≤ rowsOf .deleted entry := by
  cases content : entry.dataFile.content <;> cases here : entry.status <;>
    simp_all [appendedRows, rowCounts, rowsOf]

/-- A sum of rows that comes to a sum of larger ones counts the same for each entry. -/
theorem rows_eq {entries : List (ManifestEntry V)} {status : Status} {base : Int}
    (nonneg : 0 ≤ base) (small : base + total (rowsOf status) entries ≤ maxI64)
    (bounds : ∀ entry ∈ entries, 0 ≤ appendedRows status entry ∧
      appendedRows status entry ≤ rowsOf status entry)
    (same : wrapI64 (base + total (appendedRows status) entries) =
      base + total (rowsOf status) entries) :
    ∀ entry ∈ entries, appendedRows status entry = rowsOf status entry := by
  have below := total_le fun entry member => (bounds entry member).2
  have above := total_nonneg fun entry member => (bounds entry member).1
  have unwrapped : wrapI64 (base + total (appendedRows status) entries) =
      base + total (appendedRows status) entries := by
    unfold maxI64 at small
    apply Int.bmod_eq_of_le <;> omega
  rw [unwrapped] at same
  exact (total_eq_iff fun entry member => (bounds entry member).2).mp (by omega)

end Rows

/-- What a writer has counted for appended entries, against what is counted again in its file. -/
theorem recounted_iff {metadata : TableMetadata} {begun filled : ManifestWriter V}
    {read : List (ManifestEntry V)} (counted : CountsFile begun)
    (appends : entries.foldlM (append metadata) begun = .ok filled)
    (reads : filled.file.read = .ok read)
    (recount : read.foldlM countStatus ⟨(0, 0, 0), (0, 0, 0)⟩ = .ok counts) :
    (∀ status, filled.manifest.files status = some (counts.filesOf status) ∧
      filled.manifest.rows status = some (counts.rowsOf status)) ↔
      ∀ entry ∈ entries, CountedByStatus entry := by
  obtain ⟨-, stored, partitions, records, rfl⟩ := fill_spec appends
  obtain ⟨positives, fits, same⟩ := recount_spec recount
  have alike := read_alike reads
  have totals := counted.countEntries entries
  -- What is counted again is what was there, and one entry after the other.
  have again : ∀ status,
      counts.filesOf status =
        total (oneOf status) begun.file.entries + total (oneOf status) entries ∧
      counts.rowsOf status =
        total (rowsOf status) begun.file.entries + total (rowsOf status) entries := by
    intro status
    obtain ⟨files, rows⟩ := same status
    obtain ⟨readFiles, readRows⟩ := alike_counts alike status
    have appended := alike_counts (records.imp fun _ _ record => record.alike) status
    rw [files, rows, ← readFiles, ← readRows, total_append, total_append, ← appended.1,
      ← appended.2]
    exact ⟨rfl, rfl⟩
  have positive : ∀ record ∈ begun.file.entries ++ stored, 0 ≤ record.dataFile.recordCount := by
    intro record member
    obtain ⟨other, there, here⟩ := exists_of_mem_forall₂ alike.flip member
    rw [show record.dataFile.recordCount = other.dataFile.recordCount from here.2]
    exact positives other there
  have base : ∀ status, 0 ≤ total (rowsOf status) begun.file.entries := by
    intro status
    refine total_nonneg fun record member => ?_
    have := positive record (List.mem_append_left _ member)
    unfold rowsOf
    split <;> omega
  have own : ∀ entry ∈ entries, 0 ≤ entry.dataFile.recordCount := by
    intro entry member
    obtain ⟨record, there, here⟩ := exists_of_mem_forall₂ records.flip member
    rw [(show RecordOf entry record from here).alike.2]
    exact positive record (List.mem_append_right _ there)
  have filesRight : ∀ status,
      (countEntries begun.manifest entries).files status = some (counts.filesOf status) := by
    intro status
    have range := fits.files status
    rw [totals.files status, ← (again status).1]
    congr 1
    apply Int.bmod_eq_of_le <;> omega
  have rowsRight : ∀ status, (countEntries begun.manifest entries).rows status =
        some (counts.rowsOf status) ↔
      wrapI64 (total (rowsOf status) begun.file.entries + total (appendedRows status) entries) =
        total (rowsOf status) begun.file.entries + total (rowsOf status) entries := by
    intro status
    rw [totals.rows status, ← (again status).2, Option.some_inj]
  have small : ∀ status, total (rowsOf status) begun.file.entries + total (rowsOf status) entries ≤
      maxI64 := fun status => (again status).2 ▸ (fits.rows status).2
  constructor
  · intro right entry member
    have rows : ∀ status, wrapI64 (total (rowsOf status) begun.file.entries +
        total (appendedRows status) entries) = _ :=
      fun status => (rowsRight status).mp (right status).2
    have added := rows_eq (base .added) (small .added)
      (fun entry member => appendedRows_le (own entry member) (by decide)) (rows .added)
    have existing := rows_eq (base .existing) (small .existing)
      (fun entry member => appendedRows_le (own entry member) (by decide)) (rows .existing)
    have deleted := rows_eq (base .deleted) (small .deleted)
      (fun entry member => appendedRows_deleted_le (own entry member) (added entry member)
        (existing entry member)) (rows .deleted)
    refine countedByStatus_iff.mpr fun status => ?_
    cases status with
    | added => exact added entry member
    | existing => exact existing entry member
    | deleted => exact deleted entry member
  · intro byStatus status
    refine ⟨filesRight status, (rowsRight status).mpr ?_⟩
    have equal : total (appendedRows status) entries = total (rowsOf status) entries :=
      congrArg List.sum (List.map_congr_left fun entry member =>
        countedByStatus_iff.mp (byStatus entry member) status)
    have range := fits.rows status
    rw [(again status).2] at range
    rw [equal]
    unfold maxI64 at range
    apply Int.bmod_eq_of_le <;> omega

/-- The counts a writer finishes with are those counted again in its file if and only if every
appended entry is counted by its status. -/
theorem counts_exact_iff {metadata : TableMetadata} {begun filled : ManifestWriter V}
    {entries : List (ManifestEntry V)} (begins : Begins metadata begun)
    (appends : entries.foldlM (append metadata) begun = .ok filled) (store : Store V)
    {recounted : ManifestListEntry V}
    (recount : hydrateRow (filled.finish store).1 (filled.finish store).2.withoutCounts =
      .ok recounted) :
    recounted = (filled.finish store).2 ↔ ∀ entry ∈ entries, CountedByStatus entry := by
  simp only [hydrateRow, ManifestListEntry.hasCounts, ManifestListEntry.withoutCounts,
    Option.isSome_none, Bool.and_false, Bool.false_eq_true, if_false, bind_eq_ok] at recount
  obtain ⟨file, found, read, reads, counts, counted, made⟩ := recount
  have same : file = filled.file := by
    simp only [Store.getManifest, finish, Store.putManifest_manifest_self] at found
    cases found
    rfl
  subst same
  cases made
  exact withCounts_eq_iff.trans (recounted_iff begins.countsFile appends reads counted)

/-! ### Appended delete files -/

/-- A file of five rows is added to a new manifest. -/
def countedEntry (content : Content) : ManifestEntry LongValue where
  formatVersion := .v2
  status := .added
  snapshotId := none
  sequenceNumber := none
  dataFile := { longFile "file" 5 with content }

/-- The manifest of one added file. -/
def addedManifest (content : Content) : Except Error (ManifestWriter LongValue) := do
  let begun ← new "manifest" 1 ⟨.v2, []⟩ (longTable .v2) .data
  [countedEntry content].foldlM (append (longTable .v2)) begun

/-- The row of a manifest, and the row with its counts counted again. -/
def recountedRow (filled : ManifestWriter LongValue) :
    Except Error (ManifestListEntry LongValue) :=
  hydrateRow (filled.finish .empty).1 (filled.finish .empty).2.withoutCounts

theorem counts_exact_data : ∃ filled recounted, addedManifest .data = .ok filled ∧
    recountedRow filled = .ok recounted ∧ recounted = filled.manifest := by
  have runs : ∃ begun filled recounted,
      new "manifest" 1 ⟨.v2, []⟩ (longTable .v2) .data = .ok begun ∧
      [countedEntry .data].foldlM (append (longTable .v2)) begun = .ok filled ∧
      recountedRow filled = .ok recounted := ⟨_, _, _, rfl, rfl, rfl⟩
  obtain ⟨begun, filled, recounted, new, appends, recount⟩ := runs
  refine ⟨filled, recounted, ?_, recount, ?_⟩
  · rw [addedManifest, new]
    exact appends
  · refine (counts_exact_iff (.new new) appends .empty recount).mpr fun entry member => ?_
    rw [List.mem_singleton.mp member]
    exact .inl rfl

/-- The rows of an added position delete are not counted, those of an added equality delete are
counted as deleted. -/
theorem counts_not_exact :
    ((addedManifest .positionDeletes).bind fun filled => (recountedRow filled).map fun recounted =>
      (filled.manifest.addedRowsCount, recounted.addedRowsCount)).toOption =
        some (some 0, some 5) ∧
    ((addedManifest .equalityDeletes).bind fun filled => (recountedRow filled).map fun recounted =>
      (filled.manifest.addedRowsCount, filled.manifest.deletedRowsCount,
        recounted.addedRowsCount, recounted.deletedRowsCount)).toOption =
        some (some 0, some 5, some 5, some 0) := by
  constructor
  · rfl
  · rfl

end IcebergRust

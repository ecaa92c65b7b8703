import IcebergRust.Table.Scan
import IcebergRust.Transaction.Origins

/-!
# What a scan selects

A scan decides twice by sequence numbers: on the rows of a list, and on the entries of the
manifests it reads.

* `manifestEntries_origins`: the live entries a scan reads from a manifest are its files, each
  with the sequence number it has under its row.
* `scanEntries_origins`: a scan from one snapshot to another selects the files of the latter whose
  rows are new enough and whose numbers are in range.
* `scanEntries_of_all`: where the latter can be scanned, so can any range that ends at it.
-/

namespace IcebergRust

open Fallible

variable {V : Type} [PartitionValue V] {metadata : TableMetadata} {store : Store V}

/-! ### One manifest -/

omit [PartitionValue V] in
theorem apply_spec {mode next : FirstRowIdInheritance} {entry resolved : ManifestEntry V}
    (run : mode.apply entry = .ok (next, resolved)) : ∃ firstRowId,
      resolved = { entry with dataFile := { entry.dataFile with firstRowId } } := by
  cases mode with
  | clear =>
    cases run
    exact ⟨none, rfl⟩
  | preserve =>
    cases run
    exact ⟨entry.dataFile.firstRowId, rfl⟩
  | assign nextRowId =>
    obtain ⟨-, run⟩ := guard_eq_ok.mp run
    split at run
    · cases run
      exact ⟨entry.dataFile.firstRowId, rfl⟩
    · obtain ⟨-, run⟩ := guard_eq_ok.mp run
      obtain ⟨after, -, run⟩ := bind_eq_ok.mp run
      cases run
      exact ⟨some nextRowId, rfl⟩

omit [PartitionValue V] in
/-- Inheriting row ids leaves the files and their sequence numbers alone. -/
theorem applyAll_sameOrigin {mode : FirstRowIdInheritance} {entries resolved : List (ManifestEntry V)}
    (run : mode.applyAll entries = .ok resolved) (version : FormatVersion) (inherited : Int) :
    List.Forall₂ (SameOrigin version inherited inherited) resolved entries := by
  induction entries generalizing mode resolved with
  | nil =>
    cases run
    exact .nil
  | cons entry entries ih =>
    simp only [FirstRowIdInheritance.applyAll, bind_eq_ok] at run
    obtain ⟨⟨next, first⟩, here, rest, others, run⟩ := run
    cases run
    obtain ⟨firstRowId, rfl⟩ := apply_spec here
    exact .cons ⟨⟨rfl, DataFile.identity_firstRowId _ _ _⟩, fun _ => rfl⟩ (ih others)

variable {row : ManifestListEntry V} {range : Option Int × Option Int}
  {rows : List (ManifestListEntry V)} {start : Option Int}

/-- The files a scan reads from a manifest. -/
theorem manifestEntries_origins {entries : List (ManifestEntry V)}
    (run : manifestEntries store row = .ok entries) (version : FormatVersion) :
    originsOf version 0 entries = originsAt version store row := by
  simp only [manifestEntries, bind_eq_ok] at run
  obtain ⟨file, fetched, mode, -, existing, read, resolved, inherits, run⟩ := run
  cases run
  have named : List.Forall₂ (SameOrigin version 0 row.sequenceNumber)
      (resolved.map (inheritFromRow row)) resolved := by
    rw [List.forall₂_map_left_iff, List.forall₂_same]
    exact fun entry _ => ⟨⟨rfl, rfl⟩, fun _ => rfl⟩
  rw [originsOf_congr named, originsOf_congr (applyAll_sameOrigin inherits version _),
    ← originsAt_read fetched read]

omit [PartitionValue V] in
/-- The files of entries whose numbers are in a range. -/
theorem originsOf_inRange (version : FormatVersion) (range : Option Int × Option Int)
    (entries : List (ManifestEntry V)) :
    originsOf version 0
        (entries.filter fun entry => inSequenceRange range (entry.sequenceNumber.getD 0)) =
      (originsOf version 0 entries).filter fun x => inSequenceRange range x.2 := by
  rw [originsOf, originsOf, Multiset.filter_coe, List.filter_map, List.filter_filter,
    List.filter_filter]
  congr 2
  refine List.filter_congr fun entry _ => ?_
  exact (Bool.and_comm _ _).trans (by simp [ManifestEntry.sequenceIn])

variable {selected : List (String × ManifestEntry V)} {snapshot : Snapshot}

/-- The files a scan selects from a manifest. -/
theorem rangeEntries_origins (run : rangeEntries store range row = .ok selected)
    (version : FormatVersion) :
    originsOf version 0 (selected.map (·.2)) =
      (originsAt version store row).filter fun x => inSequenceRange range x.2 := by
  simp only [rangeEntries, bind_eq_ok] at run
  obtain ⟨entries, reads, run⟩ := run
  cases run
  rw [← manifestEntries_origins reads, ← originsOf_inRange, List.map_map]
  exact congrArg _ (List.map_id _)

/-! ### Lists -/

theorem datafiles_origins (run : datafiles store rows none range = .ok selected)
    (version : FormatVersion) :
    originsOf version 0 (selected.map (·.2)) =
      (rowOrigins version store (Multiset.ofList rows)).filter
        fun x => inSequenceRange range x.2 := by
  simp only [datafiles, Option.any_none, Bool.false_eq_true, if_false, map_eq_ok, keptManifests,
    mapM_eq_ok] at run
  obtain ⟨parts, reads, rfl⟩ := run
  induction reads with
  | nil => rfl
  | cons here _ ih =>
    rw [List.flatten_cons, List.map_append, originsOf_append, ih, rangeEntries_origins here,
      ← Multiset.cons_coe, rowOrigins_cons, Multiset.filter_add]

/-- The rows read from a list are those stored, but for the summaries of their partitions. -/
theorem readSnapshot_rows (run : readSnapshot snapshot metadata store = .ok rows) :
    List.Forall₂ (fun row read => ∃ partitions, read = { row with partitions })
      (store.rowsOf metadata.formatVersion snapshot) rows := by
  simp only [readSnapshot, bind_eq_ok] at run
  obtain ⟨file, fetched, schema, -, run⟩ := run
  unfold Store.getManifestList at fetched
  split at fetched
  · rename_i found
    cases fetched
    rw [Store.rowsOf_eq found, List.forall₂_map_left_iff]
    exact decodeAll_rows run
  · cases fetched

/-- The rows a scan reads from a list. -/
theorem readSnapshot_rowsOf (run : readSnapshot snapshot metadata store = .ok rows) :
    List.Forall₂ SameSequence (store.rowsOf metadata.formatVersion snapshot) rows := by
  refine (readSnapshot_rows run).imp fun row read same => ?_
  obtain ⟨partitions, rfl⟩ := same
  exact ⟨rfl, rfl, rfl, rfl⟩

/-- The sequence number a row must be above to be read by a scan from a snapshot. -/
def startNumber (metadata : TableMetadata) (start : Option Int) : Option Int :=
  ((start.bind metadata.snapshots.lookup).map (·.sequenceNumber)).filter (· ≠ 0)

/-- The row of a manifest a scan reads. -/
def newRow (metadata : TableMetadata) (start : Option Int) (row : ManifestListEntry V) : Bool :=
  (startNumber metadata start).all (· < row.sequenceNumber)

/-- The rows a scan reads are those of the last snapshot that are new enough. -/
theorem manifests_eq {id : Int} (found : metadata.snapshots.lookup id = some snapshot) :
    manifests metadata store start (some id) =
      (readSnapshot snapshot metadata store).map fun rows => rows.filter (newRow metadata start) := by
  simp only [manifests, Option.bind_some, found, ok_bind]
  cases readSnapshot snapshot metadata store with
  | error error => rfl
  | ok rows =>
    rw [ok_bind, Except.map]
    split
    · rename_i number same
      have new : newRow metadata start = fun row : ManifestListEntry V =>
          decide (number < row.sequenceNumber) := by
        funext row
        rw [newRow, startNumber, same]
        rfl
      rw [new]
    · rename_i same
      have every : rows.filter (newRow metadata start) = rows := by
        refine List.filter_eq_self.mpr fun row _ => ?_
        rw [newRow, startNumber, same]
        rfl
      rw [every]

omit [PartitionValue V] in
theorem newRow_congr {a b : ManifestListEntry V} (same : SameSequence a b) :
    newRow metadata start a = newRow metadata start b := by
  rw [newRow, newRow, same.sequence]

omit [PartitionValue V] in
theorem filter_newRow {first second : List (ManifestListEntry V)}
    (same : List.Forall₂ SameSequence first second) :
    List.Forall₂ SameSequence (first.filter (newRow metadata start))
      (second.filter (newRow metadata start)) := by
  induction same with
  | nil => exact .nil
  | @cons a b _ _ here _ ih =>
    by_cases new : newRow metadata start a = true
    · rw [List.filter_cons_of_pos new, List.filter_cons_of_pos (newRow_congr here ▸ new)]
      exact .cons here ih
    · rw [List.filter_cons_of_neg new, List.filter_cons_of_neg (newRow_congr here ▸ new)]
      exact ih

/-- The files a scan from one snapshot to another selects. -/
theorem scanEntries_origins {id : Int} (found : metadata.snapshots.lookup id = some snapshot)
    (run : scanEntries metadata store start (some id) = .ok selected) :
    originsOf metadata.formatVersion 0 (selected.map (·.2)) =
      (rowOrigins metadata.formatVersion store (Multiset.ofList
        ((store.rowsOf metadata.formatVersion snapshot).filter (newRow metadata start)))).filter
        fun x => inSequenceRange
          (start.bind metadata.sequenceNumber, some snapshot.sequenceNumber) x.2 := by
  simp only [scanEntries, manifests_eq found, bind_eq_ok, map_eq_ok] at run
  obtain ⟨-, ⟨rows, reads, rfl⟩, run⟩ := run
  rw [datafiles_origins run, rowOrigins_forall₂ (filter_newRow (readSnapshot_rowsOf reads)),
    Option.bind_some, TableMetadata.sequenceNumber, found]
  rfl

theorem rangeEntries_of_some {other : Option Int × Option Int}
    {entries : List (String × ManifestEntry V)} (run : rangeEntries store range row = .ok entries) :
    ∃ selected, rangeEntries store other row = .ok selected := by
  simp only [rangeEntries, bind_eq_ok] at run
  obtain ⟨entries, reads, -⟩ := run
  exact ⟨_, by simp only [rangeEntries, reads, ok_bind]; rfl⟩

/-- Whatever can be scanned from the beginning can be scanned from a snapshot. -/
theorem scanEntries_of_all {id : Int} {all : List (String × ManifestEntry V)}
    (found : metadata.snapshots.lookup id = some snapshot)
    (run : scanEntries metadata store none (some id) = .ok all) :
    ∃ selected, scanEntries metadata store start (some id) = .ok selected := by
  simp only [scanEntries, manifests_eq found, bind_eq_ok, map_eq_ok, datafiles, Option.any_none,
    Bool.false_eq_true, if_false, keptManifests] at run ⊢
  obtain ⟨-, ⟨rows, reads, rfl⟩, parts, scans, -⟩ := run
  have every : rows.filter (newRow metadata none) = rows := List.filter_eq_self.mpr fun _ _ => rfl
  rw [every] at scans
  have one : ∀ row ∈ rows.filter (newRow metadata start), ∃ selected, rangeEntries store
      (start.bind metadata.sequenceNumber, (some id).bind metadata.sequenceNumber) row =
        .ok selected := by
    intro row member
    obtain ⟨entries, -, here⟩ := exists_of_mem_forall₂ (mapM_eq_ok.mp scans).flip
      (List.mem_of_mem_filter member)
    exact rangeEntries_of_some here
  obtain ⟨others, again⟩ := mapM_total one
  exact ⟨_, _, ⟨rows, reads, rfl⟩, others, again, rfl⟩

end IcebergRust

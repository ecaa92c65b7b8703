import IcebergRust.Table.Objects
import IcebergRust.Table.ManifestList

/-!
# Sequence numbers of a list under construction

The sequence number of an entry is its own or that of its manifest's row, and the row
carries a lower and an upper bound of those of its live entries.

* `BeginsAt` says so of a manifest being written, for the three ways it is begun and for
  every entry appended to it.
* `SequencesFit` says so of a row and the manifest in the store, and `Sequencing` of all
  rows of an assembly; `AssemblyStep.sequencing` is the step lemma, for versions 2 and 3.
-/

namespace IcebergRust

open Fallible ManifestWriter

variable {V : Type}

/-- The sequence number of an entry, its own or the one it inherits. -/
def ManifestEntry.sequenceIn (entry : ManifestEntry V) (inherited : Int) : Int :=
  entry.sequenceNumber.getD inherited

/-- A live entry has no sequence number of its own above a bound. -/
def BoundedBy (bound : Int) (entry : ManifestEntry V) : Prop :=
  entry.live = true → ∀ sequence, entry.sequenceNumber = some sequence → sequence ≤ bound

variable {entry : ManifestEntry V} {row : ManifestListEntry V}

theorem BoundedBy.sequenceIn {bound : Int} (bounded : BoundedBy bound entry)
    (live : entry.live = true) : entry.sequenceIn bound ≤ bound := by
  unfold ManifestEntry.sequenceIn
  cases own : entry.sequenceNumber with
  | none => exact le_refl bound
  | some sequence => exact bounded live sequence own

theorem storedAs_sequenceNumber (partition : Struct V) (versioned : entry.formatVersion ≠ .v1) :
    (storedAs entry partition).sequenceNumber = entry.sequenceNumber := by
  cases version : entry.formatVersion with
  | v1 => exact absurd version versioned
  | v2 | v3 => simp [storedAs, ManifestEntry.toVersion, version]

theorem RecordOf.sequenceNumber {stored : ManifestEntry V} (record : RecordOf entry stored)
    (versioned : entry.formatVersion ≠ .v1) :
    stored.live = entry.live ∧ stored.sequenceNumber = entry.sequenceNumber := by
  obtain ⟨partition, rfl⟩ := record
  exact ⟨storedAs_live entry partition, storedAs_sequenceNumber partition versioned⟩

/-- Decoding keeps whether an entry is live and its sequence number. -/
theorem read_sequenceNumber [PartitionValue V] {file : ManifestFile V}
    {entries : List (ManifestEntry V)} (run : file.read = .ok entries) (member : entry ∈ entries) :
    ∃ stored ∈ file.entries, entry.live = stored.live ∧
      entry.sequenceNumber = stored.sequenceNumber := by
  obtain ⟨stored, within, decodes⟩ := exists_of_mem_mapM run member
  obtain ⟨dataFile, -, same⟩ := bind_eq_ok.mp decodes
  injection same with same
  exact ⟨stored, within, by rw [← same]; rfl, by rw [← same]⟩

/-! ### Writing a manifest -/

section Writing

variable [PartitionValue V] {metadata : TableMetadata} {snapshotId : Int} {location : String}
  {avro : EntrySchema}

/-- A manifest begun for a commit: its row has the number of the commit, and a lower bound of the
numbers of its live entries. -/
structure BeginsAt (metadata : TableMetadata) (snapshotId : Int) (location : String)
    (writer : ManifestWriter V) : Prop where
  path : writer.manifest.manifestPath = location
  sequence : writer.manifest.sequenceNumber = nextSequenceNumber metadata
  snapshot : writer.manifest.addedSnapshotId = snapshotId
  version : writer.avro.formatVersion = metadata.formatVersion
  least : writer.manifest.minSequenceNumber ≤ nextSequenceNumber metadata
  entries : ∀ entry ∈ writer.file.entries, entry.live = true →
    writer.manifest.minSequenceNumber ≤ entry.sequenceIn (nextSequenceNumber metadata) ∧
      entry.sequenceIn (nextSequenceNumber metadata) ≤ nextSequenceNumber metadata

omit [PartitionValue V] in
/-- Counting an entry lowers the least sequence number at most to the entry's own. -/
theorem countEntry_least (row : ManifestListEntry V) (entry : ManifestEntry V) :
    (countEntry row entry).minSequenceNumber ≤ row.minSequenceNumber ∧
      ∀ sequence, entry.sequenceNumber = some sequence →
        (countEntry row entry).minSequenceNumber ≤ sequence := by
  simp only [countEntry]
  cases own : entry.sequenceNumber with
  | none => exact ⟨le_refl _, by simp⟩
  | some sequence =>
    simp only [Option.some.injEq, forall_eq']
    split
    · rename_i above
      exact ⟨le_of_lt above, le_refl _⟩
    · rename_i below
      exact ⟨le_refl _, not_lt.mp below⟩

theorem BeginsAt.append (versioned : metadata.formatVersion ≠ .v1)
    {writer after : ManifestWriter V} {entry : ManifestEntry V}
    (begun : BeginsAt metadata snapshotId location writer)
    (run : append metadata writer entry = .ok after)
    (bounded : BoundedBy (nextSequenceNumber metadata) entry) :
    BeginsAt metadata snapshotId location after := by
  obtain ⟨version, stored, summaries, record, rfl⟩ := append_spec run
  obtain ⟨lower, own⟩ := countEntry_least writer.manifest entry
  constructor
  · exact begun.path
  · exact begun.sequence
  · exact begun.snapshot
  · exact begun.version
  · exact le_trans lower begun.least
  · intro one member live
    rcases List.mem_append.mp member with old | new
    · obtain ⟨above, below⟩ := begun.entries one old live
      exact ⟨le_trans lower above, below⟩
    · obtain rfl := List.mem_singleton.mp new
      obtain ⟨lives, same⟩ := record.sequenceNumber (by rwa [version, begun.version])
      rw [lives] at live
      have below := bounded.sequenceIn live
      unfold ManifestEntry.sequenceIn at below ⊢
      rw [same]
      refine ⟨?_, below⟩
      cases explicit : entry.sequenceNumber with
      | none => exact le_trans lower begun.least
      | some sequence => exact own sequence explicit

variable {begun : ManifestWriter V} {row : ManifestListEntry V}

theorem BeginsAt.fill (versioned : metadata.formatVersion ≠ .v1) {filled : ManifestWriter V}
    {entries : List (ManifestEntry V)} (begins : BeginsAt metadata snapshotId location begun)
    (run : entries.foldlM (ManifestWriter.append metadata) begun = .ok filled)
    (bounded : ∀ entry ∈ entries, BoundedBy (nextSequenceNumber metadata) entry) :
    BeginsAt metadata snapshotId location filled :=
  foldlM_invariant (BeginsAt metadata snapshotId location)
    (fun entry member _ _ here appended => here.append versioned appended (bounded entry member))
    run begins

omit [PartitionValue V] in
theorem new_beginsAt {content : ManifestContent}
    (version : avro.formatVersion = metadata.formatVersion)
    (run : ManifestWriter.new location snapshotId avro metadata content = .ok begun) :
    BeginsAt metadata snapshotId location begun := by
  obtain ⟨schema, none, row⟩ := new_spec run
  constructor
  · rw [row]
  · rw [row]
  · rw [row]
  · rw [schema, version]
  · rw [row]
  · rw [none]
    exact fun _ member => absurd member List.not_mem_nil

/-- What the loops over an existing manifest know of the least live sequence number. -/
structure LeastLive (bound : Int) (version : FormatVersion) (state : Rewrite V) : Prop where
  version : state.writer.avro.formatVersion = version
  entries : ∀ entry ∈ state.writer.file.entries, entry.live = true →
    ∃ sequence least, entry.sequenceNumber = some sequence ∧
      state.minLiveSequence = some least ∧ least ≤ sequence ∧ sequence ≤ bound
  least : ∀ least, state.minLiveSequence = some least → least ≤ bound

section

omit [PartitionValue V]

theorem minWith_spec (sequence : Int) (least : Option Int) :
    ∃ min, Rewrite.minWith (some sequence) least = some min ∧ min ≤ sequence ∧
      (∀ old, least = some old → min ≤ old) ∧ (min = sequence ∨ least = some min) := by
  cases least with
  | none => exact ⟨sequence, rfl, le_refl _, by simp, .inl rfl⟩
  | some old =>
    simp only [Rewrite.minWith, Option.some.injEq, forall_eq']
    split
    · rename_i below
      exact ⟨sequence, rfl, le_refl _, le_of_lt below, .inl rfl⟩
    · rename_i above
      exact ⟨old, rfl, not_lt.mp above, le_refl _, .inr rfl⟩

/-- Writing a live entry with an explicit sequence number. -/
theorem LeastLive.write {bound sequence : Int} {version : FormatVersion}
    {state after : Rewrite V} {stored : ManifestEntry V} (here : LeastLive bound version state)
    (schema : after.writer.avro = state.writer.avro)
    (written : after.writer.file.entries = state.writer.file.entries ++ [stored])
    (own : stored.sequenceNumber = some sequence) (below : sequence ≤ bound)
    (counted : after.minLiveSequence = Rewrite.minWith (some sequence) state.minLiveSequence) :
    LeastLive bound version after := by
  obtain ⟨min, found, least, lower, from'⟩ := minWith_spec sequence state.minLiveSequence
  rw [found] at counted
  constructor
  · rw [schema, here.version]
  · intro entry member live
    rw [written] at member
    rcases List.mem_append.mp member with old | new
    · obtain ⟨number, least, explicit, was, above, bounded⟩ := here.entries entry old live
      exact ⟨number, min, explicit, counted, le_trans (lower least was) above, bounded⟩
    · obtain rfl := List.mem_singleton.mp new
      exact ⟨sequence, min, own, counted, least, below⟩
  · intro least same
    rw [counted] at same
    obtain rfl := Option.some.inj same
    rcases from' with rfl | was
    · exact below
    · exact here.least min was

/-- Writing a tombstone. -/
theorem LeastLive.bury {bound : Int} {version : FormatVersion} {state after : Rewrite V}
    {stored : List (ManifestEntry V)} (here : LeastLive bound version state)
    (schema : after.writer.avro = state.writer.avro)
    (written : after.writer.file.entries = state.writer.file.entries ++ stored)
    (dead : ∀ entry ∈ stored, entry.live = false)
    (counted : after.minLiveSequence = state.minLiveSequence) : LeastLive bound version after := by
  constructor
  · rw [schema, here.version]
  · intro entry member live
    rw [written] at member
    rcases List.mem_append.mp member with old | new
    · rw [counted]
      exact here.entries entry old live
    · rw [dead entry new] at live
      exact absurd live Bool.false_ne_true
  · rw [counted]
    exact here.least

/-- A rewritten row takes its lower bound from the loop. -/
theorem LeastLive.beginsAt {state : Rewrite V}
    (here : LeastLive (nextSequenceNumber metadata) metadata.formatVersion state)
    (path : row.manifestPath = location) :
    BeginsAt metadata snapshotId location
      { state.writer with manifest := rewrittenRow row snapshotId metadata state } := by
  constructor
  · exact path
  · rfl
  · rfl
  · exact here.version
  · show state.minLiveSequence.getD _ ≤ _
    cases least : state.minLiveSequence with
    | none => exact le_refl _
    | some min => exact here.least min least
  · intro entry member live
    obtain ⟨sequence, least, own, found, lower, upper⟩ := here.entries entry member live
    show state.minLiveSequence.getD _ ≤ _ ∧ _
    unfold ManifestEntry.sequenceIn
    rw [own, found]
    exact ⟨lower, upper⟩

end

theorem fromExisting_beginsAt (versioned : metadata.formatVersion ≠ .v1)
    {existing : List (ManifestEntry V)} (version : avro.formatVersion = metadata.formatVersion)
    (run : fromExisting existing row snapshotId avro metadata = .ok begun)
    (bounded : ∀ entry ∈ existing, entry.live = true →
      entry.sequenceIn row.sequenceNumber ≤ nextSequenceNumber metadata) :
    BeginsAt metadata snapshotId row.manifestPath begun := by
  simp only [fromExisting, bind_eq_ok] at run
  obtain ⟨file, header, state, folded, run⟩ := run
  injection run with same
  subst same
  have empty : file.entries = [] := by
    simp only [currentHeader, bind_eq_ok] at header
    obtain ⟨schema, -, header⟩ := header
    split at header
    · cases header
    · injection header with head
      rw [← head]
  refine LeastLive.beginsAt ?_ rfl
  refine foldlM_invariant (LeastLive (nextSequenceNumber metadata) metadata.formatVersion) ?_ folded
    ⟨version, by simp [Rewrite.start, empty], by simp [Rewrite.start]⟩
  intro entry member before after here step
  simp only [fromExistingStep] at step
  split at step
  · cases step
    exact here
  · rename_i alive
    obtain ⟨writer, writes, step⟩ := bind_eq_ok.mp step
    cases step
    obtain ⟨-, stored, record, rfl⟩ := write_spec writes
    have live : entry.live = true := by simp [ManifestEntry.live, alive]
    exact here.write rfl rfl (record.sequenceNumber versioned).2 (bounded entry member live) rfl

theorem fromExistingWithFilter_beginsAt (versioned : metadata.formatVersion ≠ .v1)
    {existing : List (ManifestEntry V)} {paths : List String}
    {source : Option (Schema × PartitionSpec)} {stats : FilteredManifestStats V}
    (version : avro.formatVersion = metadata.formatVersion)
    (run : fromExistingWithFilter existing row paths snapshotId avro metadata source =
      .ok (begun, stats)) (bounded : ∀ entry ∈ existing, entry.live = true →
      entry.sequenceIn row.sequenceNumber ≤ nextSequenceNumber metadata) :
    BeginsAt metadata snapshotId row.manifestPath begun := by
  simp only [fromExistingWithFilter, guard_eq_ok, bind_eq_ok] at run
  obtain ⟨-, ⟨schema, spec⟩, -, ⟨specs, types, -, state, folded, run⟩⟩ := run
  injection run with same
  obtain ⟨rfl, rfl⟩ := Prod.mk.inj same
  obtain ⟨files, -, filtered⟩ := fromExistingWithFilterStep_fold folded
  obtain ⟨partitions, same⟩ := filtered.row
  refine LeastLive.beginsAt ?_ (by rw [same]; rfl)
  clear same filtered
  refine foldlM_invariant (LeastLive (nextSequenceNumber metadata) metadata.formatVersion) ?_ folded
    ⟨version, by simp [Rewrite.start], by simp [Rewrite.start]⟩
  intro entry member before after here step
  simp only [fromExistingWithFilterStep] at step
  split at step
  · cases step
    exact here
  · rename_i alive
    have live : entry.live = true := by simp [ManifestEntry.live, alive]
    obtain ⟨⟨later, file⟩, -, step⟩ := bind_eq_ok.mp step
    dsimp only at step
    split at step
    · split at step
      · obtain ⟨writer, writes, step⟩ := bind_eq_ok.mp step
        cases step
        obtain ⟨stored, summaries, record, rfl⟩ := writeRecorded_spec writes
        refine here.bury rfl rfl ?_ rfl
        intro one member
        obtain rfl := List.mem_singleton.mp member
        exact (record.sequenceNumber versioned).1
      · cases step
        exact here.bury rfl (List.append_nil _).symm (by simp) rfl
    · obtain ⟨writer, writes, step⟩ := bind_eq_ok.mp step
      cases step
      obtain ⟨stored, summaries, record, rfl⟩ := writeRecorded_spec writes
      exact here.write rfl rfl (record.sequenceNumber versioned).2 (bounded entry member live) rfl

end Writing

/-! ### Lists -/

/-- What a row has to do with sequence numbers: where its manifest is, who wrote it, and the
bounds. -/
structure SameSequence (a b : ManifestListEntry V) : Prop where
  path : a.manifestPath = b.manifestPath
  snapshot : a.addedSnapshotId = b.addedSnapshotId
  sequence : a.sequenceNumber = b.sequenceNumber
  least : a.minSequenceNumber = b.minSequenceNumber

theorem SameSequence.trans {a b c : ManifestListEntry V} (one : SameSequence a b)
    (two : SameSequence b c) : SameSequence a c :=
  ⟨one.path.trans two.path, one.snapshot.trans two.snapshot, one.sequence.trans two.sequence,
    one.least.trans two.least⟩

/-- The live entries of the manifest of a row have sequence numbers between its bounds. -/
def SequencesFit (store : Store V) (row : ManifestListEntry V) : Prop :=
  ∃ file, store.manifest row.manifestPath = some file ∧
    ∀ entry ∈ file.entries, entry.live = true →
      row.minSequenceNumber ≤ entry.sequenceIn row.sequenceNumber ∧
        entry.sequenceIn row.sequenceNumber ≤ row.sequenceNumber

theorem SequencesFit.congr {store : Store V} {a b : ManifestListEntry V} (same : SameSequence a b)
    (fits : SequencesFit store a) : SequencesFit store b := by
  obtain ⟨path, -, sequence, least⟩ := same
  unfold SequencesFit at fits ⊢
  rwa [path, sequence, least] at fits

theorem SequencesFit.extends {before after : Store V} (extends' : before.Extends after)
    (fits : SequencesFit before row) : SequencesFit after row := by
  obtain ⟨file, found, bounds⟩ := fits
  exact ⟨file, extends'.manifest _ _ found, bounds⟩

/-- The conversions to the records of versions 2 and 3 keep the sequence numbers. -/
theorem toVersion_sameSequence (row : ManifestListEntry V) {version : FormatVersion}
    (versioned : version ≠ .v1) : SameSequence (row.toVersion version) row := by
  cases version with
  | v1 => exact absurd rfl versioned
  | v2 | v3 => exact ⟨rfl, rfl, rfl, rfl⟩

theorem toRecord_sameSequence {record : ManifestListEntry V} (run : row.toRecord = .ok record)
    (versioned : row.formatVersion ≠ .v1) : SameSequence record row := by
  unfold ManifestListEntry.toRecord at run
  split at run
  · rename_i version
    exact absurd version versioned
  · split at run
    · cases run
      exact toVersion_sameSequence row versioned
    · cases run

/-- The record of a row in a list of version 2 or 3. -/
theorem record_sameSequence {version : FormatVersion} {record : ManifestListEntry V}
    {firstRowId : Option Int} (versioned : version ≠ .v1)
    (run : ({ row with formatVersion := version, firstRowId } : ManifestListEntry V).toRecord =
      .ok record) : SameSequence record row :=
  (toRecord_sameSequence run versioned).trans ⟨rfl, rfl, rfl, rfl⟩

/-! ### The machine -/

section Machine

variable {metadata : TableMetadata} {snapshotId : Int} {uuid : String}
  {rows : List (ManifestListEntry V)}

/-- A row of an assembly that started from `rows`: it is one of them or has been written by the
commit, and its bounds fit. -/
structure Placed (metadata : TableMetadata) (snapshotId : Int) (rows : List (ManifestListEntry V))
    (a : Assembly V) (row : ManifestListEntry V) : Prop where
  fits : SequencesFit a.store row
  below : row.sequenceNumber ≤ nextSequenceNumber metadata
  origin : (∃ old ∈ rows, row.addedSnapshotId = old.addedSnapshotId ∧
      row.sequenceNumber = old.sequenceNumber) ∨
    (row.addedSnapshotId = snapshotId ∧ row.sequenceNumber = nextSequenceNumber metadata)

variable {a : Assembly V} {row : ManifestListEntry V}

theorem Placed.congr {other : ManifestListEntry V} (placed : Placed metadata snapshotId rows a row)
    (same : SameSequence other row) : Placed metadata snapshotId rows a other := by
  obtain ⟨path, snapshot, sequence, least⟩ := same
  constructor
  · exact placed.fits.congr ⟨path.symm, snapshot.symm, sequence.symm, least.symm⟩
  · exact sequence ▸ placed.below
  · rw [snapshot, sequence]
    exact placed.origin

variable {b : Assembly V}

/-- Storing the next manifest leaves the rows alone. -/
theorem Placed.stores (placed : Placed metadata snapshotId rows a row)
    (backed : Backed metadata.location uuid a row) (stores : Stores metadata.location uuid a b) :
    Placed metadata snapshotId rows b row := by
  refine ⟨?_, placed.below, placed.origin⟩
  unfold SequencesFit
  rw [backed.manifest stores]
  exact placed.fits

/-- The state of an assembly as far as sequence numbers go. -/
structure Sequencing (metadata : TableMetadata) (snapshotId : Int) (uuid : String)
    (rows : List (ManifestListEntry V)) (a : Assembly V) : Prop where
  version : a.output.writer.formatVersion = metadata.formatVersion
  backed : AllBacked metadata.location uuid a
  held : ∀ row ∈ a.held, Placed metadata snapshotId rows a row
  listed : ∀ row ∈ a.output.writer.rows, Placed metadata snapshotId rows a row
  loose : ∀ x ∈ a.loose, BoundedBy (nextSequenceNumber metadata) x.2

/-- A manifest that has just been written. -/
theorem BeginsAt.placed {filled : ManifestWriter V} {location : String}
    (begins : BeginsAt metadata snapshotId location filled) :
    Placed metadata snapshotId rows (a.wrote filled) filled.manifest := by
  constructor
  · refine ⟨filled.file, Store.putManifest_manifest_self .., ?_⟩
    rw [begins.sequence]
    exact begins.entries
  · rw [begins.sequence]
  · exact .inr ⟨begins.snapshot, begins.sequence⟩

variable [PartitionValue V]

/-- The live entries read from the manifest of a row are bounded. -/
theorem Placed.existing (placed : Placed metadata snapshotId rows a row) {file : ManifestFile V}
    {existing : List (ManifestEntry V)} (fetched : a.store.getManifest row.manifestPath = .ok file)
    (read : file.read = .ok existing) :
    ∀ entry ∈ existing, entry.live = true →
      entry.sequenceIn row.sequenceNumber ≤ nextSequenceNumber metadata := by
  intro entry member live
  obtain ⟨found, here, bounds⟩ := placed.fits
  have same : found = file := by
    unfold Store.getManifest at fetched
    rw [here] at fetched
    exact Except.ok.inj fetched
  subst same
  obtain ⟨stored, within, lives, number⟩ := read_sequenceNumber read member
  have upper := (bounds stored within (lives ▸ live)).2
  unfold ManifestEntry.sequenceIn at upper ⊢
  rw [number]
  exact le_trans upper placed.below

omit [PartitionValue V] in
/-- Entries made of those of a manifest, with their sequence number or that of the row. -/
theorem boundedBy_resolved {entry : ManifestEntry V}
    (bounded : entry.sequenceIn row.sequenceNumber ≤ nextSequenceNumber metadata) (status : Status) :
    BoundedBy (nextSequenceNumber metadata)
      { resolveInherited row entry with status } := by
  intro _ sequence own
  rw [← Option.some.inj own]
  exact bounded

/-- The entries left by a filter are tombstones. -/
theorem boundedBy_removed {existing : List (ManifestEntry V)} {begun : ManifestWriter V}
    {avro : EntrySchema} {paths : List String} {bound : Int}
    {source : Option (Schema × PartitionSpec)} {stats : FilteredManifestStats V}
    {content : ManifestContent} {x : ManifestContent × ManifestEntry V}
    (run : fromExistingWithFilter existing row paths snapshotId avro metadata source =
      .ok (begun, stats)) (member : x ∈ tagged content stats.filteredEntries) :
    BoundedBy bound x.2 := by
  obtain ⟨entry, within, rfl⟩ := List.mem_map.mp (Multiset.mem_coe.mp member)
  obtain ⟨removes, -⟩ := fromExistingWithFilter_files run
  intro live
  rw [(removes.mem_left within).1] at live
  exact absurd live Bool.false_ne_true

omit [PartitionValue V] in
/-- The entries of a manifest that is taken apart. -/
theorem boundedBy_split {existing : List (ManifestEntry V)}
    (bounds : ∀ entry ∈ existing, entry.live = true →
      entry.sequenceIn row.sequenceNumber ≤ nextSequenceNumber metadata)
    (paths : Option (List String)) :
    let parts := existing.foldl (ManifestListWriter.splitResolve row paths) (.empty, [])
    (∀ x ∈ tagged row.content parts.2, BoundedBy (nextSequenceNumber metadata) x.2) ∧
      ∀ x ∈ tagged row.content parts.1.filteredEntries,
        BoundedBy (nextSequenceNumber metadata) x.2 := by
  intro parts
  obtain ⟨kept, gone⟩ := ManifestListWriter.splitResolve_fold row paths existing (.empty, [])
  constructor
  · intro x member
    obtain ⟨entry, within, rfl⟩ := List.mem_map.mp (Multiset.mem_coe.mp member)
    rw [show parts.2 = _ from kept] at within
    obtain ⟨source, inside, made⟩ := List.mem_flatMap.mp
      ((List.mem_append.mp within).resolve_left List.not_mem_nil)
    unfold ManifestListWriter.splitKept at made
    split at made
    · rename_i live
      rw [List.mem_singleton.mp made]
      exact boundedBy_resolved (bounds source inside (Bool.and_elim_left live)) _
    · exact absurd made List.not_mem_nil
  · intro x member
    obtain ⟨entry, within, rfl⟩ := List.mem_map.mp (Multiset.mem_coe.mp member)
    rw [show parts.1.filteredEntries = _ from gone] at within
    obtain ⟨source, inside, made⟩ := List.mem_flatMap.mp
      ((List.mem_append.mp within).resolve_left List.not_mem_nil)
    unfold ManifestListWriter.splitTombstone at made
    split at made
    · rename_i live
      rw [List.mem_singleton.mp made]
      exact boundedBy_resolved (bounds source inside (Bool.and_elim_left live)) _
    · exact absurd made List.not_mem_nil

/-- A manifest a step writes is begun for the commit. -/
theorem WrittenFrom.beginsAt {filled : ManifestWriter V}
    (written : WrittenFrom metadata snapshotId uuid a filled)
    (versioned : metadata.formatVersion ≠ .v1) (here : Sequencing metadata snapshotId uuid rows a) :
    BeginsAt metadata snapshotId (newManifestLocation metadata.location uuid a.count) filled := by
  cases written with
  | new content avro entries begun version begins fills loose =>
    exact (new_beginsAt version begins).fill versioned fills
      fun entry member => here.loose _ (loose entry member)
  | existing row held file avro existing entries begun v3 version fetched read begins fills loose =>
    have bounds := (here.held row held).existing fetched read
    exact (fromExisting_beginsAt versioned version begins bounds).fill versioned fills
      fun entry member => here.loose _ (loose entry member)
  | filtered row held file paths source avro existing entries begun stats alone version fetched read
      begins fills loose =>
    have bounds := (here.held row held).existing fetched read
    exact (fromExistingWithFilter_beginsAt versioned version begins bounds).fill versioned fills
      fun entry member => here.loose _ (loose entry member)

/-- The entries a step leaves to be written have no sequence number above that of the commit. -/
theorem AssemblyStep.looseBounded {mixes : Prop}
    (step : AssemblyStep metadata snapshotId uuid mixes a b)
    (here : Sequencing metadata snapshotId uuid rows a) :
    ∀ x ∈ b.loose, BoundedBy (nextSequenceNumber metadata) x.2 := by
  intro x member
  cases step with
  | list a row output appends => exact here.loose x member
  | displace a row v3 => exact here.loose x member
  | retag a mixed source target entry dead =>
    rcases Multiset.mem_cons.mp member with rfl | old
    · exact here.loose (source, entry) (Multiset.mem_cons_self _ _)
    · exact here.loose x (Multiset.mem_cons_of_mem old)
  | promote a content entry partition =>
    rcases Multiset.mem_cons.mp member with rfl | old
    · exact here.loose (content, entry) (Multiset.mem_cons_self _ _)
    · exact here.loose x (Multiset.mem_cons_of_mem old)
  | write a content avro entries begun filled version begins fills =>
    exact here.loose x (Multiset.mem_add.mpr (.inr member))
  | rewrite a row file avro existing entries begun filled v3 version fetched read begins fills =>
    exact here.loose x (Multiset.mem_add.mpr (.inr member))
  | filter a row file paths source avro existing entries begun filled stats alone version fetched
      read begins fills =>
    rcases Multiset.mem_add.mp member with left | old
    · exact boundedBy_removed begins left
    · exact here.loose x (Multiset.mem_add.mpr (.inr old))
  | vanish a row file paths source avro existing filtered stats version fetched read begins empty =>
    rcases Multiset.mem_add.mp member with left | old
    · exact boundedBy_removed begins left
    · exact here.loose x old
  | dissolve a row file paths existing v3 fetched read =>
    have placed := here.held row (Multiset.mem_cons_self row _)
    obtain ⟨kept, gone⟩ := boundedBy_split (placed.existing fetched read) paths
    rcases Multiset.mem_add.mp member with left | rest
    · exact kept x left
    · exact (Multiset.mem_add.mp rest).elim (gone x) (here.loose x)

/-- Every step keeps the bounds. -/
theorem AssemblyStep.sequencing {mixes : Prop} (versioned : metadata.formatVersion ≠ .v1)
    (step : AssemblyStep metadata snapshotId uuid mixes a b)
    (here : Sequencing metadata snapshotId uuid rows a) :
    Sequencing metadata snapshotId uuid rows b := by
  have stores := step.stores
  obtain ⟨version, held, listed⟩ := step.rows
  refine ⟨version.trans here.version, step.allBacked here.backed, ?_, ?_, step.looseBounded here⟩
  · intro row member
    rcases held row member with old | ⟨filled, rfl, store, -, written⟩
    · exact (here.held row old).stores (here.backed.held row old) stores
    · have placed : Placed metadata snapshotId rows (a.wrote filled) filled.manifest :=
        (written.beginsAt versioned here).placed
      exact ⟨by rw [store]; exact placed.fits, placed.below, placed.origin⟩
  · intro record member
    rcases listed record member with old | ⟨row, among, first, converts⟩
    · exact (here.listed record old).stores (here.backed.listed record old) stores
    · exact ((here.held row among).stores (here.backed.held row among) stores).congr
        (record_sameSequence (here.version ▸ versioned) converts)

/-- What a run of the machine leaves, from rows with their manifests and entries of the commit. -/
theorem Assembles.sequencing {mixes : Prop} (versioned : metadata.formatVersion ≠ .v1)
    (run : Assembles metadata snapshotId uuid mixes a b)
    (start : Sequencing metadata snapshotId uuid rows a) :
    Sequencing metadata snapshotId uuid rows b :=
  run.invariant (fun _ _ step here => step.sequencing versioned here) start

end Machine

end IcebergRust

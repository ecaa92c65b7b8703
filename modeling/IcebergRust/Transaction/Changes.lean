import IcebergRust.Table.Counts
import IcebergRust.Table.Scan
import IcebergRust.Transaction.Origins

/-!
# What a row says about changes

The rows of a snapshot an operation has written, in versions 2 and 3.

* `changedBy_iff`: whether a manifest holds added or deleted entries can be told from the file
  counts of its row, which wrap around at 2 ^ 32.
* `RowSettled` says of a row that it is one of the old list, or of a manifest written for the commit;
  every step of the machine keeps that, and lists no manifest twice.
* `Wrote.settles`: so do all operations that write a snapshot.
-/

namespace IcebergRust

open Fallible ManifestWriter

variable {V : Type}

/-! ### Counts -/

/-- A manifest holds an entry that is added or deleted. -/
def ManifestFile.changes (file : ManifestFile V) : Bool :=
  file.entries.any (·.status ≠ .existing)

/-- The file counts of a row are those of its manifest, as far as their type holds them. -/
def CountsManifest (store : Store V) (row : ManifestListEntry V) : Prop :=
  ∃ file, store.manifest row.manifestPath = some file ∧
    ∀ status, row.files status = some (wrapI32 (total (oneOf status) file.entries))

/-- The file counts of a manifest tell whether it holds changes: a row holds them as 32 bit numbers,
and cannot tell 2 ^ 32 entries from none. -/
def ManifestFile.CountsTell (file : ManifestFile V) : Prop :=
  file.changes = true → ¬ ((4294967296 : Int) ∣ total (oneOf .added) file.entries ∧
    (4294967296 : Int) ∣ total (oneOf .deleted) file.entries)

instance (file : ManifestFile V) : Decidable file.CountsTell :=
  inferInstanceAs (Decidable (_ → _))

theorem wrapI32_eq_zero_iff {n : Int} : wrapI32 n = 0 ↔ (4294967296 : Int) ∣ n :=
  Int.dvd_iff_bmod_eq_zero.symm

/-- A manifest without changes has no entries of the other statuses. -/
theorem total_of_not_changes {file : ManifestFile V} (none : file.changes ≠ true) {status : Status}
    (other : status ≠ .existing) : total (oneOf status) file.entries = 0 := by
  refine total_eq_zero fun entry member => if_neg fun same => none ?_
  rw [ManifestFile.changes, List.any_eq_true]
  exact ⟨entry, member, by simp [same, other]⟩

/-- A row of the number of a snapshot is changed by it if its manifest holds changes. -/
theorem changedBy_iff {store : Store V} {row : ManifestListEntry V} {file : ManifestFile V}
    {snapshot : Snapshot} (counts : CountsManifest store row)
    (found : store.manifest row.manifestPath = some file) (tell : file.CountsTell)
    (sequence : row.sequenceNumber = snapshot.sequenceNumber) :
    changedBy snapshot row = true ↔ file.changes = true := by
  obtain ⟨same, here, counted⟩ := counts
  obtain rfl := Option.some.inj (found.symm.trans here)
  have added := counted .added
  have deleted := counted .deleted
  simp only [ManifestListEntry.files] at added deleted
  have told : changedBy snapshot row = true ↔
      ¬ ((4294967296 : Int) ∣ total (oneOf .added) file.entries ∧
        (4294967296 : Int) ∣ total (oneOf .deleted) file.entries) := by
    rw [changedBy, added, deleted, ← wrapI32_eq_zero_iff, ← wrapI32_eq_zero_iff, not_and_or]
    simp [sequence]
  refine told.trans ⟨fun some => ?_, tell⟩
  by_contra none
  refine some ⟨?_, ?_⟩
  · rw [total_of_not_changes none (by decide)]
    exact Int.dvd_zero _
  · rw [total_of_not_changes none (by decide)]
    exact Int.dvd_zero _

theorem toVersion_files (row : ManifestListEntry V) (version : FormatVersion) (status : Status) :
    (row.toVersion version).files status = row.files status := by
  cases version <;> cases status <;> rfl

theorem toRecord_files {row record : ManifestListEntry V} (run : row.toRecord = .ok record)
    (status : Status) : record.files status = row.files status := by
  unfold ManifestListEntry.toRecord at run
  split at run
  · cases run
    exact toVersion_files row .v1 status
  · split at run
    · cases run
      exact toVersion_files row _ status
    · cases run

variable [PartitionValue V] {metadata : TableMetadata} {snapshotId : Int} {uuid : String}

variable {filled : ManifestWriter V}

theorem fill_snapshot {begun : ManifestWriter V} {entries : List (ManifestEntry V)}
    (run : entries.foldlM (append metadata) begun = .ok filled) :
    filled.manifest.addedSnapshotId = begun.manifest.addedSnapshotId := by
  refine foldlM_invariant
    (fun writer => writer.manifest.addedSnapshotId = begun.manifest.addedSnapshotId) ?_ run rfl
  intro entry _ before after here appended
  obtain ⟨-, stored, summaries, -, rfl⟩ := append_spec appended
  exact here

/-- The counts after entries have been appended are those of all entries. -/
theorem CountsFile.fill {begun : ManifestWriter V} {entries : List (ManifestEntry V)}
    (counted : CountsFile begun) (fills : entries.foldlM (append metadata) begun = .ok filled)
    (status : Status) :
    filled.manifest.files status = some (wrapI32 (total (oneOf status) filled.file.entries)) := by
  obtain ⟨-, stored, partitions, records, rfl⟩ := fill_spec fills
  have totals := (counted.countEntries entries).files status
  have appended := (alike_counts (records.imp fun _ _ record => record.alike) status).1
  rw [total_append, ← appended, ← totals]
  cases status <;> rfl

/-- A manifest a step writes is that of the snapshot. -/
theorem WrittenFrom.snapshot {a : Assembly V}
    (written : WrittenFrom metadata snapshotId uuid a filled) :
    filled.manifest.addedSnapshotId = snapshotId := by
  cases written with
  | new content avro entries begun version begins fills loose =>
    obtain ⟨-, -, row⟩ := new_spec begins
    exact (fill_snapshot fills).trans (by rw [row])
  | existing row held file avro existing entries begun versioned version fetched read begins fills
      loose =>
    obtain ⟨stored, state, -, -, -, -, same⟩ := fromExisting_spec begins
    exact (fill_snapshot fills).trans (by rw [same]; rfl)
  | filtered row held file paths source avro existing entries begun stats alone version fetched read
      begins fills loose =>
    obtain ⟨context, resolved, of, -, result⟩ := fromExistingWithFilter_spec begins
    obtain ⟨partitions, state, same, -⟩ := result.row
    exact (fill_snapshot fills).trans (by rw [same, of.commit]; rfl)

/-- The row of a manifest a step writes has its counts. -/
theorem WrittenFrom.counts {a : Assembly V}
    (written : WrittenFrom metadata snapshotId uuid a filled) (status : Status) :
    filled.manifest.files status = some (wrapI32 (total (oneOf status) filled.file.entries)) := by
  cases written with
  | new content avro entries begun version begins fills loose =>
    exact (new_countsFile begins).fill fills status
  | existing row held file avro existing entries begun versioned version fetched read begins fills
      loose => exact (fromExisting_countsFile begins).fill fills status
  | filtered row held file paths source avro existing entries begun stats alone version fetched read
      begins fills loose => exact (fromExistingWithFilter_countsFile begins).fill fills status

/-! ### The machine -/

/-- A row whose manifest has been written for the snapshot. -/
structure Renewed (metadata : TableMetadata) (snapshotId : Int) (uuid : String) (a : Assembly V)
    (row : ManifestListEntry V) : Prop where
  path : ∃ i < a.count, row.manifestPath = newManifestLocation metadata.location uuid i
  snapshot : row.addedSnapshotId = snapshotId
  counts : CountsManifest a.store row

/-- A row is one of the old list, or its manifest has been written for the snapshot. -/
def RowSettled (metadata : TableMetadata) (snapshotId : Int) (uuid : String)
    (rows : List (ManifestListEntry V)) (a : Assembly V) (row : ManifestListEntry V) : Prop :=
  (∃ old ∈ rows, row.manifestPath = old.manifestPath ∧
    row.addedSnapshotId = old.addedSnapshotId) ∨ Renewed metadata snapshotId uuid a row

/-- The manifests of all rows of a list under construction. -/
def Assembly.paths (a : Assembly V) : Multiset String :=
  (a.held + Multiset.ofList a.output.writer.rows).map (·.manifestPath)

/-- A list under construction as far as changes go. -/
structure Settling (metadata : TableMetadata) (snapshotId : Int) (uuid : String)
    (rows : List (ManifestListEntry V)) (a : Assembly V) : Prop where
  version : a.output.writer.formatVersion = metadata.formatVersion
  backed : AllBacked metadata.location uuid a
  held : ∀ row ∈ a.held, RowSettled metadata snapshotId uuid rows a row
  listed : ∀ row ∈ a.output.writer.rows, RowSettled metadata snapshotId uuid rows a row
  distinct : (rows.map (·.manifestPath)).Nodup → a.paths.Nodup

section Machine

variable {mixes : Prop} {rows : List (ManifestListEntry V)} {a b : Assembly V}
  {row : ManifestListEntry V} {filled : ManifestWriter V}

section

omit [PartitionValue V]

theorem RowSettled.stores (settled : RowSettled metadata snapshotId uuid rows a row)
    (backed : Backed metadata.location uuid a row) (stores : Stores metadata.location uuid a b) :
    RowSettled metadata snapshotId uuid rows b row := by
  refine settled.imp id fun renewed => ?_
  obtain ⟨⟨i, before, path⟩, snapshot, counts⟩ := renewed
  refine ⟨⟨i, ?_, path⟩, snapshot, ?_⟩
  · cases stores with
    | nothing _ count => exact count ▸ before
    | manifest _ _ count => exact count ▸ before.trans (Nat.lt_succ_self _)
  · unfold CountsManifest
    rw [backed.manifest stores]
    exact counts

/-- The record of a row is settled as the row is. -/
theorem RowSettled.record {record : ManifestListEntry V}
    (settled : RowSettled metadata snapshotId uuid rows a row) (same : SameSequence record row)
    (files : ∀ status, record.files status = row.files status) :
    RowSettled metadata snapshotId uuid rows a record := by
  rcases settled with ⟨old, member, path, snapshot⟩ | ⟨path, snapshot, file, found, counts⟩
  · exact .inl ⟨old, member, same.path.trans path, same.snapshot.trans snapshot⟩
  · refine .inr ⟨same.path ▸ path, same.snapshot.trans snapshot, file, same.path ▸ found, ?_⟩
    exact fun status => (files status).trans (counts status)

theorem RowSettled.congr (settled : RowSettled metadata snapshotId uuid rows a row)
    (store : b.store = a.store) (count : b.count = a.count) :
    RowSettled metadata snapshotId uuid rows b row := by
  refine settled.imp id fun renewed => ⟨?_, renewed.snapshot, ?_⟩
  · rw [count]
    exact renewed.path
  · rw [store]
    exact renewed.counts

/-- The row of a manifest that has been written last is settled. -/
theorem RowSettled.wrote (path : filled.manifest.manifestPath =
      newManifestLocation metadata.location uuid a.count)
    (snapshot : filled.manifest.addedSnapshotId = snapshotId)
    (counts : ∀ status, filled.manifest.files status =
      some (wrapI32 (total (oneOf status) filled.file.entries))) :
    RowSettled metadata snapshotId uuid rows (a.wrote filled) filled.manifest :=
  .inr ⟨⟨a.count, Nat.lt_succ_self _, path⟩, snapshot, filled.file,
    Store.putManifest_manifest_self .., counts⟩

/-- A manifest of the next number is not among those of the rows. -/
theorem AllBacked.notMem_paths (backed : AllBacked metadata.location uuid a) :
    newManifestLocation metadata.location uuid a.count ∉ a.paths := by
  intro member
  obtain ⟨row, within, path⟩ := Multiset.mem_map.mp member
  rcases Multiset.mem_add.mp within with old | old
  · exact (backed.held row old).apart a.count (le_refl _) path
  · exact (backed.listed row (Multiset.mem_coe.mp old)).apart a.count (le_refl _) path

theorem paths_append (file : ManifestListFile V) (record : ManifestListEntry V) :
    Multiset.ofList (file.rows ++ [record]) = record ::ₘ Multiset.ofList file.rows := by
  rw [← Multiset.coe_add, add_comm]
  rfl

end

/-- A step brings in at most one manifest, that of the next number. -/
theorem AssemblyStep.paths_le (step : AssemblyStep metadata snapshotId uuid mixes a b) :
    b.paths ≤ newManifestLocation metadata.location uuid a.count ::ₘ a.paths := by
  have path {filled : ManifestWriter V} (written : WrittenFrom metadata snapshotId uuid a filled) :=
    written.path
  have later {few many : Multiset String} {new : String} (le : few ≤ many) : few ≤ new ::ₘ many :=
    le.trans (Multiset.le_cons_self _ _)
  unfold Assembly.paths
  cases step with
  | list a row output listed =>
    obtain ⟨first, record, converts, written⟩ := appendManifest_spec listed
    have same : record.manifestPath = row.manifestPath := (toRecord_path converts).trans rfl
    have rows : output.writer.rows = a.output.writer.rows ++ [record] := by rw [written]
    refine later (le_of_eq ?_)
    dsimp only
    rw [rows, paths_append, Multiset.add_cons, Multiset.cons_add, Multiset.map_cons,
      Multiset.map_cons, same]
  | write a content avro entries begun filled version begins fills =>
    have own := path (.new content avro entries begun version begins fills mem_tagged_add)
    refine le_of_eq ?_
    rw [show (a.wrote filled).held = filled.manifest ::ₘ a.held from rfl, Multiset.cons_add,
      Multiset.map_cons, own]
    rfl
  | rewrite a row file avro existing entries begun filled versioned version fetched read begins
      fills =>
    have own := path (.existing row (Multiset.mem_cons_self row _) file avro existing entries begun
      versioned version fetched read begins fills mem_tagged_add)
    rw [show (a.wrote filled).held = filled.manifest ::ₘ a.held from rfl, Multiset.cons_add,
      Multiset.cons_add, Multiset.map_cons, Multiset.map_cons, own]
    exact (Multiset.cons_le_cons_iff _).mpr (Multiset.le_cons_self _ _)
  | filter a row file paths source avro existing entries begun filled stats alone version fetched
      read begins fills =>
    have own := path (.filtered row (Multiset.mem_cons_self row _) file paths source avro existing
      entries begun stats alone version fetched read begins fills mem_tagged_add)
    rw [show (a.wrote filled).held = filled.manifest ::ₘ a.held from rfl, Multiset.cons_add,
      Multiset.cons_add, Multiset.map_cons, Multiset.map_cons, own]
    exact (Multiset.cons_le_cons_iff _).mpr (Multiset.le_cons_self _ _)
  | retag a mixed source target entry dead => exact later (le_refl _)
  | promote a content entry partition => exact later (le_refl _)
  | _ =>
    refine later ?_
    rw [Multiset.cons_add, Multiset.map_cons]
    exact Multiset.le_cons_self _ _

/-- Every step keeps the rows settled. -/
theorem AssemblyStep.settling (step : AssemblyStep metadata snapshotId uuid mixes a b)
    (versioned : metadata.formatVersion ≠ .v1)
    (here : Settling metadata snapshotId uuid rows a) :
    Settling metadata snapshotId uuid rows b := by
  have stores := step.stores
  obtain ⟨version, held, listed⟩ := step.rows
  refine ⟨version.trans here.version, step.allBacked here.backed, ?_, ?_, fun alone => ?_⟩
  · intro row member
    rcases held row member with old | ⟨filled, rfl, store, count, written⟩
    · exact (here.held row old).stores (here.backed.held row old) stores
    · exact (RowSettled.wrote written.path written.snapshot written.counts).congr store count
  · intro record member
    rcases listed record member with old | ⟨row, among, first, converts⟩
    · exact (here.listed record old).stores (here.backed.listed record old) stores
    · have settled := (here.held row among).stores (here.backed.held row among) stores
      refine settled.record (record_sameSequence (here.version ▸ versioned) converts) fun status => ?_
      rw [toRecord_files converts]
      cases status <;> rfl
  · exact Multiset.nodup_of_le step.paths_le
      (Multiset.nodup_cons.mpr ⟨here.backed.notMem_paths, here.distinct alone⟩)

/-- Every manifest of a replacement keeps the rows settled. -/
theorem writeReplacement_settling {avro : EntrySchema}
    {before after : Store V × ManifestListFile V} {i : Nat} {part : List (ManifestEntry V)}
    (run : writeReplacement metadata avro snapshotId uuid before i part = .ok after)
    (versioned : metadata.formatVersion ≠ .v1)
    (here : Settling metadata snapshotId uuid rows (replacing before i)) :
    Settling metadata snapshotId uuid rows (replacing after (i + 1)) := by
  have stores := writeReplacement_stores run
  have backed := writeReplacement_backed here.backed run
  obtain ⟨begun, filled, record, begins, fills, format, converts, rfl⟩ := writeReplacement_spec run
  have path := (fill_path fills).trans (new_path begins)
  have same := toRecord_sameSequence converts (by rw [format]; exact here.version ▸ versioned)
  refine ⟨here.version, backed, fun one member => absurd member (Multiset.notMem_zero one), ?_, ?_⟩
  · intro one member
    rcases List.mem_append.mp member with old | last
    · exact (here.listed one old).stores (here.backed.listed one old) stores
    · obtain rfl := List.mem_singleton.mp last
      obtain ⟨-, -, new⟩ := new_spec begins
      have settled : RowSettled metadata snapshotId uuid rows ((replacing before i).wrote filled)
          filled.manifest :=
        .wrote path ((fill_snapshot fills).trans (by rw [new]))
          ((new_countsFile begins).fill fills)
      exact (settled.record same (toRecord_files converts)).congr rfl rfl
  · intro alone
    have next : (replacing (before.1.putManifest filled.manifest.manifestPath filled.file,
        { before.2 with rows := before.2.rows ++ [record] }) (i + 1)).paths =
          newManifestLocation metadata.location uuid i ::ₘ (replacing before i).paths := by
      unfold Assembly.paths replacing
      dsimp only
      rw [paths_append, zero_add, zero_add, Multiset.map_cons, same.path, path]
    rw [next]
    exact Multiset.nodup_cons.mpr ⟨here.backed.notMem_paths, here.distinct alone⟩

end Machine

/-! ### Snapshots -/

/-- The manifests in the list of a snapshot. -/
def Store.listed (store : Store V) (snapshot : Snapshot) : List String :=
  match store.manifestList snapshot.manifestList with
  | some file => file.rows.map (·.manifestPath)
  | none => []

/-- What the rows of a snapshot say about its changes: each is for a manifest of the parent, or for
one that was not in the store before. -/
structure Settles (metadata : TableMetadata) (before after : Store V) (snapshot : Snapshot)
    (parent : Option Snapshot) : Prop where
  pointer : snapshot.parentSnapshotId = parent.map (·.snapshotId)
  known : ∀ head, parent = some head → ∃ id, metadata.snapshots.lookup id = some head
  rows : ∀ row ∈ after.rowsOf metadata.formatVersion snapshot,
    (∃ head, parent = some head ∧ ∃ old ∈ before.rowsOf metadata.formatVersion head,
      row.manifestPath = old.manifestPath ∧ row.addedSnapshotId = old.addedSnapshotId) ∨
    (before.manifest row.manifestPath = none ∧ row.addedSnapshotId = snapshot.snapshotId ∧
      CountsManifest after row)
  distinct : (∀ head, parent = some head → (before.listed head).Nodup) →
    (after.listed snapshot).Nodup

section

omit [PartitionValue V]

theorem Store.listed_eq {store : Store V} {snapshot : Snapshot} {file : ManifestListFile V}
    (found : store.manifestList snapshot.manifestList = some file) :
    store.listed snapshot = file.rows.map (·.manifestPath) := by
  rw [Store.listed, found]

theorem rowsOf_paths (store : Store V) (version : FormatVersion) (snapshot : Snapshot) :
    (store.rowsOf version snapshot).map (·.manifestPath) = store.listed snapshot := by
  unfold Store.rowsOf Store.listed
  cases store.manifestList snapshot.manifestList with
  | none => rfl
  | some file =>
    dsimp only
    rw [List.map_map]
    exact List.map_congr_left fun row _ => toVersion_path row _

theorem paths_forall₂ {first second : List (ManifestListEntry V)}
    (same : List.Forall₂ SameSequence first second) :
    first.map (·.manifestPath) = second.map (·.manifestPath) := by
  induction same with
  | nil => rfl
  | cons here _ ih => rw [List.map_cons, List.map_cons, here.path, ih]

/-- A list that is settled when it is stored. -/
theorem Settling.settles {store stored : Store V} {snapshot : Snapshot} {parent : Option Snapshot}
    {rows : List (ManifestListEntry V)} {a : Assembly V}
    (done : Settling metadata snapshot.snapshotId uuid rows a)
    (found : stored.manifestList snapshot.manifestList = some a.output.writer)
    (manifests : ∀ path, stored.manifest path = a.store.manifest path)
    (unused : store.Unused metadata.location uuid) (versioned : metadata.formatVersion ≠ .v1)
    (kept : ∀ row ∈ rows, ∃ head, parent = some head ∧
      ∃ old ∈ store.rowsOf metadata.formatVersion head, SameSequence old row)
    (alone : (∀ head, parent = some head → (store.listed head).Nodup) →
      (rows.map (·.manifestPath)).Nodup)
    (pointer : snapshot.parentSnapshotId = parent.map (·.snapshotId))
    (known : ∀ head, parent = some head → ∃ id, metadata.snapshots.lookup id = some head) :
    Settles metadata store stored snapshot parent := by
  refine ⟨pointer, known, ?_, fun before => ?_⟩
  · intro row member
    rw [Store.rowsOf_eq found, readVersion_self done.version] at member
    obtain ⟨listed, within, rfl⟩ := List.mem_map.mp member
    have same := toVersion_sameSequence listed versioned
    rcases done.listed listed within with ⟨one, among, path, added⟩ | renewed
    · obtain ⟨head, here, old, belongs, source⟩ := kept one among
      exact .inl ⟨head, here, old, belongs, (same.path.trans path).trans source.path.symm,
        (same.snapshot.trans added).trans source.snapshot.symm⟩
    · obtain ⟨⟨i, -, path⟩, added, file, here, counts⟩ := renewed
      refine .inr ⟨?_, same.snapshot.trans added, file, ?_, fun status => ?_⟩
      · rw [same.path, path]
        exact unused.manifest i
      · rw [manifests, same.path]
        exact here
      · rw [toVersion_files]
        exact counts status
  · rw [Store.listed_eq found, ← Multiset.coe_nodup, ← Multiset.map_coe]
    refine Multiset.nodup_of_le ?_ (done.distinct (alone before))
    rw [Assembly.paths, Multiset.map_add]
    exact Multiset.le_add_left _ _

end

variable {store stored : Store V} {entropy : Entropy} {snapshot : Snapshot}

theorem WritesList.settles {mixes : Prop} {old : Option Snapshot} {branch : Option String}
    {loose : Multiset (ManifestContent × ManifestEntry V)} {rows : List (ManifestListEntry V)}
    {final : Assembly V}
    (written : WritesList metadata store stored entropy mixes old loose snapshot rows final)
    (head : metadata.currentSnapshot branch = .ok old) (versioned : metadata.formatVersion ≠ .v1)
    (unused : store.Unused metadata.location entropy.writerUuid)
    (readable : ∀ id head, metadata.snapshots.lookup id = some head → Readable store head) :
    Settles metadata store stored snapshot old := by
  have manifests := headRows_stored (Readable.of_currentSnapshot readable head) written.read
  have start : Settling metadata snapshot.snapshotId entropy.writerUuid rows
      (Assembly.begin metadata store rows loose) := by
    refine ⟨rfl, begin_allBacked unused manifests _, fun row member =>
      .inl ⟨row, Multiset.mem_coe.mp member, rfl, rfl⟩,
      fun _ member => absurd member List.not_mem_nil, fun alone => ?_⟩
    have begun : (Assembly.begin metadata store rows loose).paths =
        Multiset.ofList (rows.map (·.manifestPath)) := by
      rw [Assembly.paths, Multiset.map_add]
      exact add_zero _
    rw [begun]
    exact alone
  have done := written.id ▸ written.assembles
  have found : stored.manifestList snapshot.manifestList = some final.output.writer := by
    rw [written.stored]
    exact Store.putManifestList_manifestList_self ..
  refine (done.invariant (fun _ _ step here => step.settling versioned here) start).settles found
    (fun _ => by rw [written.stored]; rfl) unused versioned
    (fun row member => mem_headRows written.read member) ?_ written.parent
    (metadata.exists_lookup_of_currentSnapshot head)
  · intro before
    have origin := written.read
    cases old with
    | none =>
      cases origin
      exact List.nodup_nil
    | some parent =>
      rw [← paths_forall₂ (headRows_rowsOf origin), rowsOf_paths]
      exact before parent rfl

theorem WritesReplacement.settles {avro : EntrySchema} {parts : List (List (ManifestEntry V))}
    {final : Store V × ManifestListFile V} {parent : Option Snapshot}
    (written : WritesReplacement metadata store stored entropy avro parts snapshot final)
    (versioned : metadata.formatVersion ≠ .v1)
    (unused : store.Unused metadata.location entropy.uuid)
    (pointer : snapshot.parentSnapshotId = parent.map (·.snapshotId))
    (known : ∀ head, parent = some head → ∃ id, metadata.snapshots.lookup id = some head) :
    Settles metadata store stored snapshot parent := by
  have start : Settling metadata entropy.snapshotId entropy.uuid []
      (replacing (store, ⟨metadata.formatVersion, []⟩) 0) :=
    ⟨rfl, replacing_allBacked, fun one member => absurd member (Multiset.notMem_zero one),
      fun _ member => absurd member List.not_mem_nil, fun _ => Multiset.nodup_zero⟩
  have done := writeReplacements_invariant (Settling metadata entropy.snapshotId entropy.uuid [])
    (fun before after i part _ here step => writeReplacement_settling step versioned here)
    written.writes start
  have found : stored.manifestList snapshot.manifestList = some final.2 := by
    rw [written.stored]
    exact Store.putManifestList_manifestList_self ..
  rw [← written.id] at done
  exact done.settles found (fun _ => by rw [written.stored]; rfl) unused versioned
    (fun _ member => absurd member List.not_mem_nil) (fun _ => List.nodup_nil) pointer known

/-- The rows of every snapshot an operation writes say what it has changed. -/
theorem Wrote.settles {operation : Operation V}
    (wrote : Wrote metadata store stored entropy operation snapshot)
    (versioned : metadata.formatVersion ≠ .v1)
    (unused : ∀ uuid ∈ [entropy.uuid, entropy.writerUuid], store.Unused metadata.location uuid)
    (readable : ∀ id head, metadata.snapshots.lookup id = some head → Readable store head) :
    ∃ parent, Settles metadata store stored snapshot parent := by
  cases wrote with
  | list old rows final branch head written sequence =>
    exact ⟨old, written.settles head versioned (unused _ (by simp)) readable⟩
  | replacement old avro parts final branch head written parent files =>
    have own := unused entropy.uuid (by simp)
    have known := metadata.exists_lookup_of_currentSnapshot head
    cases operation with
    | replace other new additional =>
      exact ⟨none, written.settles versioned own parent (fun _ none => by cases none)⟩
    | _ => exact ⟨old, written.settles versioned own parent known⟩

end IcebergRust

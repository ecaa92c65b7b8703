import IcebergRust.Table.SequenceNumbers
import IcebergRust.Transaction.Assembled
import IcebergRust.Transaction.Outcome

/-!
# What an operation reads and stores

The objects behind a data operation: the rows it starts from, as they are in the list of
the head, and the objects it leaves in the store.

* `headRows_decoded`: the rows an operation starts from are those of the stored list, up to
  partition summaries and completed counts.
* `Readable` says that the list of a snapshot and the manifests of its rows are stored; every
  operation leaves its own snapshot readable (`execute_stores`), and touches only objects
  named by the UUIDs it draws.
-/

namespace IcebergRust

open Fallible ManifestWriter

variable {V : Type}

/-! ### Reading the old list -/

/-- A row of a stored list of a version, as an operation starts from it. -/
structure DecodedAs (version : FormatVersion) (stored row : ManifestListEntry V) : Prop where
  path : row.manifestPath = stored.manifestPath
  spec : row.partitionSpecId = stored.partitionSpecId
  snapshot : row.addedSnapshotId = stored.addedSnapshotId
  content : row.content = (stored.toVersion version).content
  sequence : row.sequenceNumber = (stored.toVersion version).sequenceNumber
  least : row.minSequenceNumber = (stored.toVersion version).minSequenceNumber

/-- The version the list of a table is read with. -/
def ManifestListFile.readVersion (file : ManifestListFile V) (tableVersion : FormatVersion) :
    FormatVersion :=
  manifestListFormatVersion file.formatVersion tableVersion

variable [PartitionValue V] {rows : List (ManifestListEntry V)} {metadata : TableMetadata}
  {store : Store V}

theorem decodeAll_rows {version : FormatVersion} {decoder : ManifestListEntryDecoder}
    {stored : List (ManifestListEntry V)}
    (run : ManifestListEntryDecoder.decodeAll metadata version decoder stored = .ok rows) :
    List.Forall₂ (fun stored row => ∃ partitions, row = { stored.toVersion version with partitions })
      stored rows := by
  induction stored generalizing decoder rows with
  | nil =>
    cases run
    exact .nil
  | cons first stored ih =>
    simp only [ManifestListEntryDecoder.decodeAll, bind_eq_ok] at run
    obtain ⟨⟨next, row⟩, decodes, rest, others, run⟩ := run
    cases run
    refine .cons ?_ (ih others)
    simp only [ManifestListEntryDecoder.decode, guard_eq_ok, bind_eq_ok] at decodes
    obtain ⟨-, types, -, partitions, -, decodes⟩ := decodes
    cases decodes
    exact ⟨_, rfl⟩

theorem read_rows {file : ManifestListFile V} (run : file.read metadata = .ok rows) :
    List.Forall₂ (fun stored row => ∃ partitions,
      row = { stored.toVersion (file.readVersion metadata.formatVersion) with partitions })
      file.rows rows :=
  decodeAll_rows run

omit [PartitionValue V] in
theorem toVersion_path (row : ManifestListEntry V) (version : FormatVersion) :
    (row.toVersion version).manifestPath = row.manifestPath := by
  cases version <;> rfl

omit [PartitionValue V] in
theorem decodedAs_toVersion (row : ManifestListEntry V) (version : FormatVersion)
    (partitions : Option (List (FieldSummary V))) :
    DecodedAs version row { row.toVersion version with partitions } := by
  constructor <;> cases version <;> rfl

theorem hydrateRow_spec {row hydrated : ManifestListEntry V}
    (run : hydrateRow store row = .ok hydrated) :
    ∃ a b c d e f, hydrated = { row with
      addedFilesCount := a, existingFilesCount := b, deletedFilesCount := c, addedRowsCount := d,
      existingRowsCount := e, deletedRowsCount := f } := by
  unfold hydrateRow at run
  split at run
  · cases run
    exact ⟨_, _, _, _, _, _, rfl⟩
  · simp only [bind_eq_ok] at run
    obtain ⟨file, -, entries, -, counts, -, run⟩ := run
    cases run
    exact ⟨_, _, _, _, _, _, rfl⟩

omit [PartitionValue V] in
/-- Completing a version 1 row, storing it and reading it again changes only its counts. -/
theorem decodedAs_hydrated {stored record : ManifestListEntry V}
    {partitions other : Option (List (FieldSummary V))} {a b c d e f : Option Int}
    (converts : ({ stored.toVersion .v1 with
      partitions, addedFilesCount := a, existingFilesCount := b, deletedFilesCount := c,
      addedRowsCount := d, existingRowsCount := e, deletedRowsCount := f } :
        ManifestListEntry V).toRecord = .ok record) :
    DecodedAs .v1 stored { record.toVersion .v1 with partitions := other } := by
  cases converts
  constructor <;> rfl

/-- The rows of a version 1 list that has been read, completed, stored and read again. -/
theorem hydrated_decoded {stored read counted records : List (ManifestListEntry V)}
    (one : List.Forall₂ (fun stored row => ∃ partitions,
      row = { stored.toVersion .v1 with partitions }) stored read)
    (two : List.Forall₂ (fun row hydrated => hydrateRow store row = .ok hydrated) read counted)
    (three : List.Forall₂ (fun row record => row.toRecord = .ok record) counted records)
    (four : List.Forall₂ (fun stored row => ∃ partitions,
      row = { stored.toVersion .v1 with partitions }) records rows) :
    List.Forall₂ (DecodedAs .v1) stored rows := by
  induction one generalizing counted records rows with
  | nil =>
    cases two
    cases three
    cases four
    exact .nil
  | cons here _ ih =>
    cases two with
    | cons hydrate rest =>
      cases three with
      | cons convert others =>
        cases four with
        | cons decode last =>
          refine .cons ?_ (ih rest others last)
          obtain ⟨partitions, rfl⟩ := here
          obtain ⟨a, b, c, d, e, f, rfl⟩ := hydrateRow_spec hydrate
          obtain ⟨other, rfl⟩ := decode
          exact decodedAs_hydrated convert

/-- The rows an operation starts from, in terms of the stored list. -/
theorem hydratedList_decoded {file hydrated : ManifestListFile V}
    (hydrates : hydratedList file metadata store = .ok hydrated)
    (run : hydrated.read metadata = .ok rows) :
    List.Forall₂ (DecodedAs (file.readVersion metadata.formatVersion)) file.rows rows := by
  have plain (run : file.read metadata = .ok rows) :
      List.Forall₂ (DecodedAs (file.readVersion metadata.formatVersion)) file.rows rows := by
    refine (read_rows run).imp fun stored row same => ?_
    obtain ⟨partitions, rfl⟩ := same
    exact decodedAs_toVersion stored _ partitions
  unfold hydratedList at hydrates
  split at hydrates
  · obtain ⟨completed, completes, hydrates⟩ := bind_eq_ok.mp hydrates
    cases hydrates
    unfold hydrateV1ManifestListRowCounts at completes
    split at completes
    · cases completes
      exact plain run
    · rename_i version
      have v1 : file.readVersion metadata.formatVersion = .v1 := not_not.mp version
      obtain ⟨first, read, completes⟩ := bind_eq_ok.mp completes
      split at completes
      · cases completes
        exact plain run
      · simp only [bind_eq_ok] at completes
        obtain ⟨counted, counts, records, converts, completes⟩ := completes
        cases completes
        rw [v1]
        have one := read_rows read
        rw [v1] at one
        have again : (⟨.v1, records⟩ : ManifestListFile V).read metadata = .ok rows := run
        have four := read_rows again
        rw [show ManifestListFile.readVersion _ _ = .v1 by
          simp [ManifestListFile.readVersion, manifestListFormatVersion]] at four
        exact hydrated_decoded one (mapM_eq_ok.mp counts) (mapM_eq_ok.mp converts) four
  · cases hydrates
    exact plain run

/-- The rows an operation starts from are those of the list of the head. -/
theorem headRows_decoded {snapshot : Snapshot}
    (run : headRows metadata store (some snapshot) = .ok rows) :
    ∃ file, store.manifestList snapshot.manifestList = some file ∧
      List.Forall₂ (DecodedAs (file.readVersion metadata.formatVersion)) file.rows rows := by
  simp only [headRows, bind_eq_ok] at run
  obtain ⟨file, fetched, hydrated, hydrates, read⟩ := run
  unfold Store.getManifestList at fetched
  split at fetched
  · rename_i found
    cases fetched
    exact ⟨file, found, hydratedList_decoded hydrates read⟩
  · cases fetched

/-! ### Stored snapshots -/

omit [PartitionValue V] in
/-- The list of a snapshot is stored, and so are the manifests of its rows. -/
def Readable (store : Store V) (snapshot : Snapshot) : Prop :=
  ∃ file, store.manifestList snapshot.manifestList = some file ∧
    ∀ row ∈ file.rows, ∃ manifest, store.manifest row.manifestPath = some manifest

omit [PartitionValue V] in
theorem Readable.extends {before after : Store V} {snapshot : Snapshot}
    (grows : before.Extends after) (readable : Readable before snapshot) :
    Readable after snapshot := by
  obtain ⟨file, found, manifests⟩ := readable
  refine ⟨file, grows.manifestList _ _ found, fun row member => ?_⟩
  obtain ⟨manifest, here⟩ := manifests row member
  exact ⟨manifest, grows.manifest _ _ here⟩

section Operations

variable {metadata : TableMetadata} {entropy : Entropy} {store stored : Store V} {mixes : Prop}
  {old : Option Snapshot} {rows : List (ManifestListEntry V)} {snapshot : Snapshot}
  {branch : Option String} {uuid : String} {avro : EntrySchema} {snapshotId : Int}

omit [PartitionValue V] in
/-- The head of a branch is readable where all snapshots are. -/
theorem Readable.of_currentSnapshot
    (readable : ∀ id head, metadata.snapshots.lookup id = some head → Readable store head)
    (head : metadata.currentSnapshot branch = .ok old) :
    ∀ one, old = some one → Readable store one := by
  intro one same
  obtain ⟨id, found⟩ := metadata.exists_lookup_of_currentSnapshot head one same
  exact readable id one found

/-- The manifests of the rows an operation starts from are stored. -/
theorem headRows_stored (readable : ∀ head, old = some head → Readable store head)
    (read : headRows metadata store old = .ok rows) :
    ∀ row ∈ rows, ∃ manifest, store.manifest row.manifestPath = some manifest := by
  intro row member
  cases old with
  | none =>
    cases read
    exact absurd member List.not_mem_nil
  | some head =>
    obtain ⟨file, found, manifests⟩ := readable head rfl
    obtain ⟨same, here, decoded⟩ := headRows_decoded read
    obtain rfl := Option.some.inj (found.symm.trans here)
    obtain ⟨source, within, decodes⟩ := exists_of_mem_forall₂ decoded member
    rw [decodes.path]
    exact manifests source within

omit [PartitionValue V] in
theorem freshFor_of_stored (unused : store.Unused metadata.location entropy.writerUuid)
    (manifests : ∀ row ∈ rows, ∃ manifest, store.manifest row.manifestPath = some manifest) :
    FreshFor metadata entropy.writerUuid rows := by
  intro row member i same
  obtain ⟨manifest, here⟩ := manifests row member
  rw [same, unused.manifest i] at here
  cases here

omit [PartitionValue V] in
/-- Where the assembly of a list starts, all rows have their manifests. -/
theorem begin_allBacked (unused : store.Unused metadata.location entropy.writerUuid)
    (manifests : ∀ row ∈ rows, ∃ manifest, store.manifest row.manifestPath = some manifest)
    (loose : Multiset (ManifestContent × ManifestEntry V)) :
    AllBacked metadata.location entropy.writerUuid (Assembly.begin metadata store rows loose) := by
  constructor
  · intro row member
    have within : row ∈ rows := Multiset.mem_coe.mp member
    exact ⟨manifests row within, fun i _ => freshFor_of_stored unused manifests row within i⟩
  · exact fun _ member => absurd member List.not_mem_nil

/-- What an operation has stored: nothing but objects named by its UUIDs, and the list of its
snapshot with the manifests of its rows. -/
structure StoresSnapshot (location : String) (entropy : Entropy) (store stored : Store V)
    (snapshot : Snapshot) : Prop where
  changes : Store.ChangesOnly location [entropy.uuid, entropy.writerUuid] store stored
  readable : Readable stored snapshot

theorem WritesList.storesSnapshot {loose : Multiset (ManifestContent × ManifestEntry V)}
    {final : Assembly V}
    (writes : WritesList metadata store stored entropy mixes old loose snapshot rows final)
    (unused : store.Unused metadata.location entropy.writerUuid)
    (readable : ∀ head, old = some head → Readable store head) :
    StoresSnapshot metadata.location entropy store stored snapshot := by
  have backed : AllBacked metadata.location entropy.writerUuid final :=
    writes.assembles.invariant (fun _ _ step here => step.allBacked here)
      (begin_allBacked unused (headRows_stored readable writes.read) loose)
  constructor
  · rw [writes.stored, writes.location]
    have changes := writes.assembles.changesOnly.trans
      (final.store.changesOnly_putManifestList metadata.location entropy.writerUuid
        entropy.snapshotId final.output.writer)
    exact changes.mono (by simp)
  · rw [writes.stored]
    exact ⟨final.output.writer, Store.putManifestList_manifestList_self ..,
      fun row member => (backed.listed row member).stored⟩

/-! ### Replacing and truncating -/

omit [PartitionValue V] in
/-- A list being written without a machine, as a state of it. -/
def replacing (state : Store V × ManifestListFile V) (count : Nat) : Assembly V :=
  ⟨state.1, ⟨state.2, none⟩, 0, 0, .empty, count⟩

variable {before after : Store V × ManifestListFile V} {requirement : Option TableRequirement}
  {updates : List TableUpdate} {operation : Operation V}

omit [PartitionValue V] in
/-- A new list has no rows to find manifests for. -/
theorem replacing_allBacked {location : String} {version : FormatVersion} :
    AllBacked location uuid (replacing (store, ⟨version, []⟩) 0) :=
  ⟨fun one member => absurd member (Multiset.notMem_zero one),
    fun _ member => absurd member List.not_mem_nil⟩

/-- Writing one manifest of a replacement. -/
theorem writeReplacement_spec {i : Nat} {entries : List (ManifestEntry V)}
    (run : writeReplacement metadata avro snapshotId uuid before i entries = .ok after) :
    ∃ begun filled record, new (newManifestLocation metadata.location uuid i)
        snapshotId avro metadata .data = .ok begun ∧
      entries.foldlM (append metadata) begun = .ok filled ∧
      filled.manifest.formatVersion = before.2.formatVersion ∧
      filled.manifest.toRecord = .ok record ∧
      after = (before.1.putManifest filled.manifest.manifestPath filled.file,
        { before.2 with rows := before.2.rows ++ [record] }) := by
  simp only [writeReplacement, bind_eq_ok] at run
  obtain ⟨begun, begins, filled, fills, list, appends, run⟩ := run
  cases run
  obtain ⟨version, record, converts, rfl⟩ := appendSer_spec appends
  exact ⟨begun, filled, record, begins, fills, version, converts, rfl⟩

/-- An invariant of the assembly that every manifest of a replacement keeps. -/
theorem writeReplacements_invariant (I : Assembly V → Prop) {parts : List (List (ManifestEntry V))}
    (keeps : ∀ before after i, ∀ part ∈ parts, I (replacing before i) →
      writeReplacement metadata avro snapshotId uuid before i part = .ok after →
      I (replacing after (i + 1))) {i : Nat}
    (run : writeReplacements metadata avro snapshotId uuid before i parts = .ok after)
    (start : I (replacing before i)) : I (replacing after (i + parts.length)) := by
  induction parts generalizing before i with
  | nil =>
    cases run
    exact start
  | cons part parts ih =>
    obtain ⟨next, first, rest⟩ := bind_eq_ok.mp run
    have later := ih (fun before after i other member => keeps before after i other
      (List.mem_cons_of_mem _ member)) rest (keeps _ _ _ part List.mem_cons_self start first)
    rwa [List.length_cons, Nat.add_comm parts.length, ← Nat.add_assoc]

/-- One manifest of a replacement is stored under the next number. -/
theorem writeReplacement_stores {i : Nat} {part : List (ManifestEntry V)}
    (run : writeReplacement metadata avro snapshotId uuid before i part = .ok after) :
    Stores metadata.location uuid (replacing before i) (replacing after (i + 1)) := by
  obtain ⟨begun, filled, record, begins, fills, -, -, rfl⟩ := writeReplacement_spec run
  have path := (fill_path fills).trans (new_path begins)
  exact .manifest filled.file (putManifest_of_path before.1 path) rfl

theorem writeReplacement_backed {i : Nat} {part : List (ManifestEntry V)}
    (here : AllBacked metadata.location uuid (replacing before i))
    (run : writeReplacement metadata avro snapshotId uuid before i part = .ok after) :
    AllBacked metadata.location uuid (replacing after (i + 1)) := by
  have stores := writeReplacement_stores run
  obtain ⟨begun, filled, record, begins, fills, -, converts, rfl⟩ := writeReplacement_spec run
  refine ⟨fun one member => absurd member (Multiset.notMem_zero one), ?_⟩
  intro one member
  rcases List.mem_append.mp member with old | new
  · exact (here.listed one old).stores stores
  · obtain rfl := List.mem_singleton.mp new
    have backed : Backed metadata.location uuid ((replacing before i).wrote filled)
        filled.manifest := wrote_backed ((fill_path fills).trans (new_path begins))
    have recorded := backed.congr (toRecord_path converts)
    exact ⟨recorded.stored, recorded.apart⟩

/-- A data operation has written a list of new manifests only. -/
structure WritesReplacement (metadata : TableMetadata) (store stored : Store V) (entropy : Entropy)
    (avro : EntrySchema) (parts : List (List (ManifestEntry V))) (snapshot : Snapshot)
    (final : Store V × ManifestListFile V) : Prop where
  schema : avro.formatVersion = metadata.formatVersion
  numbered : ∀ part ∈ parts, ∀ entry ∈ part,
    entry.sequenceNumber = some (ManifestWriter.nextSequenceNumber metadata)
  writes : writeReplacements metadata avro entropy.snapshotId entropy.uuid
    (store, ⟨metadata.formatVersion, []⟩) 0 parts = .ok final
  location : snapshot.manifestList =
    newManifestListLocation metadata.location entropy.snapshotId 0 entropy.uuid
  stored : stored = final.1.putManifestList snapshot.manifestList final.2
  id : snapshot.snapshotId = entropy.snapshotId
  sequence : snapshot.sequenceNumber = ManifestWriter.nextSequenceNumber metadata

theorem executeReplace_writes {files : List (DataFile V)}
    {additional : Option (HashMap String String)}
    (run : executeReplace metadata store entropy branch files additional =
      .ok (stored, requirement, updates)) :
    ∃ old snapshot avro parts final, metadata.currentSnapshot branch = .ok old ∧
      updates = (snapshotCommit branch old snapshot).2 ∧ snapshot.parentSnapshotId = none ∧
      WritesReplacement metadata store stored entropy avro parts snapshot final ∧
      parts.flatten.Perm (files.map (addedEntry metadata (some entropy.snapshotId)
        (some (nextSequenceNumber metadata)))) := by
  simp only [executeReplace, bind_eq_ok] at run
  obtain ⟨fields, -, old, head, schema, -, avro, built, run⟩ := run
  have version := ManifestListWriter.entrySchema_version built
  have numbered : ∀ entry ∈ files.map (addedEntry metadata (some entropy.snapshotId)
      (some (nextSequenceNumber metadata))),
      entry.sequenceNumber = some (nextSequenceNumber metadata) := by
    intro entry member
    obtain ⟨file, -, rfl⟩ := List.mem_map.mp member
    rfl
  split at run
  · simp only [bind_eq_ok] at run
    obtain ⟨parts, single, ⟨last, list⟩, writes, run⟩ := run
    cases single
    cases run
    refine ⟨old, _, avro, _, _, head, rfl, rfl, ⟨version, ?_, writes, rfl, rfl, rfl, rfl⟩, ?_⟩
    · intro part member
      obtain rfl := List.mem_singleton.mp member
      exact numbered
    · rw [List.flatten_singleton]
  · simp only [bind_eq_ok] at run
    obtain ⟨bounding, -, parts, splits, ⟨last, list⟩, writes, run⟩ := run
    cases run
    have perm := ManifestListWriter.splitDatafiles_perm splits
    refine ⟨old, _, avro, _, _, head, rfl, rfl, ⟨version, ?_, writes, rfl, rfl, rfl, rfl⟩, perm⟩
    intro part member entry within
    exact numbered entry (perm.mem_iff.mp (List.mem_flatten.mpr ⟨part, member, within⟩))

theorem executeTruncate_writes
    (run : executeTruncate metadata store entropy branch = .ok (stored, requirement, updates)) :
    ∃ old snapshot avro final, metadata.currentSnapshot branch = .ok old ∧
      updates = (snapshotCommit branch old snapshot).2 ∧
      snapshot.parentSnapshotId = old.map (·.snapshotId) ∧
      WritesReplacement metadata store stored entropy avro [] snapshot final := by
  simp only [executeTruncate, bind_eq_ok] at run
  obtain ⟨old, head, schema, -, run⟩ := run
  split at run <;>
  · simp only [bind_eq_ok] at run
    obtain ⟨lineage, -, run⟩ := run
    cases run
    exact ⟨old, _, ⟨metadata.formatVersion, []⟩, _, head, rfl, rfl, rfl, by simp, rfl, rfl, rfl, rfl,
      rfl⟩

theorem WritesReplacement.storesSnapshot {parts : List (List (ManifestEntry V))}
    {final : Store V × ManifestListFile V}
    (writes : WritesReplacement metadata store stored entropy avro parts snapshot final) :
    StoresSnapshot metadata.location entropy store stored snapshot := by
  have changes := writeReplacements_invariant
    (fun a => Store.ChangesOnly metadata.location [entropy.uuid] store a.store)
    (fun before after i part _ here step => by
      cases writeReplacement_stores step with
      | nothing same _ => exact same ▸ here
      | manifest file same _ =>
        rw [same]
        exact here.trans (Store.changesOnly_putManifest _ _ _ _ file))
    writes.writes (.refl _ _ _)
  have backed := writeReplacements_invariant (AllBacked metadata.location entropy.uuid)
    (fun before after i part _ here step => writeReplacement_backed here step) writes.writes
    replacing_allBacked
  rw [writes.stored]
  constructor
  · rw [writes.location]
    exact (changes.trans (Store.changesOnly_putManifestList _ _ _ _ _)).mono (by simp)
  · exact ⟨final.2, Store.putManifestList_manifestList_self ..,
      fun row member => (backed.listed row member).stored⟩

/-! ### All operations -/

/-- An operation that does not write files in several sequence groups. -/
def Operation.OneGroup : Operation V → Prop
  | .appendSequenceGroups branch groups =>
    TableTransaction.writesFiles (.appendSequenceGroups branch groups) = true → groups.length ≤ 1
  | _ => True

instance (operation : Operation V) : Decidable operation.OneGroup := by
  cases operation <;> unfold Operation.OneGroup <;> infer_instance

/-- The entries of the new files of an operation that rewrites the list of the head, with the
content of the manifest each is meant for. -/
def Operation.newEntries (metadata : TableMetadata) :
    Operation V → Multiset (ManifestContent × ManifestEntry V)
  | .append _ dataFiles deleteFiles _ => appendedEntries metadata dataFiles deleteFiles
  | .appendSequenceGroups _ groups => groupEntries metadata 0 groups
  | .overwrite _ dataFiles _ _ => tagged .data (addedEntries metadata none dataFiles)
  | _ => 0

/-- The files of an operation that writes a new list. -/
def Operation.replacement : Operation V → List (DataFile V)
  | .replace _ files _ => files
  | _ => []

/-- The sequence number of the snapshot of an operation. -/
def Operation.sequenceNumber (metadata : TableMetadata) : Operation V → Int
  | .appendSequenceGroups _ groups => wrapI64 (metadata.lastSequenceNumber + groups.length)
  | _ => ManifestWriter.nextSequenceNumber metadata

/-- How an operation has written its snapshot, in full. -/
inductive Wrote (metadata : TableMetadata) (store stored : Store V) (entropy : Entropy)
    (operation : Operation V) (snapshot : Snapshot) : Prop
  /-- The list of the head has been rewritten. -/
  | list (old : Option Snapshot) (rows : List (ManifestListEntry V)) (final : Assembly V)
      (branch : Option String) (head : metadata.currentSnapshot branch = .ok old)
      (written : WritesList metadata store stored entropy True old (operation.newEntries metadata)
        snapshot rows final)
      (sequence : snapshot.sequenceNumber = operation.sequenceNumber metadata)
  /-- A new list has been written. -/
  | replacement (old : Option Snapshot) (avro : EntrySchema)
      (parts : List (List (ManifestEntry V))) (final : Store V × ManifestListFile V)
      (branch : Option String) (head : metadata.currentSnapshot branch = .ok old)
      (written : WritesReplacement metadata store stored entropy avro parts snapshot final)
      (parent : snapshot.parentSnapshotId = operation.parentOn old)
      (files : parts.flatten.Perm (operation.replacement.map (addedEntry metadata
        (some entropy.snapshotId) (some (ManifestWriter.nextSequenceNumber metadata)))))

theorem Wrote.storesSnapshot (wrote : Wrote metadata store stored entropy operation snapshot)
    (unused : store.Unused metadata.location entropy.writerUuid)
    (readable : ∀ id head, metadata.snapshots.lookup id = some head → Readable store head) :
    StoresSnapshot metadata.location entropy store stored snapshot := by
  cases wrote with
  | list old rows final branch head written sequence =>
    exact written.storesSnapshot unused (Readable.of_currentSnapshot readable head)
  | replacement old avro parts final branch head written parent files =>
    exact written.storesSnapshot

theorem execute_wrote
    (run : operation.execute metadata store entropy = .ok (stored, requirement, updates))
    (unused : store.Unused metadata.location entropy.writerUuid)
    (readable : ∀ id head, metadata.snapshots.lookup id = some head → Readable store head) :
    (stored = store ∧ updates = []) ∨
      (stored = store ∧ operation.branch = none ∧ ∀ snapshot, .addSnapshot snapshot ∉ updates) ∨
      ∃ branch old snapshot, updates = (snapshotCommit branch old snapshot).2 ∧
        Wrote metadata store stored entropy operation snapshot := by
  cases operation with
  | append branch dataFiles deleteFiles additional =>
    rcases executeAppend_assembled run with ⟨-, -, rfl, -, rfl⟩ |
      ⟨old, snapshot, rows, final, head, sends, sequence, writes, -⟩
    · exact .inl ⟨rfl, rfl⟩
    · exact .inr (.inr ⟨branch, old, snapshot, (Prod.mk.inj sends).2,
        .list old rows final branch head writes sequence⟩)
  | appendSequenceGroups branch groups =>
    rcases executeAppendSequenceGroups_assembled run with ⟨rfl, -, rfl⟩ |
      ⟨old, snapshot, rows, final, head, sends, sequence, writes, -⟩
    · exact .inl ⟨rfl, rfl⟩
    · exact .inr (.inr ⟨branch, old, snapshot, (Prod.mk.inj sends).2,
        .list old rows final branch head writes sequence⟩)
  | replace branch files additional =>
    obtain ⟨-, run⟩ := guard_eq_ok.mp run
    obtain ⟨old, snapshot, avro, parts, final, head, sends, parent, writes, perm⟩ :=
      executeReplace_writes run
    exact .inr (.inr ⟨branch, old, snapshot, sends,
      .replacement old avro parts final branch head writes parent perm⟩)
  | overwrite branch dataFiles filesToOverwrite additional =>
    have fresh : ∀ old rows, metadata.currentSnapshot branch = .ok old →
        headRows metadata store old = .ok rows →
        FreshFor metadata entropy.writerUuid rows := by
      intro old rows head read
      exact freshFor_of_stored unused
        (headRows_stored (Readable.of_currentSnapshot readable head) read)
    rcases @executeOverwrite_assembled V _ metadata True _ _ _ _ _ _ _ _ _ run fresh
        (fun _ _ _ _ _ _ _ _ => ⟨fun _ _ => .inr trivial, fun _ _ _ _ => .inr trivial⟩) with
      ⟨-, -, rfl, -, rfl⟩ |
      ⟨old, snapshot, rows, final, begun, aside, lost, head, sends, sequence, -, writes, -⟩
    · exact .inl ⟨rfl, rfl⟩
    · exact .inr (.inr ⟨branch, some old, snapshot, (Prod.mk.inj sends).2,
        .list (some old) rows final branch head writes sequence⟩)
  | truncate branch =>
    obtain ⟨old, snapshot, avro, final, head, sends, parent, writes⟩ := executeTruncate_writes run
    exact .inr (.inr ⟨branch, old, snapshot, sends,
      .replacement old avro [] final branch head writes parent (.refl _)⟩)
  | replaceSortOrder sortOrder =>
    simp only [Operation.execute, map_eq_ok] at run
    obtain ⟨⟨required, sent⟩, run, same⟩ := run
    obtain ⟨rfl, rfl, rfl⟩ := Prod.mk.inj same |>.imp id Prod.mk.inj
    obtain ⟨-, rfl⟩ := executeReplaceSortOrder_sends run
    exact .inr (.inl ⟨rfl, rfl, by simp⟩)
  | expireSnapshots olderThan retainLast cleanOrphanFiles retainRefSnapshots dryRun =>
    simp only [Operation.execute, map_eq_ok] at run
    obtain ⟨⟨required, sent⟩, run, same⟩ := run
    obtain ⟨rfl, rfl, rfl⟩ := Prod.mk.inj same |>.imp id Prod.mk.inj
    obtain ⟨-, rfl | rfl⟩ := executeExpireSnapshots_sends run
    · exact .inr (.inl ⟨rfl, rfl, by simp⟩)
    · exact .inr (.inl ⟨rfl, rfl, by simp⟩)
  | _ =>
    cases run
    exact .inr (.inl ⟨rfl, rfl, by simp⟩)

/-- How an operation has written its snapshot. -/
inductive Writes (metadata : TableMetadata) (store stored : Store V) (entropy : Entropy) :
    Operation V → Snapshot → Prop
  /-- The list of the head has been rewritten. -/
  | list {operation : Operation V} {snapshot : Snapshot} (old : Option Snapshot)
      (loose : Multiset (ManifestContent × ManifestEntry V)) (rows : List (ManifestListEntry V))
      (final : Assembly V) (branch : Option String)
      (head : metadata.currentSnapshot branch = .ok old)
      (written : WritesList metadata store stored entropy True old loose snapshot rows final)
      (numbered : operation.OneGroup →
        snapshot.sequenceNumber = ManifestWriter.nextSequenceNumber metadata ∧
          ∀ x ∈ loose, ∀ sequence, x.2.sequenceNumber = some sequence →
            sequence = ManifestWriter.nextSequenceNumber metadata) :
      Writes metadata store stored entropy operation snapshot
  /-- A new list has been written. -/
  | replacement {operation : Operation V} {snapshot : Snapshot} (avro : EntrySchema)
      (parts : List (List (ManifestEntry V))) (final : Store V × ManifestListFile V)
      (written : WritesReplacement metadata store stored entropy avro parts snapshot final) :
      Writes metadata store stored entropy operation snapshot

theorem Writes.storesSnapshot (writes : Writes metadata store stored entropy operation snapshot)
    (unused : store.Unused metadata.location entropy.writerUuid)
    (readable : ∀ id head, metadata.snapshots.lookup id = some head → Readable store head) :
    StoresSnapshot metadata.location entropy store stored snapshot := by
  cases writes with
  | list old loose rows final branch head written numbered =>
    exact written.storesSnapshot unused (Readable.of_currentSnapshot readable head)
  | replacement avro parts final written => exact written.storesSnapshot

omit [PartitionValue V] in
/-- The entries of an append inherit their sequence number. -/
theorem appendedEntries_sequenceNumber {dataFiles deleteFiles : List (DataFile V)}
    {x : ManifestContent × ManifestEntry V}
    (member : x ∈ appendedEntries metadata dataFiles deleteFiles) : x.2.sequenceNumber = none := by
  rcases Multiset.mem_add.mp member with data | deletes
  · obtain ⟨entry, within, rfl⟩ := List.mem_map.mp (Multiset.mem_coe.mp data)
    obtain ⟨file, -, rfl⟩ := List.mem_map.mp within
    rfl
  · obtain ⟨entry, within, rfl⟩ := List.mem_map.mp (Multiset.mem_coe.mp deletes)
    obtain ⟨file, -, rfl⟩ := List.mem_map.mp within
    rfl

omit [PartitionValue V] in
/-- The entries of a single sequence group carry the next sequence number. -/
theorem groupEntries_sequenceNumber {group : SequenceGroup V}
    {x : ManifestContent × ManifestEntry V} (member : x ∈ groupEntries metadata 0 [group]) :
    x.2.sequenceNumber = some (nextSequenceNumber metadata) := by
  have next : wrapI64 (metadata.lastSequenceNumber + (0 + 1)) =
      nextSequenceNumber metadata := rfl
  simp only [groupEntries, next, add_zero] at member
  rcases Multiset.mem_add.mp member with data | deletes
  · obtain ⟨entry, within, rfl⟩ := List.mem_map.mp (Multiset.mem_coe.mp data)
    obtain ⟨file, -, rfl⟩ := List.mem_map.mp within
    rfl
  · obtain ⟨entry, within, rfl⟩ := List.mem_map.mp (Multiset.mem_coe.mp deletes)
    obtain ⟨file, -, rfl⟩ := List.mem_map.mp within
    rfl

/-- What is written in full has been written. -/
theorem Wrote.writes (wrote : Wrote metadata store stored entropy operation snapshot)
    (files : operation.index < 4 → TableTransaction.writesFiles operation = true) :
    Writes metadata store stored entropy operation snapshot := by
  cases wrote with
  | replacement old avro parts final branch head written parent perm =>
    exact .replacement avro parts final written
  | list old rows final branch head written sequence =>
    refine .list old _ rows final branch head written fun single => ?_
    cases operation with
    | append other dataFiles deleteFiles additional =>
      refine ⟨sequence, fun x member number own => ?_⟩
      rw [appendedEntries_sequenceNumber member] at own
      cases own
    | appendSequenceGroups other groups =>
      have some := files (show 3 < 4 by decide)
      cases groups with
      | nil => cases some
      | cons group others =>
        have length := single some
        obtain rfl : others = [] := List.length_eq_zero_iff.mp (by simpa using length)
        refine ⟨sequence, fun x member number own => ?_⟩
        rw [groupEntries_sequenceNumber member] at own
        exact (Option.some.inj own).symm
    | overwrite other dataFiles filesToOverwrite additional =>
      refine ⟨sequence, fun x member number own => ?_⟩
      obtain ⟨entry, within, rfl⟩ := List.mem_map.mp (Multiset.mem_coe.mp member)
      obtain ⟨file, -, rfl⟩ := List.mem_map.mp within
      cases own
    | _ => exact ⟨sequence, fun x member => absurd member (Multiset.notMem_zero x)⟩

/-- What an operation leaves: the objects it has found, or those of its snapshot. -/
theorem execute_writes
    (run : operation.execute metadata store entropy = .ok (stored, requirement, updates))
    (unused : store.Unused metadata.location entropy.writerUuid)
    (readable : ∀ id head, metadata.snapshots.lookup id = some head → Readable store head) :
    (stored = store ∧ updates = []) ∨
      (stored = store ∧ operation.branch = none ∧ ∀ snapshot, .addSnapshot snapshot ∉ updates) ∨
      ∃ branch old snapshot, updates = (snapshotCommit branch old snapshot).2 ∧
        Writes metadata store stored entropy operation snapshot := by
  have outcome := execute_outcome run
  refine (execute_wrote run unused readable).imp id fun others => others.imp id fun wrote => ?_
  obtain ⟨branch, old, snapshot, sends, wrote⟩ := wrote
  refine ⟨branch, old, snapshot, sends, wrote.writes fun early => ?_⟩
  clear wrote
  cases outcome with
  | nothing => exact absurd sends (List.cons_ne_nil _ _).symm
  | snapshot _ _ _ _ _ _ files => exact files early
  | _ => exact absurd sends (by simp [snapshotCommit])

end Operations

end IcebergRust

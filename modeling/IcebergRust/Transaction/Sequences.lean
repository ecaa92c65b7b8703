import IcebergRust.Transaction.Stored

/-!
# Sequence numbers across operations

The sequence numbers of a table and its objects: what holds of every row of the list of
every snapshot, and that a data operation which draws unused names keeps it.

* `TableSequenced` is the invariant, in terms of the snapshots of a table, its last sequence
  number and the object store; it survives more snapshots and more objects.
* `Writes.sequenced` is the step lemma for one operation in versions 2 and 3: only sequence
  groups after the first break it.
-/

namespace IcebergRust

open Fallible ManifestWriter

variable {V : Type}

/-! ### The invariant -/

/-- A row as it is read: the live entries of its manifest have sequence numbers between its
bounds, and the upper bound is the sequence number of the snapshot that wrote the manifest. -/
structure RowSequenced (snapshots : HashMap Int Snapshot) (store : Store V)
    (row : ManifestListEntry V) : Prop where
  fits : SequencesFit store row
  writer : ∃ writer, snapshots.lookup row.addedSnapshotId = some writer ∧
    row.sequenceNumber = writer.sequenceNumber

/-- The list of a snapshot is stored, and its rows have their sequence numbers. -/
def ListSequenced (version : FormatVersion) (snapshots : HashMap Int Snapshot) (store : Store V)
    (snapshot : Snapshot) : Prop :=
  ∃ file, store.manifestList snapshot.manifestList = some file ∧
    ∀ row ∈ file.rows, RowSequenced snapshots store (row.toVersion (file.readVersion version))

/-- All snapshots of a table have their sequence numbers, none above the last one. -/
structure TableSequenced (version : FormatVersion) (snapshots : HashMap Int Snapshot) (last : Int)
    (store : Store V) : Prop where
  lists : ∀ id snapshot, snapshots.lookup id = some snapshot →
    ListSequenced version snapshots store snapshot
  below : ∀ id snapshot, snapshots.lookup id = some snapshot → snapshot.sequenceNumber ≤ last

/-- The later snapshots include the earlier ones. -/
def Includes (few many : HashMap Int Snapshot) : Prop :=
  ∀ id snapshot, few.lookup id = some snapshot → many.lookup id = some snapshot

theorem includes_insert {snapshots : HashMap Int Snapshot} {snapshot : Snapshot}
    (fresh : snapshot.snapshotId ∉ snapshots) :
    Includes snapshots (snapshots.insert snapshot.snapshotId snapshot) := by
  intro id old found
  have other : id ≠ snapshot.snapshotId := by
    rintro rfl
    exact fresh (AList.lookup_isSome.mp (by rw [found]; rfl))
  rwa [AList.lookup_insert_ne other]

section Monotone

variable {few many : HashMap Int Snapshot} {before after : Store V}

theorem RowSequenced.mono {row : ManifestListEntry V} (sequenced : RowSequenced few before row)
    (keeps : Includes few many) (grows : before.Extends after) : RowSequenced many after row := by
  obtain ⟨fits, writer, found, same⟩ := sequenced
  exact ⟨fits.extends grows, writer, keeps _ _ found, same⟩

theorem RowSequenced.congr {a b : ManifestListEntry V} (sequenced : RowSequenced few before a)
    (same : SameSequence a b) : RowSequenced few before b := by
  obtain ⟨fits, writer, found, number⟩ := sequenced
  refine ⟨fits.congr same, writer, ?_, ?_⟩
  · rw [← same.snapshot, found]
  · rw [← same.sequence, number]

variable {version : FormatVersion}

theorem ListSequenced.mono {snapshot : Snapshot}
    (sequenced : ListSequenced version few before snapshot) (keeps : Includes few many)
    (grows : before.Extends after) : ListSequenced version many after snapshot := by
  obtain ⟨file, found, rows⟩ := sequenced
  exact ⟨file, grows.manifestList _ _ found, fun row member => (rows row member).mono keeps grows⟩

theorem ListSequenced.readable {snapshot : Snapshot}
    (sequenced : ListSequenced version few before snapshot) : Readable before snapshot := by
  obtain ⟨file, found, rows⟩ := sequenced
  refine ⟨file, found, fun row member => ?_⟩
  obtain ⟨manifest, here, -⟩ := (rows row member).fits
  rw [toVersion_path] at here
  exact ⟨manifest, here⟩

theorem TableSequenced.extends {last : Int} (sequenced : TableSequenced version few last before)
    (grows : before.Extends after) : TableSequenced version few last after :=
  ⟨fun id snapshot found => (sequenced.lists id snapshot found).mono (fun _ _ here => here) grows,
    sequenced.below⟩

end Monotone

/-! ### One operation -/

theorem DecodedAs.sameSequence {version : FormatVersion} {stored row : ManifestListEntry V}
    (decoded : DecodedAs version stored row) : SameSequence (stored.toVersion version) row := by
  refine ⟨?_, ?_, decoded.sequence.symm, decoded.least.symm⟩
  · rw [toVersion_path, decoded.path]
  · rw [decoded.snapshot]
    cases version <;> rfl

/-- The list a table writes is read with the version of the table. -/
theorem readVersion_self {file : ManifestListFile V} {version : FormatVersion}
    (same : file.formatVersion = version) : file.readVersion version = version := by
  unfold ManifestListFile.readVersion manifestListFormatVersion
  rw [same]
  cases version <;> rfl

section Operations

variable {metadata : TableMetadata} {entropy : Entropy} {store stored : Store V}
  {snapshot : Snapshot} {rows : List (ManifestListEntry V)}

/-- The list of a new snapshot, from the state in which everything is listed. -/
theorem Sequencing.listSequenced {uuid : String} {final : Assembly V}
    (done : Sequencing metadata snapshot.snapshotId uuid rows final)
    (versioned : metadata.formatVersion ≠ .v1)
    (known : ∀ row ∈ rows, ∃ writer, metadata.snapshots.lookup row.addedSnapshotId = some writer ∧
      row.sequenceNumber = writer.sequenceNumber)
    (sequence : snapshot.sequenceNumber = nextSequenceNumber metadata)
    (fresh : snapshot.snapshotId ∉ metadata.snapshots) :
    ListSequenced metadata.formatVersion
      (metadata.snapshots.insert snapshot.snapshotId snapshot)
      (final.store.putManifestList snapshot.manifestList final.output.writer) snapshot := by
  refine ⟨final.output.writer, Store.putManifestList_manifestList_self .., fun row member => ?_⟩
  rw [readVersion_self done.version]
  obtain ⟨fits, -, origin⟩ := done.listed row member
  have written : RowSequenced (metadata.snapshots.insert snapshot.snapshotId snapshot)
      (final.store.putManifestList snapshot.manifestList final.output.writer) row := by
    refine ⟨fits, ?_⟩
    rcases origin with ⟨old, within, id, number⟩ | ⟨id, number⟩
    · obtain ⟨writer, found, same⟩ := known old within
      rw [id, number]
      exact ⟨writer, includes_insert fresh _ _ found, same⟩
    · rw [id, number]
      exact ⟨snapshot, AList.lookup_insert .., sequence.symm⟩
  have same := toVersion_sameSequence row versioned
  exact written.congr ⟨same.path.symm, same.snapshot.symm, same.sequence.symm, same.least.symm⟩

variable [PartitionValue V]

/-- The rows an operation starts from have their sequence numbers. -/
theorem headRows_sequenced {old : Option Snapshot} {branch : Option String}
    (sequenced : TableSequenced metadata.formatVersion metadata.snapshots
      metadata.lastSequenceNumber store)
    (head : metadata.currentSnapshot branch = .ok old)
    (read : headRows metadata store old = .ok rows) :
    ∀ row ∈ rows, RowSequenced metadata.snapshots store row := by
  intro row member
  cases old with
  | none =>
    cases read
    exact absurd member List.not_mem_nil
  | some current =>
    obtain ⟨id, found⟩ := metadata.exists_lookup_of_currentSnapshot head _ rfl
    obtain ⟨file, here, fits⟩ := sequenced.lists id current found
    obtain ⟨same, there, decoded⟩ := headRows_decoded read
    obtain rfl := Option.some.inj (here.symm.trans there)
    obtain ⟨source, within, decodes⟩ := exists_of_mem_forall₂ decoded member
    exact (fits source within).congr decodes.sameSequence

/-- A rewritten list has its sequence numbers. -/
theorem WritesList.listSequenced {old : Option Snapshot} {branch : Option String}
    {loose : Multiset (ManifestContent × ManifestEntry V)} {final : Assembly V} {mixes : Prop}
    (writes : WritesList metadata store stored entropy mixes old loose snapshot rows final)
    (head : metadata.currentSnapshot branch = .ok old)
    (versioned : metadata.formatVersion ≠ .v1)
    (unused : store.Unused metadata.location entropy.writerUuid)
    (sequenced : TableSequenced metadata.formatVersion metadata.snapshots
      metadata.lastSequenceNumber store)
    (sequence : snapshot.sequenceNumber = nextSequenceNumber metadata)
    (numbered : ∀ x ∈ loose, ∀ number, x.2.sequenceNumber = some number →
      number = nextSequenceNumber metadata)
    (fresh : snapshot.snapshotId ∉ metadata.snapshots)
    (advances : metadata.lastSequenceNumber < snapshot.sequenceNumber) :
    ListSequenced metadata.formatVersion
      (metadata.snapshots.insert snapshot.snapshotId snapshot) stored snapshot := by
  have fits := headRows_sequenced sequenced head writes.read
  have manifests : ∀ row ∈ rows, ∃ manifest, store.manifest row.manifestPath = some manifest := by
    intro row member
    obtain ⟨manifest, here, -⟩ := (fits row member).fits
    exact ⟨manifest, here⟩
  have start : Sequencing metadata entropy.snapshotId entropy.writerUuid rows
      (Assembly.begin metadata store rows loose) := by
    refine ⟨rfl, begin_allBacked unused manifests loose, ?_, ?_, ?_⟩
    · intro row member
      have within : row ∈ rows := Multiset.mem_coe.mp member
      obtain ⟨bounds, writer, found, number⟩ := fits row within
      refine ⟨bounds, ?_, .inl ⟨row, within, rfl, rfl⟩⟩
      have below := sequenced.below _ writer found
      rw [number, ← sequence]
      omega
    · exact fun _ member => absurd member List.not_mem_nil
    · intro x member _ number own
      rw [numbered x member number own]
  have done := writes.assembles.sequencing versioned start
  rw [writes.stored]
  rw [← writes.id] at done
  exact done.listSequenced versioned (fun row member => (fits row member).writer) sequence fresh

/-- Every manifest of a replacement has its sequence numbers. -/
theorem writeReplacement_sequencing {avro : EntrySchema} {snapshotId : Int} {uuid : String}
    {before after : Store V × ManifestListFile V} {i : Nat} {part : List (ManifestEntry V)}
    (versioned : metadata.formatVersion ≠ .v1)
    (schema : avro.formatVersion = metadata.formatVersion)
    (numbered : ∀ entry ∈ part, entry.sequenceNumber = some (nextSequenceNumber metadata))
    (here : Sequencing metadata snapshotId uuid rows (replacing before i))
    (run : writeReplacement metadata avro snapshotId uuid before i part = .ok after) :
    Sequencing metadata snapshotId uuid rows (replacing after (i + 1)) := by
  have backed := writeReplacement_backed here.backed run
  have stores := writeReplacement_stores run
  obtain ⟨begun, filled, record, begins, fills, version, converts, rfl⟩ := writeReplacement_spec run
  have bounded : ∀ entry ∈ part, BoundedBy (nextSequenceNumber metadata) entry := by
    intro entry member _ number own
    rw [numbered entry member] at own
    exact le_of_eq (Option.some.inj own).symm
  have done := (new_beginsAt schema begins).fill versioned fills bounded
  refine ⟨here.version, backed, fun one member => absurd member (Multiset.notMem_zero one), ?_,
    fun x member => absurd member (Multiset.notMem_zero x)⟩
  intro one member
  rcases List.mem_append.mp member with old | new
  · exact (here.listed one old).stores (here.backed.listed one old) stores
  · obtain rfl := List.mem_singleton.mp new
    have placed : Placed metadata snapshotId rows ((replacing before i).wrote filled)
        filled.manifest := done.placed
    have current : filled.manifest.formatVersion ≠ .v1 := by
      rw [version]
      exact here.version ▸ versioned
    have recorded := placed.congr (toRecord_sameSequence converts current)
    exact ⟨recorded.fits, recorded.below, recorded.origin⟩

/-- A new list has its sequence numbers. -/
theorem WritesReplacement.listSequenced {avro : EntrySchema}
    {parts : List (List (ManifestEntry V))} {final : Store V × ManifestListFile V}
    (writes : WritesReplacement metadata store stored entropy avro parts snapshot final)
    (versioned : metadata.formatVersion ≠ .v1)
    (fresh : snapshot.snapshotId ∉ metadata.snapshots) :
    ListSequenced metadata.formatVersion
      (metadata.snapshots.insert snapshot.snapshotId snapshot) stored snapshot := by
  have done := writeReplacements_invariant
    (Sequencing metadata entropy.snapshotId entropy.uuid [])
    (fun before after i part member here step => writeReplacement_sequencing versioned writes.schema
      (writes.numbered part member) here step) writes.writes
    ⟨rfl, replacing_allBacked, fun one member => absurd member (Multiset.notMem_zero one),
      fun _ member => absurd member List.not_mem_nil,
      fun x member => absurd member (Multiset.notMem_zero x)⟩
  rw [writes.stored]
  rw [← writes.id] at done
  exact done.listSequenced versioned (fun _ member => absurd member List.not_mem_nil)
    writes.sequence fresh

/-- The list an operation writes has its sequence numbers, where it writes at most one sequence
group. -/
theorem Writes.listSequenced {operation : Operation V}
    (writes : Writes metadata store stored entropy operation snapshot)
    (single : operation.OneGroup) (versioned : metadata.formatVersion ≠ .v1)
    (unused : store.Unused metadata.location entropy.writerUuid)
    (sequenced : TableSequenced metadata.formatVersion metadata.snapshots
      metadata.lastSequenceNumber store)
    (fresh : snapshot.snapshotId ∉ metadata.snapshots)
    (advances : metadata.lastSequenceNumber < snapshot.sequenceNumber) :
    ListSequenced metadata.formatVersion
      (metadata.snapshots.insert snapshot.snapshotId snapshot) stored snapshot := by
  cases writes with
  | list old loose rows final branch head written numbered =>
    obtain ⟨sequence, entries⟩ := numbered single
    exact written.listSequenced head versioned unused sequenced sequence entries fresh advances
  | replacement avro parts final written => exact written.listSequenced versioned fresh

/-- Adding the snapshot an operation has written keeps the invariant. -/
theorem Writes.sequenced {operation : Operation V}
    (writes : Writes metadata store stored entropy operation snapshot)
    (single : operation.OneGroup) (versioned : metadata.formatVersion ≠ .v1)
    (unused : ∀ uuid ∈ [entropy.uuid, entropy.writerUuid], store.Unused metadata.location uuid)
    (sequenced : TableSequenced metadata.formatVersion metadata.snapshots
      metadata.lastSequenceNumber store)
    (fresh : snapshot.snapshotId ∉ metadata.snapshots)
    (advances : metadata.lastSequenceNumber < snapshot.sequenceNumber) :
    TableSequenced metadata.formatVersion (metadata.snapshots.insert snapshot.snapshotId snapshot)
      snapshot.sequenceNumber stored := by
  have own := unused entropy.writerUuid (by simp)
  have stores := writes.storesSnapshot own fun id head found => (sequenced.lists id head found).readable
  have grows := stores.changes.extends unused
  constructor
  · intro id other found
    by_cases same : id = snapshot.snapshotId
    · rw [same, AList.lookup_insert] at found
      obtain rfl := Option.some.inj found
      exact writes.listSequenced single versioned own sequenced fresh advances
    · rw [AList.lookup_insert_ne same] at found
      exact (sequenced.lists id other found).mono (includes_insert fresh) grows
  · intro id other found
    by_cases same : id = snapshot.snapshotId
    · rw [same, AList.lookup_insert] at found
      rw [Option.some.inj found]
    · rw [AList.lookup_insert_ne same] at found
      have below := sequenced.below id other found
      omega

end Operations

end IcebergRust

import IcebergRust.Table.Conserved
import IcebergRust.Transaction.Stored
import Mathlib.Data.Multiset.OrderedMonoid

/-!
# The live files of a snapshot

What an operation does to the live files that are reachable through the list of the head.

* `WritesList.files`: those of the new snapshot, and those the ledger accounts for, are the old
  ones and the new entries.
* `append_conserves_iff` is the statement for an append.  In an unpartitioned table of version 1 a
  candidate that is overtaken by a manifest without a row count is lost with its files.
-/

namespace IcebergRust

open Fallible ManifestListWriter

variable {V : Type}

/-- The live files reachable through the list of a snapshot. -/
def snapshotFiles (metadata : TableMetadata) (store : Store V) (snapshot : Snapshot) :
    Multiset (DataFile V) :=
  match store.manifestList snapshot.manifestList with
  | none => 0
  | some file => rowFiles metadata store (Multiset.ofList file.rows)

/-- The live files of a branch, which may have no snapshot. -/
def headFiles (metadata : TableMetadata) (store : Store V) : Option Snapshot → Multiset (DataFile V)
  | none => 0
  | some snapshot => snapshotFiles metadata store snapshot

/-- Files as they are counted. -/
def identities (version : FormatVersion) (files : List (DataFile V)) : Multiset (DataFile V) :=
  Multiset.ofList (files.map (·.identity version))

theorem identities_append (version : FormatVersion) (first second : List (DataFile V)) :
    identities version (first ++ second) = identities version first + identities version second := by
  rw [identities, List.map_append, ← Multiset.coe_add]
  rfl

theorem rowFiles_of_paths {metadata : TableMetadata} {store : Store V}
    {stored rows : List (ManifestListEntry V)}
    (paths : List.Forall₂ (fun stored row => row.manifestPath = stored.manifestPath) stored rows) :
    rowFiles metadata store (Multiset.ofList rows) =
      rowFiles metadata store (Multiset.ofList stored) := by
  induction paths with
  | nil => rfl
  | @cons first row stored rows path _ ih =>
    have same : filesAt metadata store row = filesAt metadata store first := filesAt_congr path rfl
    rw [← Multiset.cons_coe, ← Multiset.cons_coe, rowFiles_cons, rowFiles_cons, ih, same]

variable [PartitionValue V] {metadata : TableMetadata} {entropy : Entropy} {store stored : Store V}
  {mixes : Prop} {old : Option Snapshot} {rows : List (ManifestListEntry V)} {snapshot : Snapshot}

/-- The rows an operation starts from hold the files of the head. -/
theorem headFiles_eq (read : headRows metadata store old = .ok rows) :
    headFiles metadata store old = rowFiles metadata store (Multiset.ofList rows) := by
  cases old with
  | none =>
    cases read
    rfl
  | some head =>
    obtain ⟨file, found, decoded⟩ := headRows_decoded read
    have paths := decoded.imp fun _ _ decodes => decodes.path
    rw [headFiles, snapshotFiles, found, rowFiles_of_paths paths]

variable {loose : Multiset (ManifestContent × ManifestEntry V)}

/-- What an operation has done to the live files. -/
theorem WritesList.files {final : Assembly V}
    (writes : WritesList metadata store stored entropy mixes old loose snapshot rows final)
    (unused : store.Unused metadata.location entropy.writerUuid)
    (readable : ∀ head, old = some head → Readable store head) :
    snapshotFiles metadata stored snapshot + final.ledger.files metadata final.store =
      headFiles metadata store old + looseFiles metadata.formatVersion loose := by
  have backed := begin_allBacked unused (headRows_stored readable writes.read) loose
  have nothing : Ledger.Backed metadata.location entropy.writerUuid
      (Assembly.begin metadata store rows loose) := by
    constructor <;> exact fun _ member => absurd member (Multiset.notMem_zero _)
  have conserved := writes.assembles.conserved backed nothing
  have listed : snapshotFiles metadata stored snapshot =
      rowFiles metadata final.store (Multiset.ofList final.output.writer.rows) := by
    rw [snapshotFiles, writes.stored, Store.putManifestList_manifestList_self]
    rfl
  have start : (Assembly.begin metadata store rows loose).files metadata =
      rowFiles metadata store (Multiset.ofList rows) + looseFiles metadata.formatVersion loose := by
    unfold Assembly.files Assembly.begin
    rw [Ledger.files_empty, add_zero]
    exact congrArg _ (zero_add _)
  rw [start, ← headFiles_eq writes.read] at conserved
  unfold Assembly.files at conserved
  rw [writes.held, writes.loose, looseFiles_zero, rowFiles_zero, zero_add, zero_add] at conserved
  rw [listed, conserved]

/-- Rows the head has hold in the end what they held. -/
theorem WritesList.rowFiles_final {final : Assembly V}
    (writes : WritesList metadata store stored entropy mixes old loose snapshot rows final)
    (unused : store.Unused metadata.location entropy.writerUuid)
    (readable : ∀ head, old = some head → Readable store head)
    {some_ : Multiset (ManifestListEntry V)} (within : ∀ row ∈ some_, row ∈ rows) :
    rowFiles metadata final.store some_ = rowFiles metadata store some_ := by
  have fresh := freshFor_of_stored unused (headRows_stored readable writes.read)
  refine rowFiles_congr fun row member => filesAt_congr rfl ?_
  refine writes.assembles.changesOnly.manifest row.manifestPath ?_
  intro uuid drawn i
  rw [List.mem_singleton.mp drawn]
  exact fresh row (within row member) i

/-! ### Appends -/

section

omit [PartitionValue V]

/-- Candidates come from the rows. -/
theorem mem_of_mem_lostRows {lost : ManifestListEntry V} (member : lost ∈ lostRows rows) :
    lost ∈ rows := by
  unfold lostRows at member
  split at member
  · cases member
  · rcases List.mem_append.mp member with smallest | later
    · have first := List.argmin_mem (Option.mem_toList.mp smallest)
      exact (List.takeWhile_prefix _).subset first
    · have rest := List.mem_of_mem_filter (List.mem_of_mem_dropLast later)
      exact (List.dropWhile_suffix _).subset rest

theorem mem_of_mem_displacedRows {lost : ManifestListEntry V}
    (member : lost ∈ displacedRows metadata rows) : lost ∈ rows := by
  unfold displacedRows at member
  split at member
  · cases member
  · split at member
    · cases member
    · rcases List.mem_append.mp member with data | deletes
      · exact List.mem_of_mem_filter (mem_of_mem_lostRows data)
      · exact List.mem_of_mem_filter (mem_of_mem_lostRows deletes)

/-- New entries are live. -/
theorem liveFiles_addedEntries (sequenceNumber : Option Int) (files : List (DataFile V)) :
    liveFiles metadata.formatVersion (addedEntries metadata sequenceNumber files) =
      identities metadata.formatVersion files := by
  have live : ∀ entry ∈ addedEntries metadata sequenceNumber files, entry.live = true := by
    intro entry member
    obtain ⟨file, -, rfl⟩ := List.mem_map.mp member
    rfl
  rw [liveFiles, filesWhere, List.filter_eq_self.mpr live, addedEntries, List.map_map]
  rfl

theorem looseFiles_appendedEntries (dataFiles deleteFiles : List (DataFile V)) :
    looseFiles metadata.formatVersion (appendedEntries metadata dataFiles deleteFiles) =
      identities metadata.formatVersion (dataFiles ++ deleteFiles) := by
  rw [appendedEntries, looseFiles_add, looseFiles_tagged, looseFiles_tagged, identities_append,
    liveFiles_addedEntries, liveFiles_addedEntries]

theorem Ledger.files_lose (ledger : Ledger V) (lost : List (ManifestListEntry V)) :
    (ledger.lose lost).files metadata store =
      rowFiles metadata store (Multiset.ofList lost) + ledger.files metadata store := by
  unfold files lose
  rw [rowFiles_add, add_assoc]

theorem rowFiles_eq_zero {some_ : Multiset (ManifestListEntry V)} :
    rowFiles metadata store some_ = 0 ↔ ∀ row ∈ some_, filesAt metadata store row = 0 := by
  induction some_ using Multiset.induction_on with
  | empty => simp
  | cons row rest ih => rw [rowFiles_cons, add_eq_zero, ih, Multiset.forall_mem_cons]

end

/-- An append loses exactly the files of the candidates its selection loses. -/
theorem append_conserves_iff {branch : Option String} {dataFiles deleteFiles : List (DataFile V)}
    {additional : Option (HashMap String String)} {requirement : Option TableRequirement}
    {updates : List TableUpdate}
    (run : executeAppend metadata store entropy branch dataFiles deleteFiles additional =
      .ok (stored, requirement, updates))
    (head : metadata.currentSnapshot branch = .ok old)
    (read : headRows metadata store old = .ok rows)
    (readable : ∀ head, old = some head → Readable store head)
    (unused : store.Unused metadata.location entropy.writerUuid)
    (sent : .addSnapshot snapshot ∈ updates) :
    snapshotFiles metadata stored snapshot = headFiles metadata store old +
        identities metadata.formatVersion (dataFiles ++ deleteFiles) ↔
      ∀ row ∈ displacedRows metadata rows, filesAt metadata store row = 0 := by
  rcases @executeAppend_assembled V _ metadata False _ _ _ _ _ _ _ _ _ run with none_ | made
  · obtain ⟨-, -, -, -, rfl⟩ := none_
    cases sent
  · obtain ⟨old', snapshot', rows', final, head', commit, -, writes, ledger⟩ := made
    obtain rfl := Except.ok.inj (head.symm.trans head')
    obtain rfl := Except.ok.inj (read.symm.trans writes.read)
    obtain rfl : snapshot = snapshot' := by
      cases commit
      simpa using sent
    have files := writes.files unused readable
    have within : ∀ row ∈ Multiset.ofList (displacedRows metadata rows), row ∈ rows :=
      fun row member => mem_of_mem_displacedRows (Multiset.mem_coe.mp member)
    have lost := writes.rowFiles_final unused readable within
    rw [ledger, Ledger.files_lose, Ledger.files_empty, add_zero, lost,
      looseFiles_appendedEntries] at files
    rw [← files, left_eq_add, rowFiles_eq_zero]
    rfl

/-- A row of version 1 for a manifest with one file, with or without the count of its rows. -/
def rowOfOne (path : String) (addedRowsCount : Option Int) : ManifestListEntry LongValue where
  formatVersion := .v1
  manifestPath := path
  partitionSpecId := 0
  content := .data
  sequenceNumber := 0
  minSequenceNumber := 0
  addedSnapshotId := 1
  addedFilesCount := none
  existingFilesCount := none
  deletedFilesCount := none
  addedRowsCount
  existingRowsCount := none
  deletedRowsCount := none
  partitions := none
  keyMetadata := none
  firstRowId := none

/-- The snapshot of a table with one list. -/
def firstSnapshot : Snapshot where
  snapshotId := 1
  parentSnapshotId := none
  sequenceNumber := 0
  timestampMs := 0
  manifestList := "list.avro"
  summary := ⟨.append, ∅⟩
  schemaId := some 0
  firstRowId := none
  addedRows := none

/-- An unpartitioned table of version 1 at that snapshot. -/
def tableOfTwo : TableMetadata :=
  { longTable .v1 with
    snapshots := AList.singleton 1 firstSnapshot
    currentSnapshotId := some 1
    refs := AList.singleton "main" ⟨1, default⟩ }

/-- Two manifests with one file each. -/
def storeOfTwo (addedRowsCount : Option Int) : Store LongValue :=
  let file (path : String) : ManifestFile LongValue := ⟨.v1,
    ⟨0, none, ⟨[⟨1, "x", true, .primitive .long, none, none, none⟩]⟩⟩, ⟨0, []⟩,
    [⟨.v1, .added, some 1, none, longFile path 1⟩]⟩
  ((Store.empty.putManifestList "list.avro" ⟨.v1, [rowOfOne "a.avro" (some 1),
    rowOfOne "b.avro" addedRowsCount]⟩).putManifest "a.avro" (file "a")).putManifest "b.avro" (file "b")


/-- An append of one file to it. -/
def appendToTwo (addedRowsCount : Option Int) :
    Except Error (Store LongValue × Option TableRequirement × List TableUpdate) :=
  executeAppend tableOfTwo (storeOfTwo addedRowsCount) ⟨2, "u", "w", 0⟩ none [longFile "c" 1] [] none

/-- The numbers of live files of the snapshots of updates. -/
def filesAdded (stored : Store LongValue) (updates : List TableUpdate) : List Nat :=
  updates.filterMap fun update =>
    match update with
    | .addSnapshot snapshot => some (snapshotFiles tableOfTwo stored snapshot).card
    | _ => none

theorem storeOfTwo_readable (addedRowsCount : Option Int) :
    Readable (storeOfTwo addedRowsCount) firstSnapshot := by
  refine ⟨_, rfl, ?_⟩
  intro row member
  rcases List.mem_pair.mp member with rfl | rfl
  · exact ⟨_, rfl⟩
  · exact ⟨_, rfl⟩

theorem storeOfTwo_unused (addedRowsCount : Option Int) :
    (storeOfTwo addedRowsCount).Unused tableOfTwo.location "w" := by
  have apart (rest path : String) (differ : path.toList.head? ≠ some 's') :
      tableOfTwo.location ++ rest ≠ path := by
    rintro rfl
    exact differ (by rw [String.toList_append]; rfl)
  constructor
  · intro i
    have first := apart ("/metadata/" ++ "w" ++ "-m" ++ toString i ++ ".avro") "a.avro" (by decide)
    have second := apart ("/metadata/" ++ "w" ++ "-m" ++ toString i ++ ".avro") "b.avro" (by decide)
    simp only [← String.append_assoc] at first second
    unfold storeOfTwo newManifestLocation
    rw [Store.putManifest_manifest_of_ne _ _ second, Store.putManifest_manifest_of_ne _ _ first]
    rfl
  · intro id
    have only := apart ("/metadata/snap-" ++ toString id ++ "-" ++ toString (0 : Int) ++ "-" ++ "w" ++
      ".avro") "list.avro" (by decide)
    simp only [← String.append_assoc] at only
    unfold storeOfTwo newManifestListLocation
    rw [Store.putManifest_manifestList, Store.putManifest_manifestList]
    unfold Store.putManifestList
    dsimp only
    rw [if_neg only]
    rfl

theorem appendToTwo_sends {addedRowsCount : Option Int} {n : Nat}
    (sends : (appendToTwo addedRowsCount).map (fun done => filesAdded done.1 done.2.2) = .ok [n]) :
    ∃ stored requirement updates snapshot,
      appendToTwo addedRowsCount = .ok (stored, requirement, updates) ∧
        .addSnapshot snapshot ∈ updates ∧ (snapshotFiles tableOfTwo stored snapshot).card = n := by
  obtain ⟨⟨stored, requirement, updates⟩, run, files⟩ := map_eq_ok.mp sends
  have member : n ∈ filesAdded stored updates := by rw [files]; exact List.mem_singleton_self n
  obtain ⟨update, sent, here⟩ := List.mem_filterMap.mp member
  cases update with
  | addSnapshot snapshot =>
    exact ⟨stored, requirement, updates, snapshot, run, sent, Option.some.inj here⟩
  | _ => cases here

/-- With the counts of its rows all three files are there. -/
theorem appendToTwo_conserves : ∃ stored requirement updates snapshot,
    appendToTwo (some 2) = .ok (stored, requirement, updates) ∧ .addSnapshot snapshot ∈ updates ∧
      snapshotFiles tableOfTwo stored snapshot =
        headFiles tableOfTwo (storeOfTwo (some 2)) (some firstSnapshot) +
          identities .v1 ([longFile "c" 1] ++ []) := by
  obtain ⟨stored, requirement, updates, snapshot, run, sent, -⟩ :=
    @appendToTwo_sends (some 2) 3 (by decide +kernel)
  refine ⟨stored, requirement, updates, snapshot, run, sent, ?_⟩
  refine (append_conserves_iff run rfl rfl ?_ (storeOfTwo_unused _) sent).mpr ?_
  · rintro head ⟨⟩
    exact storeOfTwo_readable _
  · decide +kernel

/-- Without, the first manifest is lost. -/
theorem appendToTwo_loses : ∃ stored requirement updates snapshot,
    appendToTwo none = .ok (stored, requirement, updates) ∧ .addSnapshot snapshot ∈ updates ∧
      snapshotFiles tableOfTwo stored snapshot ≠
        headFiles tableOfTwo (storeOfTwo none) (some firstSnapshot) +
          identities .v1 ([longFile "c" 1] ++ []) := by
  obtain ⟨stored, requirement, updates, snapshot, run, sent, two⟩ :=
    @appendToTwo_sends none 2 (by decide +kernel)
  refine ⟨stored, requirement, updates, snapshot, run, sent, ?_⟩
  intro same
  have three := congrArg Multiset.card same
  rw [two] at three
  exact absurd three (by decide +kernel)

end IcebergRust

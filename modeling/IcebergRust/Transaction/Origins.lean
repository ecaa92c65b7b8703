import IcebergRust.Table.Origins
import IcebergRust.Transaction.Sequences

/-!
# What an operation adds to the files of a branch

The files of a snapshot an operation has written, in versions 2 and 3.

* `Store.origins` are the live files of a stored snapshot with their sequence numbers.
* `Renews` says where they come from: each was a file of the parent under the same number, or is
  one of the operation, numbered after everything the operation has read.
* `Wrote.renews`: every operation that writes a snapshot renews the files of its parent.
-/

namespace IcebergRust

open Fallible ManifestWriter

variable {V : Type}

/-! ### The files of a stored snapshot -/

/-- The rows of the list of a snapshot, as a table of a version reads them. -/
def Store.rowsOf (store : Store V) (version : FormatVersion) (snapshot : Snapshot) :
    List (ManifestListEntry V) :=
  match store.manifestList snapshot.manifestList with
  | some file => file.rows.map (·.toVersion (file.readVersion version))
  | none => []

/-- The live files of a snapshot, with their sequence numbers. -/
def Store.origins (store : Store V) (version : FormatVersion) (snapshot : Snapshot) :
    Multiset (DataFile V × Int) :=
  rowOrigins version store (Multiset.ofList (store.rowsOf version snapshot))

variable {snapshot : Snapshot} {operation : Operation V} {store : Store V} {version : FormatVersion}
  {rows : List (ManifestListEntry V)} {old : Option Snapshot}

theorem Store.rowsOf_eq {file : ManifestListFile V}
    (found : store.manifestList snapshot.manifestList = some file) (version : FormatVersion) :
    store.rowsOf version snapshot = file.rows.map (·.toVersion (file.readVersion version)) := by
  rw [Store.rowsOf, found]

theorem Readable.rowsOf {before after : Store V} (readable : Readable before snapshot)
    (grows : before.Extends after) (version : FormatVersion) :
    after.rowsOf version snapshot = before.rowsOf version snapshot := by
  obtain ⟨file, found, -⟩ := readable
  rw [Store.rowsOf_eq found, Store.rowsOf_eq (grows.manifestList _ _ found)]

/-- The manifests of a stored snapshot do not change. -/
theorem Readable.originsAt {before after : Store V} (readable : Readable before snapshot)
    (grows : before.Extends after) (version : FormatVersion) :
    ∀ row ∈ before.rowsOf version snapshot,
      originsAt version after row = originsAt version before row := by
  obtain ⟨file, found, manifests⟩ := readable
  intro row member
  rw [Store.rowsOf_eq found] at member
  obtain ⟨stored, within, rfl⟩ := List.mem_map.mp member
  obtain ⟨manifest, here⟩ := manifests stored within
  refine originsAt_congr rfl rfl ?_
  rw [toVersion_path, here, grows.manifest _ _ here]

theorem Readable.origins {before after : Store V} (readable : Readable before snapshot)
    (grows : before.Extends after) (version : FormatVersion) :
    after.origins version snapshot = before.origins version snapshot := by
  rw [Store.origins, Store.origins, readable.rowsOf grows]
  exact rowOrigins_congr fun row member =>
    readable.originsAt grows version row (Multiset.mem_coe.mp member)

theorem rowOrigins_forall₂ {first second : List (ManifestListEntry V)}
    (same : List.Forall₂ SameSequence first second) :
    rowOrigins version store (Multiset.ofList first) =
      rowOrigins version store (Multiset.ofList second) := by
  induction same with
  | nil => rfl
  | cons here _ ih =>
    rw [← Multiset.cons_coe, ← Multiset.cons_coe, rowOrigins_cons, rowOrigins_cons, ih,
      originsAt_congr here.path here.sequence rfl]

/-- The rows of a list of a version, read with that version. -/
theorem rowsOf_written {file : ManifestListFile V}
    (found : store.manifestList snapshot.manifestList = some file)
    (same : file.formatVersion = version) (versioned : version ≠ .v1) :
    List.Forall₂ SameSequence (store.rowsOf version snapshot) file.rows := by
  rw [Store.rowsOf_eq found, readVersion_self same, List.forall₂_map_left_iff, List.forall₂_same]
  exact fun row _ => toVersion_sameSequence row versioned

/-- The rows an operation starts from. -/
theorem headRows_rowsOf [PartitionValue V] {metadata : TableMetadata} {head : Snapshot}
    (read : headRows metadata store (some head) = .ok rows) :
    List.Forall₂ SameSequence (store.rowsOf metadata.formatVersion head) rows := by
  obtain ⟨file, found, decoded⟩ := headRows_decoded read
  rw [Store.rowsOf_eq found, List.forall₂_map_left_iff]
  exact decoded.imp fun stored row here => here.sameSequence

/-! ### New files -/

/-- The files an operation is given. -/
def Operation.files : Operation V → List (DataFile V)
  | .append _ dataFiles deleteFiles _ => dataFiles ++ deleteFiles
  | .appendSequenceGroups _ groups =>
    groups.flatMap fun group => group.dataFiles ++ group.deleteFiles
  | .replace _ files _ => files
  | .overwrite _ dataFiles _ _ => dataFiles
  | _ => []

/-- The sequence groups of an operation. -/
def Operation.groups : Operation V → List (SequenceGroup V)
  | .appendSequenceGroups _ groups => groups
  | _ => []

/-- A `Vec` has at most `isize::MAX` elements. -/
def Operation.Sized (operation : Operation V) : Prop :=
  operation.groups.length < 9223372036854775808

instance (operation : Operation V) : Decidable operation.Sized := Nat.decLt _ _

theorem wrapI64_of_le {n : Int} (positive : 0 ≤ n) (small : n ≤ maxI64) : wrapI64 n = n := by
  unfold maxI64 at small
  apply Int.bmod_eq_of_le <;> omega

/-- Adding to the last sequence number has not wrapped around where the sum is above it. -/
theorem wrapI64_add {last count : Int} (least : 0 ≤ last) (positive : 0 ≤ count)
    (sized : count ≤ maxI64) (above : last < wrapI64 (last + count)) :
    wrapI64 (last + count) = last + count := by
  have high := (wrapI64_range (last + count)).2
  by_cases small : last + count ≤ maxI64
  · exact wrapI64_of_le (by omega) small
  · have wrapped : wrapI64 (last + count) = last + count - 18446744073709551616 := by
      unfold maxI64 at *
      rw [wrapI64, ← Int.sub_bmod_right, Int.bmod_eq_of_le] <;> omega
    unfold maxI64 at sized
    omega

/-- Nothing below such a sum has wrapped around either. -/
theorem wrapI64_add_of_le {last count less : Int} (least : 0 ≤ last) (positive : 0 ≤ less)
    (below : less ≤ count) (sized : count ≤ maxI64) (above : last < wrapI64 (last + count)) :
    wrapI64 (last + less) = last + less := by
  have high := (wrapI64_range (last + count)).2
  rw [wrapI64_add least (positive.trans below) sized above] at high
  exact wrapI64_of_le (by omega) (by omega)

variable {metadata : TableMetadata}

theorem originsOf_perm {inherited : Int} {first second : List (ManifestEntry V)}
    (perm : first.Perm second) :
    originsOf version inherited first = originsOf version inherited second :=
  Multiset.coe_eq_coe.mpr ((perm.filter _).map _)

theorem originsOf_added {snapshotId sequenceNumber : Option Int} {inherited : Int}
    (files : List (DataFile V)) :
    originsOf metadata.formatVersion inherited
        (files.map (addedEntry metadata snapshotId sequenceNumber)) =
      Multiset.ofList (files.map fun file =>
        (file.identity metadata.formatVersion, sequenceNumber.getD inherited)) := by
  have live : (files.map (addedEntry metadata snapshotId sequenceNumber)).filter (·.live) =
      files.map (addedEntry metadata snapshotId sequenceNumber) := by
    rw [List.filter_eq_self]
    intro entry member
    obtain ⟨file, -, rfl⟩ := List.mem_map.mp member
    rfl
  rw [originsOf, live, List.map_map]
  rfl

/-- The files of an operation under numbers above what it has read. -/
structure NewFiles (metadata : TableMetadata) (operation : Operation V) (highest : Int)
    (came : Multiset (DataFile V × Int)) : Prop where
  files : came.map Prod.fst ≤
    Multiset.ofList (operation.files.map (·.identity metadata.formatVersion))
  above : ∀ x ∈ came, metadata.lastSequenceNumber < x.2
  below : ∀ x ∈ came, x.2 ≤ highest

theorem newFiles_zero (operation : Operation V) (highest : Int) :
    NewFiles metadata operation highest 0 :=
  ⟨Multiset.zero_le _, fun _ member => absurd member (Multiset.notMem_zero _),
    fun _ member => absurd member (Multiset.notMem_zero _)⟩

/-- All files of an operation under one number. -/
theorem newFiles_single {files : List (DataFile V)} {number : Int} (same : operation.files = files)
    (above : metadata.lastSequenceNumber < number) :
    NewFiles metadata operation number
      (Multiset.ofList (files.map fun file => (file.identity metadata.formatVersion, number))) := by
  have numbered : ∀ x ∈ Multiset.ofList
      (files.map fun file => (file.identity metadata.formatVersion, number)), x.2 = number := by
    intro x member
    obtain ⟨file, -, rfl⟩ := List.mem_map.mp (Multiset.mem_coe.mp member)
    rfl
  refine ⟨?_, fun x member => ?_, fun x member => (numbered x member).le⟩
  · rw [same, Multiset.map_coe, List.map_map]
    exact le_refl _
  · rw [numbered x member]
    exact above

/-- The files of sequence groups, and the numbers of the groups. -/
theorem groupEntries_origins (inherited : Int) (groups : List (SequenceGroup V)) (offset : Int) :
    (looseOrigins metadata.formatVersion inherited (groupEntries metadata offset groups)).map
        Prod.fst =
      Multiset.ofList ((groups.flatMap fun group => group.dataFiles ++ group.deleteFiles).map
        (·.identity metadata.formatVersion)) ∧
    ∀ x ∈ looseOrigins metadata.formatVersion inherited (groupEntries metadata offset groups),
      ∃ less, offset < less ∧ less ≤ offset + groups.length ∧
        x.2 = wrapI64 (metadata.lastSequenceNumber + less) := by
  induction groups generalizing offset with
  | nil => exact ⟨rfl, fun _ member => absurd member (Multiset.notMem_zero _)⟩
  | cons group groups ih =>
    obtain ⟨files, numbers⟩ := ih (offset + 1)
    rw [groupEntries, looseOrigins_add, looseOrigins_add, looseOrigins_tagged, looseOrigins_tagged,
      addedEntries, addedEntries, originsOf_added, originsOf_added]
    constructor
    · rw [Multiset.map_add, Multiset.map_add, files]
      simp [Function.comp_def, List.append_assoc]
    · have own {files : List (DataFile V)} {x : DataFile V × Int}
          (member : x ∈ Multiset.ofList (files.map fun file =>
            (file.identity metadata.formatVersion,
              (some (wrapI64 (metadata.lastSequenceNumber + (offset + 1)))).getD inherited))) :
          ∃ less, offset < less ∧ less ≤ offset + (group :: groups).length ∧
            x.2 = wrapI64 (metadata.lastSequenceNumber + less) := by
        obtain ⟨file, -, rfl⟩ := List.mem_map.mp (Multiset.mem_coe.mp member)
        refine ⟨offset + 1, by omega, ?_, rfl⟩
        rw [List.length_cons]
        omega
      intro x member
      rcases Multiset.mem_add.mp member with data | others
      · exact own data
      · rcases Multiset.mem_add.mp others with deletes | rest
        · exact own deletes
        · obtain ⟨less, above, below, same⟩ := numbers x rest
          refine ⟨less, by omega, ?_, same⟩
          rw [List.length_cons]
          omega

/-- The new entries of an operation are for its files, and numbered up to its snapshot. -/
theorem Operation.newFiles (least : 0 ≤ metadata.lastSequenceNumber) (sized : operation.Sized)
    (above : metadata.lastSequenceNumber < operation.sequenceNumber metadata) :
    NewFiles metadata operation (operation.sequenceNumber metadata)
      (looseOrigins metadata.formatVersion (nextSequenceNumber metadata)
        (operation.newEntries metadata)) := by
  cases operation with
  | append branch dataFiles deleteFiles additional =>
    have entries : looseOrigins metadata.formatVersion (nextSequenceNumber metadata)
        (appendedEntries metadata dataFiles deleteFiles) =
          Multiset.ofList ((dataFiles ++ deleteFiles).map fun file =>
            (file.identity metadata.formatVersion, nextSequenceNumber metadata)) := by
      rw [appendedEntries, looseOrigins_add, looseOrigins_tagged, looseOrigins_tagged,
        addedEntries, addedEntries, originsOf_added, originsOf_added, List.map_append,
        ← Multiset.coe_add]
      rfl
    rw [Operation.newEntries, entries]
    exact newFiles_single rfl above
  | overwrite branch dataFiles filesToOverwrite additional =>
    rw [Operation.newEntries, looseOrigins_tagged, addedEntries, originsOf_added]
    exact newFiles_single rfl above
  | appendSequenceGroups branch groups =>
    obtain ⟨files, numbers⟩ :=
      @groupEntries_origins _ metadata (nextSequenceNumber metadata) groups 0
    have few : (groups.length : Int) ≤ maxI64 := by
      have := show groups.length < 9223372036854775808 from sized
      unfold maxI64
      omega
    have sum : wrapI64 (metadata.lastSequenceNumber + groups.length) =
        metadata.lastSequenceNumber + groups.length :=
      wrapI64_add least (Int.natCast_nonneg _) few above
    have number : ∀ x ∈ looseOrigins metadata.formatVersion (nextSequenceNumber metadata)
        (groupEntries metadata 0 groups), metadata.lastSequenceNumber < x.2 ∧
          x.2 ≤ metadata.lastSequenceNumber + groups.length := by
      intro x member
      obtain ⟨less, positive, below, same⟩ := numbers x member
      rw [same, wrapI64_add_of_le least positive.le (by omega) few above]
      omega
    refine ⟨files.le, fun x member => (number x member).1, fun x member => ?_⟩
    rw [Operation.sequenceNumber, sum]
    exact (number x member).2
  | _ => exact newFiles_zero _ _

/-! ### New snapshots -/

/-- The live files of the parent of a snapshot, of which there may be none. -/
def Store.parentOrigins (store : Store V) (version : FormatVersion) :
    Option Snapshot → Multiset (DataFile V × Int)
  | some parent => store.origins version parent
  | none => 0

/-- A row of the parent of a snapshot, or one numbered above everything the operation has read. -/
def RowDescends (metadata : TableMetadata) (before : Store V) (parent : Option Snapshot)
    (row : ManifestListEntry V) : Prop :=
  (∃ head, parent = some head ∧ ∃ old ∈ before.rowsOf metadata.formatVersion head,
    row.manifestPath = old.manifestPath ∧ row.sequenceNumber = old.sequenceNumber) ∨
  metadata.lastSequenceNumber < row.sequenceNumber

/-- The files of a snapshot are some of those of its parent, and some of the operation. -/
structure Renews (metadata : TableMetadata) (before after : Store V) (operation : Operation V)
    (snapshot : Snapshot) (parent : Option Snapshot) (came : Multiset (DataFile V × Int)) :
    Prop where
  pointer : snapshot.parentSnapshotId = parent.map (·.snapshotId)
  known : ∀ head, parent = some head → ∃ id, metadata.snapshots.lookup id = some head
  new : NewFiles metadata operation snapshot.sequenceNumber came
  files : after.origins metadata.formatVersion snapshot ≤
    before.parentOrigins metadata.formatVersion parent + came
  rows : ∀ row ∈ after.rowsOf metadata.formatVersion snapshot, RowDescends metadata before parent row

variable [PartitionValue V] {store stored : Store V} {entropy : Entropy} {snapshot : Snapshot}

/-- The next sequence number is above the last one, unless nothing could be. -/
theorem nextSequenceNumber_above (least : 0 ≤ metadata.lastSequenceNumber)
    {number : Int} (bounded : number ≤ maxI64) (above : metadata.lastSequenceNumber < number) :
    metadata.lastSequenceNumber < nextSequenceNumber metadata := by
  have next : nextSequenceNumber metadata = metadata.lastSequenceNumber + 1 :=
    wrapI64_of_le (by omega) (by omega)
  omega

/-- The rows a rewritten list starts from. -/
theorem headRows_origins (read : headRows metadata store old = .ok rows) :
    rowOrigins metadata.formatVersion store (Multiset.ofList rows) =
      store.parentOrigins metadata.formatVersion old := by
  cases old with
  | none =>
    cases read
    rfl
  | some head => exact (rowOrigins_forall₂ (headRows_rowsOf read)).symm

/-- The rows of a rewritten list that it starts from are those of the head. -/
theorem mem_headRows (read : headRows metadata store old = .ok rows) {row : ManifestListEntry V}
    (member : row ∈ rows) :
    ∃ head, old = some head ∧ ∃ source ∈ store.rowsOf metadata.formatVersion head,
      SameSequence source row := by
  cases old with
  | none =>
    cases read
    exact absurd member List.not_mem_nil
  | some head => exact ⟨head, rfl, exists_of_mem_forall₂ (headRows_rowsOf read) member⟩

theorem WritesList.renews {branch : Option String} {final : Assembly V} {mixes : Prop}
    (written : WritesList metadata store stored entropy mixes old (operation.newEntries metadata)
      snapshot rows final) (head : metadata.currentSnapshot branch = .ok old)
    (sequence : snapshot.sequenceNumber = operation.sequenceNumber metadata)
    (versioned : metadata.formatVersion ≠ .v1) (least : 0 ≤ metadata.lastSequenceNumber)
    (sized : operation.Sized) (above : metadata.lastSequenceNumber < snapshot.sequenceNumber)
    (bounded : snapshot.sequenceNumber ≤ maxI64)
    (unused : store.Unused metadata.location entropy.writerUuid)
    (readable : ∀ id head, metadata.snapshots.lookup id = some head → Readable store head) :
    Renews metadata store stored operation snapshot old
      (looseOrigins metadata.formatVersion (nextSequenceNumber metadata)
        (operation.newEntries metadata)) := by
  have manifests := headRows_stored (Readable.of_currentSnapshot readable head) written.read
  have start : Tracking metadata entropy.writerUuid rows
      (Assembly.begin metadata store rows (operation.newEntries metadata)) :=
    ⟨rfl, begin_allBacked unused manifests _, fun row member =>
      .inl ⟨row, Multiset.mem_coe.mp member, rfl, rfl⟩, fun _ member => absurd member List.not_mem_nil⟩
  obtain ⟨done, fewer⟩ := written.assembles.origins_le versioned start
  have found : stored.manifestList snapshot.manifestList = some final.output.writer := by
    rw [written.stored]
    exact Store.putManifestList_manifestList_self ..
  have same := rowsOf_written found done.version versioned
  refine ⟨written.parent, metadata.exists_lookup_of_currentSnapshot head,
    sequence ▸ Operation.newFiles least sized (sequence ▸ above), ?_, ?_⟩
  · have whole : final.origins metadata = stored.origins metadata.formatVersion snapshot := by
      rw [Assembly.origins, written.held, written.loose, rowOrigins_zero, looseOrigins_zero, zero_add,
        add_zero, Store.origins, rowOrigins_forall₂ same, written.stored]
      exact (rowOrigins_congr fun row _ => rfl).symm
    rw [← whole, ← headRows_origins written.read]
    refine fewer.trans (le_of_eq ?_)
    rw [Assembly.origins]
    exact congrArg (_ + ·) (zero_add _)
  · intro row member
    obtain ⟨listed, within, here⟩ := exists_of_mem_forall₂ same.flip member
    rcases done.listed listed within with ⟨one, member, path, number⟩ | new
    · refine .inl ?_
      obtain ⟨parent, same, source, belongs, decoded⟩ := mem_headRows written.read member
      exact ⟨parent, same, source, belongs, (here.path.trans path).trans decoded.path.symm,
        (here.sequence.trans number).trans decoded.sequence.symm⟩
    · refine .inr ?_
      rw [here.sequence, new]
      exact nextSequenceNumber_above least bounded above

/-- The files and the rows of one more manifest of a replacement. -/
theorem writeReplacement_origins {avro : EntrySchema} {snapshotId : Int} {uuid : String}
    {before after : Store V × ManifestListFile V} {i : Nat} {part : List (ManifestEntry V)}
    (run : writeReplacement metadata avro snapshotId uuid before i part = .ok after)
    (versioned : metadata.formatVersion ≠ .v1) (schema : avro.formatVersion = metadata.formatVersion)
    (version : before.2.formatVersion = metadata.formatVersion)
    (here : AllBacked metadata.location uuid (replacing before i)) :
    after.2.formatVersion = metadata.formatVersion ∧
      (∀ row ∈ after.2.rows, row ∈ before.2.rows ∨
        row.sequenceNumber = nextSequenceNumber metadata) ∧
      rowOrigins metadata.formatVersion after.1 (Multiset.ofList after.2.rows) =
        rowOrigins metadata.formatVersion before.1 (Multiset.ofList before.2.rows) +
          originsOf metadata.formatVersion (nextSequenceNumber metadata) part := by
  have stores := writeReplacement_stores run
  obtain ⟨begun, filled, record, begins, fills, format, converts, rfl⟩ := writeReplacement_spec run
  obtain ⟨same, none, new⟩ := new_spec begins
  have sequence : filled.manifest.sequenceNumber = nextSequenceNumber metadata :=
    (fill_sequence fills).trans (by rw [new])
  have recorded := toRecord_sameSequence converts (by rwa [format, version])
  refine ⟨version, ?_, ?_⟩
  · intro row member
    rcases List.mem_append.mp member with old | last
    · exact .inl old
    · obtain rfl := List.mem_singleton.mp last
      exact .inr (recorded.sequence.trans sequence)
  · have stays : rowOrigins metadata.formatVersion
        (before.1.putManifest filled.manifest.manifestPath filled.file)
          (Multiset.ofList before.2.rows) =
        rowOrigins metadata.formatVersion before.1 (Multiset.ofList before.2.rows) :=
      rowOrigins_congr fun row member => originsAt_congr rfl rfl
        ((here.listed row (Multiset.mem_coe.mp member)).manifest stores)
    have own : originsAt metadata.formatVersion
        (before.1.putManifest filled.manifest.manifestPath filled.file) record =
          originsOf metadata.formatVersion (nextSequenceNumber metadata) part := by
      rw [originsAt_congr recorded.path recorded.sequence rfl,
        show originsAt _ (before.1.putManifest _ _) _ = _ from
          originsAt_wrote (replacing before i) sequence _,
        fill_origins fills (by rw [same, schema]) versioned, none, originsOf_nil, zero_add]
    have rows : Multiset.ofList (before.2.rows ++ [record]) =
        record ::ₘ Multiset.ofList before.2.rows := by
      rw [← Multiset.coe_add, add_comm]
      rfl
    rw [rows, rowOrigins_cons, own, stays, add_comm]

/-- The files and the rows of a replacement. -/
theorem writeReplacements_origins {avro : EntrySchema} {snapshotId : Int} {uuid : String}
    {parts : List (List (ManifestEntry V))} {before after : Store V × ManifestListFile V} {i : Nat}
    (run : writeReplacements metadata avro snapshotId uuid before i parts = .ok after)
    (versioned : metadata.formatVersion ≠ .v1) (schema : avro.formatVersion = metadata.formatVersion)
    (version : before.2.formatVersion = metadata.formatVersion)
    (here : AllBacked metadata.location uuid (replacing before i)) :
    after.2.formatVersion = metadata.formatVersion ∧
      (∀ row ∈ after.2.rows, row ∈ before.2.rows ∨
        row.sequenceNumber = nextSequenceNumber metadata) ∧
      rowOrigins metadata.formatVersion after.1 (Multiset.ofList after.2.rows) =
        rowOrigins metadata.formatVersion before.1 (Multiset.ofList before.2.rows) +
          originsOf metadata.formatVersion (nextSequenceNumber metadata) parts.flatten := by
  induction parts generalizing before i with
  | nil =>
    cases run
    exact ⟨version, fun _ => .inl, (add_zero _).symm⟩
  | cons part parts ih =>
    obtain ⟨next, first, rest⟩ := bind_eq_ok.mp run
    obtain ⟨format, rows, files⟩ := writeReplacement_origins first versioned schema version here
    obtain ⟨last, others, whole⟩ := ih rest format (writeReplacement_backed here first)
    refine ⟨last, fun row member => ?_, ?_⟩
    · rcases others row member with old | new
      · exact rows row old
      · exact .inr new
    · rw [whole, files, List.flatten_cons, originsOf_append, add_assoc]

theorem WritesReplacement.renews {avro : EntrySchema} {parts : List (List (ManifestEntry V))}
    {final : Store V × ManifestListFile V} {parent : Option Snapshot}
    (written : WritesReplacement metadata store stored entropy avro parts snapshot final)
    (files : parts.flatten.Perm (operation.replacement.map (addedEntry metadata
      (some entropy.snapshotId) (some (nextSequenceNumber metadata)))))
    (pointer : snapshot.parentSnapshotId = parent.map (·.snapshotId))
    (known : ∀ head, parent = some head → ∃ id, metadata.snapshots.lookup id = some head)
    (versioned : metadata.formatVersion ≠ .v1)
    (above : metadata.lastSequenceNumber < snapshot.sequenceNumber) :
    Renews metadata store stored operation snapshot parent
      (originsOf metadata.formatVersion (nextSequenceNumber metadata) parts.flatten) := by
  obtain ⟨version, rows, origins⟩ := writeReplacements_origins written.writes versioned
    written.schema rfl replacing_allBacked
  have found : stored.manifestList snapshot.manifestList = some final.2 := by
    rw [written.stored]
    exact Store.putManifestList_manifestList_self ..
  have same := rowsOf_written found version versioned
  refine ⟨pointer, known, ?_, ?_, ?_⟩
  · rw [originsOf_perm files, originsOf_added, written.sequence]
    cases operation with
    | replace branch files additional => exact newFiles_single rfl (written.sequence ▸ above)
    | _ => exact newFiles_zero _ _
  · rw [Store.origins, rowOrigins_forall₂ same, written.stored]
    have stays : rowOrigins metadata.formatVersion
        (final.1.putManifestList snapshot.manifestList final.2) (Multiset.ofList final.2.rows) =
          rowOrigins metadata.formatVersion final.1 (Multiset.ofList final.2.rows) :=
      rowOrigins_congr fun row _ => rfl
    rw [stays, origins]
    exact add_le_add (Multiset.zero_le _) (le_refl _)
  · intro row member
    obtain ⟨listed, within, here⟩ := exists_of_mem_forall₂ same.flip member
    refine .inr ?_
    rw [here.sequence, (rows listed within).resolve_left List.not_mem_nil, ← written.sequence]
    exact above

/-- Every operation that writes a snapshot renews the files of its parent. -/
theorem Wrote.renews (wrote : Wrote metadata store stored entropy operation snapshot)
    (versioned : metadata.formatVersion ≠ .v1) (least : 0 ≤ metadata.lastSequenceNumber)
    (sized : operation.Sized) (above : metadata.lastSequenceNumber < snapshot.sequenceNumber)
    (unused : store.Unused metadata.location entropy.writerUuid)
    (readable : ∀ id head, metadata.snapshots.lookup id = some head → Readable store head) :
    ∃ parent came, Renews metadata store stored operation snapshot parent came := by
  cases wrote with
  | list old rows final branch head written sequence =>
    refine ⟨old, _, written.renews head sequence versioned least sized above ?_ unused readable⟩
    rw [sequence]
    cases operation <;> exact (wrapI64_range _).2
  | replacement old avro parts final branch head written parent files =>
    have known := metadata.exists_lookup_of_currentSnapshot head
    cases operation with
    | replace other new additional =>
      exact ⟨none, _, written.renews files parent (fun _ none => by cases none) versioned above⟩
    | _ => exact ⟨old, _, written.renews files parent known versioned above⟩

end IcebergRust

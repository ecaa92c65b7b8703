import IcebergRust.Catalog.Incremental
import IcebergRust.Transaction.Changes

/-!
# Changes between snapshots

What `change_manifests` returns for a range of snapshots, in runs of data operations on a table of
version 2 or 3.

* `Brings` says of one snapshot which manifests are new in its list; `AllBring` says so of all
  snapshots of a table, whatever has run concurrently.
* `AllBring.changes`: the manifests counted as changed by a snapshot are those it wrote and that
  hold changes.
* `changesComplete`: the changes of a range are exactly those of the snapshots in it, if no accepted
  operation writes files in several sequence groups and no file counts have wrapped around to zero.
-/

namespace IcebergRust

open Fallible TableTransaction Optimistic

variable {V : Type}

/-! ### What the changes of a range are -/

/-- A snapshot wrote a manifest if it lists it and none of its ancestors does. -/
structure WroteManifest (metadata : TableMetadata) (world : Store V) (snapshot : Snapshot)
    (path : String) : Prop where
  listed : path ∈ world.listed snapshot
  new : ∀ first, Ancestor metadata first snapshot → first ≠ snapshot → path ∉ world.listed first

/-- A snapshot after another one on the way to a third. -/
structure SnapshotBetween (metadata : TableMetadata) (first last snapshot : Snapshot) : Prop where
  after : Ancestor metadata first snapshot
  apart : first ≠ snapshot
  before : Ancestor metadata snapshot last

/-- A manifest that a snapshot of a range wrote and that holds added or deleted entries. -/
def ChangedBetween (metadata : TableMetadata) (world : Store V) (first last : Snapshot)
    (path : String) : Prop :=
  ∃ snapshot, SnapshotBetween metadata first last snapshot ∧
    WroteManifest metadata world snapshot path ∧
    ∃ file, world.manifest path = some file ∧ file.changes = true

variable [PartitionValue V]

/-- What `change_manifests` returns from an ancestor of a snapshot to it: each manifest a snapshot in
between wrote and that holds changes, once, and no manifest of the ancestor or one of its own.  It
fails only where a list in between cannot be read. -/
structure ChangesExact (metadata : TableMetadata) (world : Store V) (start : Int)
    (finish : Option Int) (first last : Snapshot) : Prop where
  exact : ∀ fuel rows, changeManifests fuel metadata world (some start) finish = some (.ok rows) →
    (rows.map (·.manifestPath)).Nodup ∧
    (∀ path, path ∈ rows.map (·.manifestPath) ↔ ChangedBetween metadata world first last path) ∧
    ∀ earlier, Ancestor metadata earlier first →
      ∀ path ∈ world.listed earlier, path ∉ rows.map (·.manifestPath)
  total : ∃ fuel result, changeManifests fuel metadata world (some start) finish = some result ∧
    ∀ error, result = .error error → ∃ snapshot, SnapshotBetween metadata first last snapshot ∧
      readSnapshot snapshot metadata world = .error error

/-- All changes between a snapshot and an ancestor are returned, in every version of a table. -/
def ChangesComplete (state : TableState V) : Prop :=
  ∀ version ∈ state.versions, ∀ start first, version.snapshots.lookup start = some first →
    ∀ finish id last, changeEnd version finish = .ok (some id) →
      version.snapshots.lookup id = some last → Ancestor version first last →
        ChangesExact version state.world start finish first last

/-! ### Accepted commits -/

/-- All snapshots of accepted commits have been made for them. -/
def AllMade (state : TableState V) : Prop :=
  ∀ entry ∈ state.accepted, ∀ snapshot ∈ snapshotsOf entry,
    Made entry.proposal.base (entropyOf entry) (transactionOf entry).flatten (updatesSent entry)
      state.world snapshot

variable {state : TableState V} {snapshot : Snapshot}

theorem AllMade.prepare (made : AllMade state) (keeps : Keeps state) (age : Nat)
    (request : CommitRequest V)
    (names : FreshNames state.initial.location state.world request.names) :
    AllMade (step (tableProtocol V) state (.prepare age request)) := by
  obtain ⟨changes, -⟩ := keeps.prepare age request names
  have grows := changes.extends names.unused_flatten
  rcases step_prepare state age request with same | ⟨base, known, world, sent, prepared, same⟩
  · rw [same]
    exact made
  · rw [same] at grows ⊢
    intro entry member snapshot within
    have later := (made entry member snapshot within).mono grows []
    rwa [List.append_nil] at later

theorem AllMade.send (made : AllMade state) (tracing : Tracing state) (place : Nat) (now : Int) :
    AllMade (step (tableProtocol V) state (.send place now)) := by
  rcases step_send state place now with same | same | ⟨proposal, sent, next, applied, same⟩
  · rw [same]
    exact made
  · rw [same]
    exact made
  · rw [same]
    intro entry member
    rcases List.mem_cons.mp member with rfl | old
    · exact tracing.pending proposal sent
    · exact made entry old

theorem AllMade.run (made : AllMade state) (tracing : Tracing state) {events : List (TableEvent V)}
    (names : FreshNames state.initial.location state.world (namesDrawn events)) :
    AllMade (run (tableProtocol V) state events) := by
  refine (tracing.keeps.induction (P := fun state => Tracing state ∧ AllMade state) ?_ ?_
    ⟨tracing, made⟩ names).2.2
  · rintro state keeps ⟨tracing, made⟩ age request names
    exact ⟨tracing.prepare age request names, made.prepare keeps age request names⟩
  · rintro state - ⟨tracing, made⟩ place now
    exact ⟨tracing.send place now, made.send tracing place now⟩

/-! ### What a commit has read -/

section Lineage

variable {state : TableState V} {entry : AcceptedCommit V} {metadata : TableMetadata}
  {snapshot : Snapshot} {world : Store V}

omit [PartitionValue V] in
theorem mem_insertAll {added : List Snapshot} {snapshots : HashMap Int Snapshot} {id : Int}
    (member : id ∈ snapshots) :
    id ∈ added.foldl (fun map snapshot => map.insert snapshot.snapshotId snapshot) snapshots := by
  induction added generalizing snapshots with
  | nil => exact member
  | cons one added ih => exact ih ((AList.mem_insert _).mpr (.inr member))

omit [PartitionValue V] in
/-- Of the snapshots of a commit, those before one that is before another are before the latter. -/
theorem addedBy_before {updates done rest early late : List TableUpdate} {one other : Snapshot}
    (distinct : ((addedBy updates).map (·.snapshotId)).Nodup)
    (here : updates = done ++ .addSnapshot one :: rest)
    (there : updates = early ++ .addSnapshot other :: late) (member : other ∈ addedBy done) :
    ∀ earlier ∈ addedBy early, earlier ∈ addedBy done := by
  rcases List.append_eq_append_iff.mp (there.symm.trans here) with ⟨more, same, -⟩ |
    ⟨more, same, -⟩
  · intro earlier within
    rw [same, addedBy_append]
    exact List.mem_append_left _ within
  · rw [there, addedBy_append, List.map_append] at distinct
    have apart := (List.nodup_append.mp distinct).2.2
    have within : other ∈ addedBy early := by
      rw [same, addedBy_append]
      exact List.mem_append_left _ member
    exact absurd rfl (apart _ (List.mem_map_of_mem within) _ (List.mem_map_of_mem (a := other)
      (List.mem_cons_self)))

/-- A run of data operations whose snapshots have ids of their own. -/
structure DataRun (state : TableState V) : Prop where
  tracing : Tracing state
  made : AllMade state
  data : ∀ entry ∈ state.accepted, DataOnly (transactionOf entry)
  fresh : ∀ entry ∈ state.accepted, FreshIds entry

theorem Traced.follows {accepted : List (AcceptedCommit V)}
    (traced : Traced accepted metadata world snapshot) :
    ∃ parent last, FollowsParent metadata snapshot parent last := by
  obtain ⟨entry, read, before, after, operation, member, asked, sent, version, bounded, advances,
    wrote, unused, heads, writes, kept⟩ := traced
  obtain ⟨parent, settles⟩ := wrote.settles bounded.versioned unused fun id head found =>
    (heads id head found).2
  refine ⟨parent, read.lastSequenceNumber, bounded.least, advances, settles.pointer, ?_⟩
  intro head same
  obtain ⟨id, found⟩ := settles.known head same
  exact ⟨(heads id head found).1, bounded.sequences id head found⟩

namespace DataRun

variable (run : DataRun state)

include run

variable {version read : TableMetadata} {done rest : List TableUpdate}

theorem traced (member : version ∈ state.versions) {id : Int}
    (found : version.snapshots.lookup id = some snapshot) :
    Traced state.accepted version state.world snapshot :=
  run.tracing.traced (fun entry within => ⟨run.data entry within, run.fresh entry within⟩) version
    member id snapshot found

theorem history : TableHistory V state.initial state.accepted := run.tracing.keeps.formed.history

theorem keyed (member : version ∈ state.versions) : KeyedById version :=
  keyed_versions run.history run.data run.tracing.keyed version member

theorem keeps (member : version ∈ state.versions) : KeepsSnapshots version state.current :=
  keepsSnapshots_versions run.history run.data run.fresh version member

/-- A commit was prepared from a version, and left one. -/
theorem versions_of_mem (member : entry ∈ state.accepted) :
    entry.proposal.base ∈ state.versions ∧ entry.next ∈ state.versions := by
  have history := run.history
  constructor
  · obtain ⟨later, past, split⟩ := List.append_of_mem member
    rw [split] at history
    have known := (history.accepted_spec).2.1
    unfold State.versions Optimistic.versions at *
    rw [split, List.map_append, List.map_cons, List.append_assoc]
    exact List.mem_append_right _ (List.mem_cons_of_mem _ known)
  · exact List.mem_append_left _ (List.mem_map_of_mem member)

/-- The snapshots a commit has read are snapshots of the table. -/
theorem read_kept (member : entry ∈ state.accepted) (sent : updatesSent entry = done ++ rest)
    (reads : Reads entry.proposal.base read done) {id : Int}
    (found : read.snapshots.lookup id = some snapshot) :
    snapshot.snapshotId = id ∧
      state.current.snapshots.lookup snapshot.snapshotId = some snapshot := by
  obtain ⟨base, next⟩ := run.versions_of_mem member
  obtain ⟨performed, spec⟩ := run.history.spec_of_mem member
  rw [reads.effect.snapshots] at found
  rcases lookup_foldl_snapshots found with old | ⟨added, same⟩
  · have own := run.keyed base id snapshot old
    exact ⟨own, own ▸ run.keeps base id snapshot old⟩
  · refine ⟨same, run.keeps next _ _ ?_⟩
    rw [spec.snapshots (run.data entry member)]
    refine lookup_insertAll_of_mem (run.fresh entry member).1 ?_
    rw [snapshotsOf, sent, addedBy_append]
    exact List.mem_append_left _ added

/-- The parents of the snapshots a commit has read are among them. -/
theorem read_closed (member : entry ∈ state.accepted) {one : Snapshot}
    (sent : updatesSent entry = done ++ .addSnapshot one :: rest)
    (reads : Reads entry.proposal.base read done) {id parent : Int}
    (found : read.snapshots.lookup id = some snapshot)
    (pointer : snapshot.parentSnapshotId = some parent) : parent ∈ read.snapshots := by
  obtain ⟨base, -⟩ := run.versions_of_mem member
  obtain ⟨performed, spec⟩ := run.history.spec_of_mem member
  obtain ⟨distinct, -⟩ := run.fresh entry member
  have only : OnlySnapshots done := fun update within =>
    spec.onlySnapshots (run.data entry member) update (sent ▸ List.mem_append_left _ within)
  rw [reads.effect.snapshots] at found ⊢
  rw [snapshots_of_onlySnapshots only]
  rcases lookup_foldl_snapshots found with old | ⟨added, -⟩
  · obtain ⟨head, last, follows⟩ := (run.traced base old).follows
    have own := follows.pointer
    rw [pointer] at own
    cases head with
    | none => cases own
    | some head =>
      obtain rfl := Option.some.inj own
      have known := (follows.known head rfl).1
      exact mem_insertAll (AList.lookup_isSome.mp (Option.isSome_iff_exists.mpr ⟨head, known⟩))
  · have within : snapshot ∈ snapshotsOf entry := by
      rw [snapshotsOf, sent, addedBy_append]
      exact List.mem_append_left _ added
    obtain ⟨other, before, after, operation, early, late, asked, there, earlier, bounded, wrote,
      unused, readable, writes, kept⟩ := run.made entry member snapshot within
    rw [← earlier.location] at unused
    obtain ⟨head, settles⟩ := wrote.settles bounded.versioned unused readable
    have own := settles.pointer
    rw [pointer] at own
    cases head with
    | none => cases own
    | some head =>
      obtain rfl := Option.some.inj own
      obtain ⟨place, known⟩ := settles.known head rfl
      obtain ⟨rfl, -⟩ := run.read_kept member there earlier known
      rw [earlier.effect.snapshots] at known
      rcases lookup_foldl_snapshots known with old | ⟨new, -⟩
      · exact mem_insertAll (AList.lookup_isSome.mp (Option.isSome_iff_exists.mpr ⟨head, old⟩))
      · have prior := addedBy_before distinct sent there added head new
        refine AList.lookup_isSome.mp ?_
        rw [lookup_insertAll_of_mem ?_ prior]
        · rfl
        · rw [snapshotsOf, sent, addedBy_append, List.map_append] at distinct
          exact (List.nodup_append.mp distinct).1

/-- The ancestors of a snapshot a commit has read are among the snapshots it has read. -/
theorem read_ancestor (member : entry ∈ state.accepted) {one : Snapshot}
    (sent : updatesSent entry = done ++ .addSnapshot one :: rest)
    (reads : Reads entry.proposal.base read done) {first : Snapshot}
    (earlier : Ancestor state.current first snapshot)
    (found : ∃ id, read.snapshots.lookup id = some snapshot) :
    ∃ id, read.snapshots.lookup id = some first := by
  induction earlier with
  | self => exact found
  | @parent pointed parent snapshot pointer here _ ih =>
    obtain ⟨id, known⟩ := found
    have within := run.read_closed member sent reads known pointer
    obtain ⟨head, points⟩ := Option.isSome_iff_exists.mp (AList.lookup_isSome.mpr within)
    obtain ⟨named, stays⟩ := run.read_kept member sent reads points
    rw [named, here] at stays
    obtain rfl := Option.some.inj stays
    exact ih ⟨pointed, points⟩

end DataRun

end Lineage

/-! ### New manifests -/

/-- What the list of a snapshot has in common with that of its parent, and what is new in it. -/
structure Brings (metadata : TableMetadata) (world : Store V) (snapshot : Snapshot)
    (parent : Option Snapshot) (last : Int) : Prop
    extends FollowsParent metadata snapshot parent last where
  rows : ∀ row ∈ world.rowsOf metadata.formatVersion snapshot,
    (∃ head, parent = some head ∧ ∃ old ∈ world.rowsOf metadata.formatVersion head,
      row.manifestPath = old.manifestPath ∧ row.addedSnapshotId = old.addedSnapshotId) ∨
    ((∀ first, Ancestor metadata first snapshot → first ≠ snapshot →
        row.manifestPath ∉ world.listed first) ∧
      row.addedSnapshotId = snapshot.snapshotId ∧ CountsManifest world row)
  distinct : (∀ head, parent = some head → (world.listed head).Nodup) →
    (world.listed snapshot).Nodup

omit [PartitionValue V] in
theorem Ancestor.mono {few many : TableMetadata} (keeps : KeepsSnapshots few many)
    {first : Snapshot} (earlier : Ancestor few first snapshot) : Ancestor many first snapshot := by
  induction earlier with
  | self => exact .self
  | parent pointer found _ ih => exact .parent pointer (keeps _ _ found) ih

omit [PartitionValue V] in
theorem Readable.listed {before after : Store V} (readable : Readable before snapshot)
    (grows : before.Extends after) :
    after.listed snapshot = before.listed snapshot ∧
      ∀ path ∈ before.listed snapshot, before.manifest path ≠ none := by
  obtain ⟨file, found, manifests⟩ := readable
  rw [Store.listed_eq found, Store.listed_eq (grows.manifestList _ _ found)]
  refine ⟨rfl, fun path member => ?_⟩
  obtain ⟨row, within, rfl⟩ := List.mem_map.mp member
  obtain ⟨manifest, here⟩ := manifests row within
  rw [here]
  exact Option.some_ne_none manifest

/-- Every snapshot brings in what is new in its list. -/
theorem DataRun.brings (run : DataRun state) {version : TableMetadata}
    (member : version ∈ state.versions) {id : Int}
    (found : version.snapshots.lookup id = some snapshot) :
    ∃ parent last, Brings version state.world snapshot parent last := by
  have traced := run.traced member found
  obtain ⟨parent, last, follows⟩ := traced.follows
  have same := formatVersion_versions run.history
  obtain ⟨entry, -, -, -, -, accepted, -, within, -⟩ := traced
  obtain ⟨read, before, after, operation, done, rest, asked, sent, reads, bounded, wrote, unused,
    readable, writes, kept⟩ := run.made entry accepted snapshot within
  obtain ⟨base, -⟩ := run.versions_of_mem accepted
  have format : read.formatVersion = version.formatVersion := by
    rw [reads.effect.formatVersion, same _ base, same _ member]
  rw [← reads.location] at unused
  have stored := (wrote.storesSnapshot (unused _ (by simp [Entropy.names])) readable).readable
  have grows := writes.trans kept
  obtain ⟨head, settles⟩ := wrote.settles bounded.versioned unused readable
  have known : ∀ one, head = some one → ∃ place, read.snapshots.lookup place = some one ∧
      state.current.snapshots.lookup one.snapshotId = some one := by
    intro one here
    obtain ⟨place, points⟩ := settles.known one here
    exact ⟨place, points, (run.read_kept accepted sent reads points).2⟩
  have parents : parent = head := by
    have pointer := follows.pointer.symm.trans settles.pointer
    cases head with
    | none => exact Option.map_eq_none_iff.mp pointer
    | some one =>
      obtain ⟨other, rfl, named⟩ := Option.map_eq_some_iff.mp pointer
      obtain ⟨place, -, stays⟩ := known one rfl
      have here := run.keeps member _ _ (follows.known other rfl).1
      rw [named, stays] at here
      exact here.symm
  subst parents
  have proper : ∀ first, Ancestor version first snapshot → first ≠ snapshot →
      Readable before first := by
    intro first earlier apart
    cases earlier with
    | self => exact absurd rfl apart
    | @parent pointed one _ pointer here earlier =>
      have own := settles.pointer
      rw [pointer] at own
      cases parent with
      | none => cases own
      | some other =>
        obtain rfl := Option.some.inj own
        rw [(follows.known other rfl).1] at here
        obtain rfl := Option.some.inj here
        obtain ⟨place, points, -⟩ := known other rfl
        obtain ⟨id, among⟩ := run.read_ancestor accepted sent reads (earlier.mono (run.keeps member))
          ⟨place, points⟩
        exact readable id first among
  have parentList : ∀ one, parent = some one → Readable before one := by
    intro one here
    obtain ⟨place, points, -⟩ := known one here
    exact readable place one points
  refine ⟨parent, last, follows, ?_, fun alone => ?_⟩
  · intro row within
    rw [stored.rowsOf kept, ← format] at within
    rcases settles.rows row within with ⟨one, here, old, belongs, path, added⟩ |
      ⟨absent, added, file, here, counts⟩
    · refine .inl ⟨one, here, old, ?_, path, added⟩
      rwa [(parentList one here).rowsOf grows, ← format]
    · refine .inr ⟨fun first earlier apart listed => ?_, added, file, kept.manifest _ _ here, counts⟩
      obtain ⟨same, present⟩ := (proper first earlier apart).listed grows
      exact present _ (same ▸ listed) absent
  · rw [(stored.listed kept).1]
    exact settles.distinct fun one here => ((parentList one here).listed grows).1 ▸ alone one here

/-! ### The changes of one snapshot -/

/-- Every snapshot of a table brings in what is new in its list. -/
def AllBring (metadata : TableMetadata) (world : Store V) : Prop :=
  ∀ id snapshot, metadata.snapshots.lookup id = some snapshot →
    ∃ parent last, Brings metadata world snapshot parent last

/-- The file counts of all manifests in the lists of a table tell whether they hold changes. -/
def CountsTell (metadata : TableMetadata) (world : Store V) : Prop :=
  ∀ one ∈ metadata.snapshots.entries, ∀ path ∈ world.listed one.2,
    ∀ file ∈ world.manifest path, file.CountsTell

instance (metadata : TableMetadata) (world : Store V) : Decidable (CountsTell metadata world) :=
  inferInstanceAs (Decidable (∀ one ∈ metadata.snapshots.entries, ∀ path ∈ world.listed one.2,
    ∀ file ∈ world.manifest path, file.CountsTell))

omit [PartitionValue V] in
theorem CountsTell.of_lookup {metadata : TableMetadata} {world : Store V}
    (tell : CountsTell metadata world) {id : Int}
    (found : metadata.snapshots.lookup id = some snapshot) {path : String}
    (listed : path ∈ world.listed snapshot) {file : ManifestFile V}
    (here : world.manifest path = some file) : file.CountsTell :=
  tell ⟨id, snapshot⟩ (AList.mem_lookup_iff.mp found) path listed file here

section Lists

variable {metadata : TableMetadata} {world : Store V} {snapshot : Snapshot} {id : Int}

section

omit [PartitionValue V]

theorem AllBring.follow (all : AllBring metadata world) : AllFollow metadata := by
  intro id snapshot found
  obtain ⟨parent, last, brings⟩ := all id snapshot found
  exact ⟨parent, last, brings.toFollowsParent⟩

/-- No list has a manifest twice. -/
theorem AllBring.nodup (all : AllBring metadata world)
    (found : metadata.snapshots.lookup id = some snapshot) : (world.listed snapshot).Nodup := by
  refine all.follow.induction (P := fun snapshot => (world.listed snapshot).Nodup)
    (fun id snapshot found before => ?_) found
  obtain ⟨parent, last, brings⟩ := all id snapshot found
  refine brings.distinct fun head same => ?_
  obtain ⟨here, below⟩ := brings.known head same
  exact before _ head here (below.trans_lt brings.above)

/-- The snapshot that added a manifest to a list is an ancestor. -/
theorem AllBring.added (all : AllBring metadata world)
    (found : metadata.snapshots.lookup id = some snapshot) :
    ∀ row ∈ world.rowsOf metadata.formatVersion snapshot,
      ∃ first, Ancestor metadata first snapshot ∧ first.snapshotId = row.addedSnapshotId := by
  refine all.follow.induction (P := fun snapshot =>
    ∀ row ∈ world.rowsOf metadata.formatVersion snapshot,
      ∃ first, Ancestor metadata first snapshot ∧ first.snapshotId = row.addedSnapshotId)
    (fun id snapshot found before row member => ?_) found
  obtain ⟨parent, last, brings⟩ := all id snapshot found
  rcases brings.rows row member with ⟨head, rfl, old, belongs, -, same⟩ | ⟨-, same, -⟩
  · obtain ⟨here, below⟩ := brings.known head rfl
    obtain ⟨first, earlier, own⟩ := before _ head here (below.trans_lt brings.above) old belongs
    exact ⟨first, .parent brings.pointer here earlier, own.trans same.symm⟩
  · exact ⟨snapshot, .self, same.symm⟩

theorem Ancestor.found {first : Snapshot} (earlier : Ancestor metadata first snapshot)
    (found : metadata.snapshots.lookup id = some snapshot) :
    ∃ place, metadata.snapshots.lookup place = some first := by
  induction earlier generalizing id with
  | self => exact ⟨id, found⟩
  | parent pointer here _ ih => exact ih here

theorem mem_listed_of_mem_rowsOf {version : FormatVersion} {row : ManifestListEntry V}
    (member : row ∈ world.rowsOf version snapshot) : row.manifestPath ∈ world.listed snapshot := by
  rw [← rowsOf_paths world version]
  exact List.mem_map_of_mem member

theorem ListSequenced.row {version : FormatVersion} {snapshots : HashMap Int Snapshot}
    (sequenced : ListSequenced version snapshots world snapshot) {row : ManifestListEntry V}
    (member : row ∈ world.rowsOf version snapshot) : RowSequenced snapshots world row := by
  obtain ⟨file, found, rows⟩ := sequenced
  rw [Store.rowsOf_eq found] at member
  obtain ⟨stored, within, rfl⟩ := List.mem_map.mp member
  exact rows stored within

/-- The rows a snapshot has changed are those of the manifests it wrote that hold changes. -/
theorem AllBring.changed (all : AllBring metadata world) (keyed : KeyedById metadata)
    (sequenced : ListSequenced metadata.formatVersion metadata.snapshots world snapshot)
    (tell : CountsTell metadata world) (found : metadata.snapshots.lookup id = some snapshot)
    {row : ManifestListEntry V} (member : row ∈ world.rowsOf metadata.formatVersion snapshot) :
    changedBy snapshot row = true ↔ WroteManifest metadata world snapshot row.manifestPath ∧
      ∃ file, world.manifest row.manifestPath = some file ∧ file.changes = true := by
  have listed := mem_listed_of_mem_rowsOf member
  obtain ⟨-, writer, writes, number⟩ := sequenced.row member
  obtain ⟨parent, last, brings⟩ := all id snapshot found
  rcases brings.rows row member with ⟨head, rfl, old, belongs, path, same⟩ | ⟨new, same, counts⟩
  · obtain ⟨here, below⟩ := brings.known head rfl
    have above := brings.above
    constructor
    · intro changed
      obtain ⟨first, earlier, own⟩ := all.added here old belongs
      obtain ⟨place, points⟩ := earlier.found here
      obtain rfl := keyed place first points
      rw [same, ← own, points] at writes
      obtain rfl := Option.some.inj writes
      have less : first.sequenceNumber ≤ head.sequenceNumber := by
        rcases all.follow.sequence here earlier with rfl | less
        · exact le_refl _
        · exact less.le
      have equal : row.sequenceNumber = snapshot.sequenceNumber := by
        rw [changedBy, Bool.and_eq_true, decide_eq_true_eq] at changed
        exact changed.1
      omega
    · rintro ⟨wrote, -⟩
      refine absurd (path ▸ mem_listed_of_mem_rowsOf belongs) (wrote.new head
        (.parent brings.pointer here .self) ?_)
      rintro rfl
      omega
  · obtain rfl := keyed id snapshot found
    rw [same, found] at writes
    obtain rfl := Option.some.inj writes
    obtain ⟨file, here, -⟩ := id counts
    refine (changedBy_iff counts here (tell.of_lookup found listed here) number).trans
      ⟨fun changes => ⟨⟨listed, new⟩, file, here, changes⟩, ?_⟩
    rintro ⟨-, other, there, changes⟩
    rw [here] at there
    exact Option.some.inj there ▸ changes

/-- The summaries of partitions do not say what has changed. -/
theorem paths_changedBy {rows read : List (ManifestListEntry V)}
    (same : List.Forall₂ (fun row read => ∃ partitions, read = { row with partitions }) rows read) :
    (read.filter (changedBy snapshot)).map (·.manifestPath) =
      (rows.filter (changedBy snapshot)).map (·.manifestPath) := by
  induction same with
  | nil => rfl
  | @cons row read rows others here _ ih =>
    obtain ⟨partitions, rfl⟩ := here
    have alike : changedBy snapshot { row with partitions } = changedBy snapshot row := rfl
    rw [List.filter_cons, List.filter_cons, alike]
    by_cases changed : changedBy snapshot row = true
    · rw [if_pos changed, if_pos changed, List.map_cons, List.map_cons, ih]
    · rw [if_neg changed, if_neg changed, ih]

end

/-- The manifests counted as changed by a snapshot are those it wrote that hold changes, each
once. -/
theorem AllBring.changes (all : AllBring metadata world) (keyed : KeyedById metadata)
    (sequenced : ListSequenced metadata.formatVersion metadata.snapshots world snapshot)
    (tell : CountsTell metadata world) (found : metadata.snapshots.lookup id = some snapshot)
    {rows : List (ManifestListEntry V)} (run : snapshotChanges metadata world id = .ok rows) :
    (rows.map (·.manifestPath)).Nodup ∧ ∀ path, path ∈ rows.map (·.manifestPath) ↔
      WroteManifest metadata world snapshot path ∧
        ∃ file, world.manifest path = some file ∧ file.changes = true := by
  simp only [snapshotChanges, found, map_eq_ok] at run
  obtain ⟨read, reads, rfl⟩ := run
  rw [paths_changedBy (readSnapshot_rows reads)]
  constructor
  · have whole := all.nodup found
    rw [← rowsOf_paths world metadata.formatVersion] at whole
    exact whole.sublist (List.filter_sublist.map _)
  · intro path
    rw [List.mem_map]
    constructor
    · rintro ⟨row, member, rfl⟩
      obtain ⟨within, changed⟩ := List.mem_filter.mp member
      exact (all.changed keyed sequenced tell found within).mp changed
    · rintro ⟨wrote, changes⟩
      have listed := wrote.listed
      rw [← rowsOf_paths world metadata.formatVersion] at listed
      obtain ⟨row, within, rfl⟩ := List.mem_map.mp listed
      refine ⟨row, List.mem_filter.mpr ⟨within, ?_⟩, rfl⟩
      exact (all.changed keyed sequenced tell found within).mpr ⟨wrote, changes⟩

end Lists

/-! ### The walk -/

section Walk

variable {metadata : TableMetadata} {first last : Snapshot} {start current : Int}

theorem AllFollow.antisymm (all : AllFollow metadata)
    (found : metadata.snapshots.lookup current = some last) (one : Ancestor metadata first last)
    (other : Ancestor metadata last first) : first = last := by
  rcases all.sequence found one with same | less
  · exact same
  · obtain ⟨place, here⟩ := one.found found
    rcases all.sequence here other with same | more
    · exact same.symm
    · omega

/-- The walk to an ancestor visits the snapshots after it, newest first. -/
theorem walkParents_spec (all : AllFollow metadata) (keyed : KeyedById metadata)
    (known : metadata.snapshots.lookup start = some first)
    (found : metadata.snapshots.lookup current = some last) (earlier : Ancestor metadata first last)
    {fuel : Nat} {walked : Except Error (List Int)}
    (run : walkParents metadata (some start) fuel current = some walked) :
    ∃ visited : List Snapshot, walked = .ok (visited.map (·.snapshotId)) ∧
      (∀ snapshot, snapshot ∈ visited ↔ SnapshotBetween metadata first last snapshot) ∧
      visited.Pairwise fun newer older => Ancestor metadata older newer ∧ older ≠ newer := by
  induction fuel generalizing current last walked with
  | zero => cases run
  | succ fuel ih =>
    rw [walkParents] at run
    by_cases same : some start = some current
    · rw [if_pos same] at run
      cases run
      obtain rfl := Option.some.inj same
      rw [known] at found
      obtain rfl := Option.some.inj found
      refine ⟨[], rfl, fun snapshot => ⟨fun member => absurd member List.not_mem_nil, ?_⟩, .nil⟩
      rintro ⟨after, apart, before⟩
      exact absurd (all.antisymm known before after).symm apart
    · rw [if_neg same, found] at run
      obtain rfl := keyed current last found
      cases earlier with
      | self =>
        refine absurd (congrArg some ?_) same
        exact (keyed start first known).symm
      | @parent pointed parent _ pointer here earlier =>
        dsimp only at run
        rw [pointer] at run
        obtain ⟨rest, walks, rfl⟩ := Option.map_eq_some_iff.mp run
        obtain ⟨visited, rfl, members, ordered⟩ := ih here earlier walks
        have newest : ∀ snapshot, Ancestor metadata snapshot parent →
            Ancestor metadata snapshot last ∧ snapshot ≠ last := by
          intro snapshot before
          have less := all.parent_lt found pointer here
          refine ⟨.parent pointer here before, ?_⟩
          rintro rfl
          rcases all.sequence here before with rfl | smaller <;> omega
        refine ⟨last :: visited, rfl, fun snapshot => ?_, ?_⟩
        · rw [List.mem_cons, members]
          constructor
          · rintro (rfl | ⟨after, apart, before⟩)
            · exact ⟨.parent pointer here earlier, (newest first earlier).2, .self⟩
            · exact ⟨after, apart, (newest snapshot before).1⟩
          · rintro ⟨after, apart, before⟩
            cases before with
            | self => exact .inl rfl
            | parent other there before =>
              rw [pointer] at other
              obtain rfl := Option.some.inj other
              rw [here] at there
              obtain rfl := Option.some.inj there
              exact .inr ⟨after, apart, before⟩
        · refine List.pairwise_cons.mpr ⟨fun older member => ?_, ordered⟩
          exact newest older ((members older).mp member).before

theorem walkParents_total (keyed : KeyedById metadata)
    (known : metadata.snapshots.lookup start = some first)
    (found : metadata.snapshots.lookup current = some last)
    (earlier : Ancestor metadata first last) :
    ∃ fuel walked, walkParents metadata (some start) fuel current = some walked := by
  induction earlier generalizing current with
  | self =>
    obtain rfl := keyed start first known
    obtain rfl := keyed current first found
    exact ⟨1, .ok [], if_pos rfl⟩
  | @parent pointed parent snapshot pointer here _ ih =>
    obtain ⟨fuel, walked, walks⟩ := ih here
    refine ⟨fuel + 1, ?_⟩
    rw [walkParents, found]
    by_cases same : some start = some current
    · exact ⟨.ok [], if_pos same⟩
    · refine ⟨walked.map (current :: ·), (if_neg same).trans ?_⟩
      dsimp only
      rw [pointer]
      dsimp only
      rw [walks]
      rfl

end Walk

/-! ### Ranges -/

section Ranges

variable {metadata : TableMetadata} {world : Store V} {visited : List Snapshot}

/-- The changes collected from snapshots of which each is an ancestor of the next. -/
theorem AllBring.collected (all : AllBring metadata world) (keyed : KeyedById metadata)
    (sequenced : ∀ id snapshot, metadata.snapshots.lookup id = some snapshot →
      ListSequenced metadata.formatVersion metadata.snapshots world snapshot)
    (tell : CountsTell metadata world)
    (known : ∀ snapshot ∈ visited, metadata.snapshots.lookup snapshot.snapshotId = some snapshot)
    (ordered : visited.Pairwise fun older newer => Ancestor metadata older newer ∧ older ≠ newer)
    {rows : List (ManifestListEntry V)}
    (run : collectChanges metadata world (visited.map (·.snapshotId)) = .ok rows) :
    (rows.map (·.manifestPath)).Nodup ∧ ∀ path, path ∈ rows.map (·.manifestPath) ↔
      ∃ snapshot ∈ visited, WroteManifest metadata world snapshot path ∧
        ∃ file, world.manifest path = some file ∧ file.changes = true := by
  induction visited generalizing rows with
  | nil =>
    cases run
    simp
  | cons oldest visited ih =>
    simp only [List.map_cons, collectChanges, bind_eq_ok] at run
    obtain ⟨changes, here, rest, others, run⟩ := run
    cases run
    obtain ⟨found, knowns⟩ := List.forall_mem_cons.mp known
    obtain ⟨before, ordered⟩ := List.pairwise_cons.mp ordered
    obtain ⟨once, wrote⟩ := all.changes keyed (sequenced _ oldest found) tell found here
    obtain ⟨distinct, later⟩ := ih knowns ordered others
    rw [List.map_append]
    constructor
    · refine List.nodup_append.mpr ⟨once, distinct, ?_⟩
      rintro path one _ other rfl
      obtain ⟨snapshot, member, new, -⟩ := (later path).mp other
      obtain ⟨ancestor, apart⟩ := before snapshot member
      exact new.new oldest ancestor apart ((wrote path).mp one).1.listed
    · intro path
      rw [List.mem_append, wrote, later, List.exists_mem_cons_iff]

/-- Collecting changes fails only where a list cannot be read. -/
theorem collectChanges_error
    (known : ∀ snapshot ∈ visited, metadata.snapshots.lookup snapshot.snapshotId = some snapshot)
    {error : Error} (run : collectChanges metadata world (visited.map (·.snapshotId)) = .error error) :
    ∃ snapshot ∈ visited, readSnapshot snapshot metadata world = .error error := by
  induction visited with
  | nil => cases run
  | cons oldest visited ih =>
    obtain ⟨found, knowns⟩ := List.forall_mem_cons.mp known
    rw [List.map_cons, collectChanges, snapshotChanges, found] at run
    dsimp only at run
    cases reads : readSnapshot oldest metadata world with
    | error other =>
      rw [reads] at run
      cases run
      exact ⟨oldest, List.mem_cons_self, reads⟩
    | ok rows =>
      rw [reads] at run
      cases others : collectChanges metadata world (visited.map (·.snapshotId)) with
      | error other =>
        rw [others] at run
        cases run
        obtain ⟨snapshot, member, fails⟩ := ih knowns others
        exact ⟨snapshot, List.mem_cons_of_mem _ member, fails⟩
      | ok rest =>
        rw [others] at run
        cases run

section Range

variable {start id : Int} {finish : Option Int} {first last : Snapshot}

/-- A change scan to an ancestor collects the changes of the snapshots after it, oldest first. -/
theorem changeManifests_spec (all : AllFollow metadata) (keyed : KeyedById metadata)
    (known : metadata.snapshots.lookup start = some first)
    (ended : changeEnd metadata finish = .ok (some id))
    (found : metadata.snapshots.lookup id = some last) (earlier : Ancestor metadata first last)
    {fuel : Nat} {result : Except Error (List (ManifestListEntry V))}
    (run : changeManifests fuel metadata world (some start) finish = some result) :
    ∃ visited : List Snapshot,
      result = collectChanges metadata world (visited.map (·.snapshotId)) ∧
      (∀ snapshot, snapshot ∈ visited ↔ SnapshotBetween metadata first last snapshot) ∧
      (visited.Pairwise fun older newer => Ancestor metadata older newer ∧ older ≠ newer) ∧
      ∀ snapshot ∈ visited, metadata.snapshots.lookup snapshot.snapshotId = some snapshot := by
  rw [changeManifests, ended] at run
  obtain ⟨walked, walks, rfl⟩ := Option.map_eq_some_iff.mp run
  obtain ⟨newest, rfl, members, ordered⟩ := walkParents_spec all keyed known found earlier walks
  refine ⟨newest.reverse, ?_, fun snapshot => List.mem_reverse.trans (members snapshot),
    List.pairwise_reverse.mpr ordered, fun snapshot member => ?_⟩
  · rw [List.map_reverse]
    rfl
  · obtain ⟨place, here⟩ := ((members snapshot).mp (List.mem_reverse.mp member)).before.found found
    obtain rfl := keyed place snapshot here
    exact here

/-- The changes between an ancestor and a snapshot. -/
theorem AllBring.changesExact (all : AllBring metadata world) (keyed : KeyedById metadata)
    (sequenced : ∀ id snapshot, metadata.snapshots.lookup id = some snapshot →
      ListSequenced metadata.formatVersion metadata.snapshots world snapshot)
    (tell : CountsTell metadata world) (known : metadata.snapshots.lookup start = some first)
    (ended : changeEnd metadata finish = .ok (some id))
    (found : metadata.snapshots.lookup id = some last) (earlier : Ancestor metadata first last) :
    ChangesExact metadata world start finish first last := by
  constructor
  · intro fuel rows run
    obtain ⟨visited, collects, members, ordered, lookups⟩ :=
      changeManifests_spec all.follow keyed known ended found earlier run
    obtain ⟨once, wrote⟩ := all.collected keyed sequenced tell lookups ordered collects.symm
    refine ⟨once, fun path => ?_, fun ancestor before path listed member => ?_⟩
    · rw [wrote, ChangedBetween]
      exact exists_congr fun snapshot => and_congr_left fun _ => members snapshot
    · obtain ⟨snapshot, within, new, -⟩ := (wrote path).mp member
      obtain ⟨after, apart, -⟩ := (members snapshot).mp within
      refine new.new ancestor (before.trans after) ?_ listed
      rintro rfl
      exact apart (all.follow.antisymm (lookups _ within) after before)
  · obtain ⟨fuel, walked, walks⟩ := walkParents_total keyed known found earlier
    have run : ∃ result, changeManifests fuel metadata world (some start) finish = some result := by
      rw [changeManifests, ended]
      exact ⟨_, Option.map_eq_some_iff.mpr ⟨walked, walks, rfl⟩⟩
    obtain ⟨result, run⟩ := run
    obtain ⟨visited, rfl, members, -, lookups⟩ :=
      changeManifests_spec all.follow keyed known ended found earlier run
    refine ⟨fuel, _, run, fun error fails => ?_⟩
    obtain ⟨snapshot, within, reads⟩ := collectChanges_error lookups fails
    exact ⟨snapshot, (members snapshot).mp within, reads⟩

end Range

end Ranges

/-- In every run of data operations on a table of version 2 or 3 that begins without snapshots, with
UUIDs and snapshot ids that are drawn fresh, at most one sequence group in each accepted operation,
and file counts that tell whether a manifest holds changes: the changes between a snapshot and an
ancestor are returned completely, each once. -/
theorem changesComplete {initial : TableMetadata} {store : Store V} {events : List (TableEvent V)}
    (versioned : initial.formatVersion ≠ .v1) (least : 0 ≤ initial.lastSequenceNumber)
    (empty : initial.snapshots = ∅)
    (names : FreshNames initial.location store (namesDrawn events))
    (data : ∀ entry ∈ (runTable initial store events).accepted, DataOnly (transactionOf entry))
    (fresh : ∀ entry ∈ (runTable initial store events).accepted, FreshIds entry)
    (single : ∀ entry ∈ (runTable initial store events).accepted,
      OneGroupEach (transactionOf entry))
    (tell : CountsTell (runTable initial store events).current
      (runTable initial store events).world) :
    ChangesComplete (runTable initial store events) := by
  have start : Tracing (.start initial store : TableState V) := tracing_start versioned least empty
  have made : AllMade (.start initial store : TableState V) :=
    fun _ member => absurd member List.not_mem_nil
  have run : DataRun (runTable initial store events) :=
    ⟨start.run names, made.run start names, data, fresh⟩
  intro version member first one known finish id last ended found earlier
  have all : AllBring version (runTable initial store events).world :=
    fun _ _ here => run.brings member here
  have sequenced := (run.tracing.keeps.sequenced fun entry within =>
    ⟨data entry within, single entry within, fresh entry within⟩) version member
  refine all.changesExact (run.keyed member) sequenced.lists ?_ known ended found earlier
  intro entry within path listed file here
  have stays := run.keeps member entry.1 entry.2 (AList.mem_lookup_iff.mpr within)
  exact tell.of_lookup stays listed here

/-- An append, a sequence group, an overwrite of a manifest and a truncation, one after the other. -/
theorem changesComplete_run :
    ChangesComplete (runTable (longTable .v2) .empty
      [.prepare 0 (appendOne none 1 "a"), .send 0 1,
        .prepare 0 (appendGroupsOf [[longFile "b" 1]] 2 "b"), .send 0 2,
        .prepare 0 (.single (.overwrite none [longFile "c" 1] (HashMap.fromIter
          [(newManifestLocation "s3://warehouse/table" "b" 0, ["a"])]) none) 3 "c"), .send 0 3,
        .prepare 0 (.single (.truncate none) 4 "d"), .send 0 4]) :=
  changesComplete (by decide) (by decide) rfl
    ⟨by decide +kernel, fun _ _ _ _ => ⟨fun _ => rfl, fun _ => rfl⟩⟩ (by decide +kernel)
    (by decide +kernel) (by decide +kernel) (by decide +kernel)

/-- The manifests of two sequence groups are not among the changes of their snapshot. -/
theorem twoGroups_unseen :
    ¬ ChangesComplete (runTable (longTable .v2) .empty
      [.prepare 0 (appendOne none 1 "a"), .send 0 1,
        .prepare 0 (appendGroupsOf [[longFile "b" 1], [longFile "c" 1]] 2 "b"), .send 0 2]) := by
  intro holds
  generalize state : runTable (longTable .v2) .empty
    [.prepare 0 (appendOne none 1 "a"), .send 0 1,
      .prepare 0 (appendGroupsOf [[longFile "b" 1], [longFile "c" 1]] 2 "b"), .send 0 2] = after
    at holds
  have pointers : (after.current.snapshots.lookup 1).map (·.parentSnapshotId) = some none ∧
      (after.current.snapshots.lookup 2).map (·.parentSnapshotId) = some (some 1) := by
    rw [← state]
    decide +kernel
  have lists : (after.current.snapshots.lookup 1).map after.world.listed =
        some ["s3://warehouse/table/metadata/a-m0.avro"] ∧
      (after.current.snapshots.lookup 2).map after.world.listed =
        some ["s3://warehouse/table/metadata/b-m0.avro",
          "s3://warehouse/table/metadata/b-m1.avro"] := by
    rw [← state]
    decide +kernel
  have changes : (after.world.manifest "s3://warehouse/table/metadata/b-m0.avro").map (·.changes) =
      some true := by
    rw [← state]
    decide +kernel
  have returned : (changeManifests 2 after.current after.world (some 1) (some 2)).bind
      (·.toOption.map (·.length)) = some 0 := by
    rw [← state]
    decide +kernel
  obtain ⟨first, one, root⟩ := Option.map_eq_some_iff.mp pointers.1
  obtain ⟨second, two, child⟩ := Option.map_eq_some_iff.mp pointers.2
  rw [one, two] at lists
  obtain ⟨old, new⟩ := lists.imp Option.some.inj Option.some.inj
  obtain ⟨file, here, changed⟩ := Option.map_eq_some_iff.mp changes
  obtain ⟨result, run, empty⟩ := Option.bind_eq_some_iff.mp returned
  obtain ⟨rows, returns, none⟩ := Option.map_eq_some_iff.mp empty
  obtain rfl := List.length_eq_zero_iff.mp none
  have before : Ancestor after.current first second := .parent child one .self
  have apart : first ≠ second := by
    rintro rfl
    rw [root] at child
    cases child
  have told := holds after.current (latest_mem_versions _ _) 1 first one (some 2) 2 second
    (if_pos (AList.lookup_isSome.mp (Option.isSome_iff_exists.mpr ⟨second, two⟩))) two before
  have lost := ((told.exact 2 [] (toOption_eq_some.mp returns ▸ run)).2.1
    "s3://warehouse/table/metadata/b-m0.avro").mpr
      ⟨second, ⟨before, apart, .self⟩, ⟨by simp [new], ?_⟩, file, here, changed⟩
  · exact List.not_mem_nil lost
  · intro ancestor earlier other
    cases earlier with
    | self => exact absurd rfl other
    | parent pointer found earlier =>
      rw [child] at pointer
      obtain rfl := Option.some.inj pointer
      rw [one] at found
      obtain rfl := Option.some.inj found
      cases earlier with
      | self => simp [old]
      | parent pointer =>
        rw [root] at pointer
        cases pointer

end IcebergRust

import IcebergRust.Table.ManifestList

/-!
# Reading a table

`iceberg-rust/src/table/mod.rs`: the manifests of a snapshot, the manifests changed in
a range of snapshots, and the entries of manifests with everything they inherit.

* `changeManifests` walks parent pointers.  The source's loop has no bound; the model's
  takes one and returns `none` when it is used up.
* `manifestEntries` is what a scan reads from one manifest.
-/

namespace IcebergRust

variable {V : Type} [PartitionValue V]

/-- `Table::manifests`: the list of the end snapshot, restricted to what is newer than the start
snapshot. -/
def manifests (metadata : TableMetadata) (store : Store V) (start finish : Option Int) :
    Except Error (List (ManifestListEntry V)) := do
  let endSnapshot ← match finish.bind metadata.snapshots.lookup with
    | some snapshot => Except.ok (some snapshot)
    | none => metadata.currentSnapshot none
  match endSnapshot with
  | none => .ok []
  | some snapshot => do
    let startSequenceNumber := ((start.bind metadata.snapshots.lookup).map
      (·.sequenceNumber)).filter (· ≠ 0)
    let rows ← readSnapshot snapshot metadata store
    .ok (match startSequenceNumber with
      | some sequence => rows.filter fun row => row.sequenceNumber > sequence
      | none => rows)

/-! ### Changes between snapshots -/

/-- The walk of `change_manifests` from a snapshot to the start, newest snapshot first. -/
def walkParents (metadata : TableMetadata) (start : Option Int) :
    Nat → Int → Option (Except Error (List Int))
  | 0, _ => none
  | fuel + 1, current =>
    if start = some current then some (.ok [])
    else match metadata.snapshots.lookup current with
      | none => some (.error (.notFound ("snapshot " ++ toString current)))
      | some snapshot =>
        match snapshot.parentSnapshotId with
        | some parent =>
          (walkParents metadata start fuel parent).map fun rest => rest.map (current :: ·)
        | none =>
          if start.isNone then some (.ok [current])
          else some (.error (.invalidFormat
            "change scan start snapshot is not an ancestor of the end snapshot"))

/-- A manifest counts as changed by the snapshot of its sequence number unless it says that it
neither added nor deleted a file. -/
def changedBy (snapshot : Snapshot) (manifest : ManifestListEntry V) : Bool :=
  manifest.sequenceNumber = snapshot.sequenceNumber &&
    (manifest.addedFilesCount ≠ some 0 || manifest.deletedFilesCount ≠ some 0)

/-- The changed manifests of one visited snapshot. -/
def snapshotChanges (metadata : TableMetadata) (store : Store V) (snapshotId : Int) :
    Except Error (List (ManifestListEntry V)) :=
  match metadata.snapshots.lookup snapshotId with
  | none => .error (.notFound ("snapshot " ++ toString snapshotId))
  | some snapshot => (readSnapshot snapshot metadata store).map fun rows =>
      rows.filter (changedBy snapshot)

/-- The changed manifests of the visited snapshots in order. -/
def collectChanges (metadata : TableMetadata) (store : Store V) :
    List Int → Except Error (List (ManifestListEntry V))
  | [] => .ok []
  | snapshotId :: snapshotIds => do
    let changes ← snapshotChanges metadata store snapshotId
    let rest ← collectChanges metadata store snapshotIds
    .ok (changes ++ rest)

/-- The snapshot `change_manifests` ends at; `none` in a table without snapshots. -/
def changeEnd (metadata : TableMetadata) (finish : Option Int) : Except Error (Option Int) :=
  match finish with
  | some snapshotId =>
    if snapshotId ∈ metadata.snapshots then .ok (some snapshotId)
    else .error (.notFound ("snapshot " ++ toString snapshotId))
  | none => (metadata.currentSnapshot none).map fun current => current.map (·.snapshotId)

/-- `Table::change_manifests`, with a bound on the number of snapshots it visits. -/
def changeManifests (fuel : Nat) (metadata : TableMetadata) (store : Store V)
    (start finish : Option Int) : Option (Except Error (List (ManifestListEntry V))) :=
  match changeEnd metadata finish with
  | .error error => some (.error error)
  | .ok none => some (.ok [])
  | .ok (some snapshotId) =>
    (walkParents metadata start fuel snapshotId).map fun walked => do
      let snapshotIds ← walked
      collectChanges metadata store snapshotIds.reverse

/-! ### Entries -/

/-- The explicit snapshot id and sequence number a scan gives an entry. -/
def inheritFromRow (manifest : ManifestListEntry V) (entry : ManifestEntry V) : ManifestEntry V :=
  { entry with
    snapshotId := some (entry.snapshotId.getD manifest.addedSnapshotId)
    sequenceNumber := some (entry.sequenceNumber.getD manifest.sequenceNumber) }

/-- The entries a scan reads from one manifest: decoded, with the row ids, the snapshot ids and
the sequence numbers they inherit. -/
def manifestEntries (store : Store V) (manifest : ManifestListEntry V) :
    Except Error (List (ManifestEntry V)) := do
  let file ← store.getManifest manifest.manifestPath
  let inheritance ← FirstRowIdInheritance.tryForCommittedManifest manifest.firstRowId
  let entries ← file.read
  let inherited ← inheritance.applyAll entries
  .ok (inherited.map (inheritFromRow manifest))

/-- Whether a sequence number lies in the half-open range of a scan. -/
def inSequenceRange (range : Option Int × Option Int) (sequenceNumber : Int) : Bool :=
  range.1.all (· < sequenceNumber) && range.2.all (sequenceNumber ≤ ·)

/-- The manifests a filter vector keeps. -/
def keptManifests (rows : List (ManifestListEntry V)) :
    Option (List Bool) → List (ManifestListEntry V)
  | none => rows
  | some predicate => ((rows.zip predicate).filter fun row => row.2).map fun row => row.1

/-- The entries of one manifest within a sequence range, each with its manifest's path. -/
def rangeEntries (store : Store V) (range : Option Int × Option Int)
    (manifest : ManifestListEntry V) : Except Error (List (String × ManifestEntry V)) := do
  let entries ← manifestEntries store manifest
  .ok ((entries.filter fun entry => inSequenceRange range (entry.sequenceNumber.getD 0)).map
    fun entry => (manifest.manifestPath, entry))

/-- `datafiles`: the entries of the manifests a filter keeps. -/
def datafiles (store : Store V) (rows : List (ManifestListEntry V))
    (filter : Option (List Bool)) (range : Option Int × Option Int) :
    Except Error (List (String × ManifestEntry V)) :=
  if filter.any fun predicate => predicate.length ≠ rows.length then
    .error (.invalidFormat ("manifest filter length " ++
      toString ((filter.getD []).length) ++ " does not match manifest count " ++
      toString rows.length))
  else ((keptManifests rows filter).mapM (rangeEntries store range)).map List.flatten

/-- What `table_scan` reads for a range of snapshots before it prunes: `manifests`, then `datafiles`
with the sequence numbers of the two snapshots. -/
def scanEntries (metadata : TableMetadata) (store : Store V) (start finish : Option Int) :
    Except Error (List (String × ManifestEntry V)) := do
  let rows ← manifests metadata store start finish
  datafiles store rows none
    (start.bind metadata.sequenceNumber, finish.bind metadata.sequenceNumber)

end IcebergRust

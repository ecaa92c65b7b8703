import IcebergRust.Lib.Pointers
import IcebergRust.Spec.LongValue
import IcebergRust.Spec.MetadataJson
import IcebergRust.Table.Scan

/-!
# The walk over ancestors

`change_manifests` follows `parent_snapshot_id` through the snapshots of a metadata file until it
meets the start snapshot or a snapshot without a parent.  The parser does not look at the parents,
so a file may have them in a cycle; `changeManifests_returns_iff` says that the walk ends exactly
where it reaches none.
-/

namespace IcebergRust

/-- The snapshot the walk goes on to. -/
def parentBelow (metadata : TableMetadata) (start : Option Int) (snapshotId : Int) : Option Int :=
  if start = some snapshotId then none
  else (metadata.snapshots.lookup snapshotId).bind (·.parentSnapshotId)

/-- Only the snapshots of the file have parents. -/
theorem finite_parentBelow (metadata : TableMetadata) (start : Option Int) :
    {snapshotId | ∃ parent, parentBelow metadata start snapshotId = some parent}.Finite := by
  refine Set.Finite.subset (metadata.snapshots.keys.finite_toSet) ?_
  rintro snapshotId ⟨parent, found⟩
  unfold parentBelow at found
  split at found
  · cases found
  · obtain ⟨snapshot, stored, -⟩ := Option.bind_eq_some_iff.mp found
    exact AList.mem_keys.mp (AList.lookup_isSome.mp (Option.isSome_of_mem stored))

/-- The walk is the following of the parents. -/
theorem walkParents_isSome (metadata : TableMetadata) (start : Option Int) (fuel : Nat)
    (snapshotId : Int) :
    (walkParents metadata start fuel snapshotId).isSome =
      (Pointers.follow (parentBelow metadata start) fuel snapshotId).isNone := by
  induction fuel generalizing snapshotId with
  | zero => rfl
  | succ fuel ih =>
    rw [walkParents, Pointers.follow, parentBelow]
    by_cases here : start = some snapshotId
    · rw [if_pos here, if_pos here]
      rfl
    · rw [if_neg here, if_neg here]
      cases metadata.snapshots.lookup snapshotId with
      | none => rfl
      | some snapshot =>
        simp only [Option.bind_some]
        cases snapshot.parentSnapshotId with
        | none => cases start <;> rfl
        | some parent =>
          rw [Option.bind_some, ← ih parent]
          exact Option.isSome_map

theorem walkParents_eq_none {metadata : TableMetadata} {start : Option Int} {snapshotId : Int}
    (cyclic : Pointers.Cyclic (parentBelow metadata start) snapshotId) (fuel : Nat) :
    walkParents metadata start fuel snapshotId = none := by
  refine Option.not_isSome_iff_eq_none.mp fun walked => ?_
  rw [walkParents_isSome] at walked
  exact Pointers.not_halts_of_cyclic cyclic ⟨fuel, Option.isNone_iff_eq_none.mp walked⟩

variable {V : Type} [PartitionValue V]

/-- The parents from the snapshot where a scan ends, up to its start, form a cycle. -/
def CyclicParents (metadata : TableMetadata) (start finish : Option Int) : Prop :=
  ∃ snapshotId, changeEnd metadata finish = .ok (some snapshotId) ∧
    Pointers.Cyclic (parentBelow metadata start) snapshotId

/-- The loop over the parents ends, with a result or an error, exactly if it reaches no cycle. -/
theorem changeManifests_returns_iff (metadata : TableMetadata) (store : Store V)
    (start finish : Option Int) :
    (∃ fuel returned, changeManifests fuel metadata store start finish = some returned) ↔
      ¬ CyclicParents metadata start finish := by
  unfold changeManifests CyclicParents
  cases ended : changeEnd metadata finish with
  | error error => exact iff_of_true ⟨0, _, rfl⟩ (by rintro ⟨_, ⟨⟩, -⟩)
  | ok last =>
    cases last with
    | none => exact iff_of_true ⟨0, _, rfl⟩ (by rintro ⟨_, ⟨⟩, -⟩)
    | some snapshotId =>
      simp only [Except.ok.injEq, Option.some.injEq, exists_eq_left', Option.map_eq_some_iff]
      rw [← Pointers.halts_iff (finite_parentBelow metadata start) snapshotId]
      refine exists_congr fun fuel => ?_
      rw [← Option.isNone_iff_eq_none, ← walkParents_isSome, Option.isSome_iff_exists]
      simp

/-! ### A file -/

/-- A snapshot of a file, with its parent. -/
def snapshotObject (snapshotId : Int) (parent : Option Int) : SnapshotObject where
  snapshotId
  parentSnapshotId := parent
  sequenceNumber := some snapshotId
  timestampMs := snapshotId
  manifestList := some ""
  manifests := none
  summary := some ⟨.append, ∅⟩
  schemaId := some 0
  firstRowId := none
  addedRows := none

/-- A file of a table of one column with some snapshots. -/
def metadataObject (snapshots : List SnapshotObject) (current : Int) : MetadataObject where
  formatVersion := 2
  tableUuid := some ⟨1⟩
  location := "s3://warehouse/table"
  nextRowId := none
  lastSequenceNumber := some 2
  lastUpdatedMs := 2
  lastColumnId := 1
  schema := none
  schemas := some [⟨some 0, none, ⟨[⟨1, "x", true, .primitive .long, none, none, none⟩]⟩⟩]
  currentSchemaId := some 0
  partitionSpec := none
  partitionSpecs := some [⟨0, []⟩]
  defaultSpecId := some 0
  lastPartitionId := some 999
  properties := none
  currentSnapshotId := some current
  snapshots := some snapshots
  snapshotLog := none
  metadataLog := none
  sortOrders := some [⟨0, []⟩]
  defaultSortOrderId := some 0
  refs := none

/-- A file whose two snapshots are each other's parents is accepted, and the walk never ends. -/
theorem cyclic_parents_endless : ∃ metadata,
    deserialize (metadataObject [snapshotObject 1 (some 2), snapshotObject 2 (some 1)] 2) =
      .ok metadata ∧
    ∀ fuel, changeManifests fuel metadata (Store.empty : Store LongValue) none none = none := by
  refine ⟨_, rfl, fun fuel => Option.map_eq_none_iff.mpr (walkParents_eq_none ?_ fuel)⟩
  refine ⟨2, .refl, @Relation.TransGen.tail _ _ 2 1 2 (.single ?_) ?_⟩
  · rfl
  · rfl

end IcebergRust

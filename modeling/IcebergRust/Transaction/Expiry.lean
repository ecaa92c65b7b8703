import IcebergRust.Transaction.Operation

/-!
# Expiring snapshots

What `ExpireSnapshots` removes, in whichever order a run lists the snapshots of a table.

* `TableMetadata.Expires` is the policy without the rule that retains the newest snapshots;
  `Newest` is a choice of these.
* `snapshotsToExpire_eq` takes the sorted list apart where the newest snapshots end.
-/

namespace IcebergRust

/-- No rule but that of the newest snapshots retains a snapshot. -/
structure TableMetadata.Expires (metadata : TableMetadata) (olderThan : Option Int)
    (retainRefSnapshots : Bool) (snapshot : Snapshot) : Prop where
  notCurrent : metadata.currentSnapshotId ≠ some snapshot.snapshotId
  unreferenced : retainRefSnapshots = true →
    ∀ reference ∈ metadata.refs.values, reference.snapshotId ≠ snapshot.snapshotId
  old : ∀ threshold, olderThan = some threshold → snapshot.timestampMs < threshold

/-- A choice of the newest snapshots: none of the others is newer than one of these. -/
structure Newest (count : Nat) (newest others snapshots : List Snapshot) : Prop where
  perm : (newest ++ others).Perm snapshots
  length : newest.length = min count snapshots.length
  ordered : ∀ a ∈ newest, ∀ b ∈ others, b.timestampMs ≤ a.timestampMs

variable {metadata : TableMetadata} {olderThan : Option Int} {retainLast : Option Nat}
  {retainRefSnapshots : Bool}

/-! ### The newest snapshots -/

/-- Filtering by the position as well drops a part of the list. -/
theorem filter_zipIdx {α : Type} (p : α → Bool) (xs : List α) (first count : Nat) :
    ((xs.zipIdx first).filter fun entry => p entry.1 && decide (count ≤ entry.2)).map (·.1) =
      (xs.drop (count - first)).filter p := by
  induction xs generalizing first with
  | nil => simp
  | cons x xs ih =>
    rw [List.zipIdx_cons, List.filter_cons]
    by_cases reached : count ≤ first
    · have rest := ih (first + 1)
      rw [Nat.sub_eq_zero_of_le (Nat.le_succ_of_le reached), List.drop_zero] at rest
      rw [Nat.sub_eq_zero_of_le reached, List.drop_zero, List.filter_cons]
      cases p x <;> simp [reached, rest]
    · have next : count - first = count - (first + 1) + 1 := by omega
      rw [next, List.drop_succ_cons, ← ih (first + 1)]
      simp [reached]

/-- Newest first, the first snapshots are a choice of the newest. -/
theorem newest_take {snapshots sorted : List Snapshot} (perm : sorted.Perm snapshots)
    (descends : sorted.Pairwise fun a b => b.timestampMs ≤ a.timestampMs) (count : Nat) :
    Newest count (sorted.take count) (sorted.drop count) snapshots where
  perm := (List.take_append_drop count sorted).symm ▸ perm
  length := by rw [List.length_take, perm.length_eq]
  ordered := by
    rw [← List.take_append_drop count sorted, List.pairwise_append] at descends
    exact descends.2.2

theorem newest_sorted (snapshots : List Snapshot) (count : Nat) :
    Newest count ((snapshots.insertionSort fun a b => b.timestampMs ≤ a.timestampMs).take count)
      ((snapshots.insertionSort fun a b => b.timestampMs ≤ a.timestampMs).drop count)
      snapshots := by
  have : Std.Total fun a b : Snapshot => b.timestampMs ≤ a.timestampMs :=
    ⟨fun a b => Int.le_total b.timestampMs a.timestampMs⟩
  have : IsTrans Snapshot fun a b => b.timestampMs ≤ a.timestampMs :=
    ⟨fun _ _ _ first second => Int.le_trans second first⟩
  exact newest_take (List.perm_insertionSort _ _) (List.pairwise_insertionSort _ _) count

/-! ### What is removed -/

/-- The rules that do not count, as the code evaluates them. -/
def expires (metadata : TableMetadata) (olderThan : Option Int) (retainRefSnapshots : Bool)
    (snapshot : Snapshot) : Bool :=
  !(metadata.currentSnapshotId = some snapshot.snapshotId ||
    (retainRefSnapshots && (metadata.refs.values.map (·.snapshotId)).contains snapshot.snapshotId) ||
    olderThan.any (· ≤ snapshot.timestampMs))

theorem expires_iff {snapshot : Snapshot} :
    expires metadata olderThan retainRefSnapshots snapshot = true ↔
      metadata.Expires olderThan retainRefSnapshots snapshot := by
  have old : olderThan.any (· ≤ snapshot.timestampMs) = false ↔
      ∀ threshold, olderThan = some threshold → snapshot.timestampMs < threshold := by
    cases olderThan with
    | none => simp
    | some threshold => simp
  have unreferenced : (retainRefSnapshots &&
      (metadata.refs.values.map (·.snapshotId)).contains snapshot.snapshotId) = false ↔
      (retainRefSnapshots = true →
        ∀ reference ∈ metadata.refs.values, reference.snapshotId ≠ snapshot.snapshotId) := by
    cases retainRefSnapshots with
    | false => simp
    | true => simp
  unfold expires
  rw [Bool.not_eq_true', Bool.or_eq_false_iff, Bool.or_eq_false_iff, unreferenced, old,
    decide_eq_false_iff_not]
  exact ⟨fun ⟨⟨a, b⟩, c⟩ => ⟨a, b, c⟩, fun ⟨a, b, c⟩ => ⟨⟨a, b⟩, c⟩⟩

theorem not_retains {index : Nat} {snapshot : Snapshot} :
    (!retains metadata olderThan retainLast retainRefSnapshots index snapshot) =
      (expires metadata olderThan retainRefSnapshots snapshot &&
        decide (retainLast.getD 0 ≤ index)) := by
  have counted : retainLast.any (index < ·) = !decide (retainLast.getD 0 ≤ index) := by
    cases retainLast with
    | none => simp
    | some count =>
      by_cases later : count ≤ index
      · simp [later]
      · simp [later, Nat.lt_of_not_le later]
  unfold retains expires
  rw [counted]
  cases decide (retainLast.getD 0 ≤ index) <;> simp

/-- The snapshots after the newest that no other rule retains. -/
theorem snapshotsToExpire_eq :
    snapshotsToExpire metadata olderThan retainLast retainRefSnapshots =
      (((metadata.snapshots.values.insertionSort fun a b => b.timestampMs ≤ a.timestampMs).drop
        (retainLast.getD 0)).filter (expires metadata olderThan retainRefSnapshots)).map
          (·.snapshotId) := by
  unfold snapshotsToExpire
  rw [← Nat.sub_zero (retainLast.getD 0), ← filter_zipIdx, List.map_map]
  simp only [not_retains]
  rfl

/-- Snapshots stored under their own ids have distinct ids. -/
theorem nodup_snapshotIds
    (keyed : ∀ key snapshot, metadata.snapshots.lookup key = some snapshot →
      snapshot.snapshotId = key) :
    (metadata.snapshots.values.map (·.snapshotId)).Nodup := by
  have same : metadata.snapshots.values.map (·.snapshotId) = metadata.snapshots.keys := by
    unfold HashMap.values
    rw [List.map_map]
    apply List.map_congr_left
    intro entry member
    exact keyed entry.1 entry.2 (AList.mem_lookup_iff.mpr member)
  exact same ▸ metadata.snapshots.keys_nodup

/-- **Expiry is exact.**  But for a choice of the newest snapshots, those no rule retains are
removed, each once, unless nothing is to be removed or the run is dry. -/
theorem executeExpireSnapshots_exact (metadata : TableMetadata) (olderThan : Option Int)
    (retainLast : Option Nat) (retainRefSnapshots dryRun : Bool) :
    (olderThan = none ∧ retainLast = none →
      ∃ e, executeExpireSnapshots metadata olderThan retainLast retainRefSnapshots dryRun =
        .error e) ∧
    (¬ (olderThan = none ∧ retainLast = none) → ∃ newest others removed kept,
      Newest (retainLast.getD 0) newest others metadata.snapshots.values ∧
      (removed ++ kept).Perm others ∧
      (∀ snapshot ∈ removed, metadata.Expires olderThan retainRefSnapshots snapshot) ∧
      (∀ snapshot ∈ kept, ¬ metadata.Expires olderThan retainRefSnapshots snapshot) ∧
      ((∀ key snapshot, metadata.snapshots.lookup key = some snapshot →
        snapshot.snapshotId = key) → (removed.map (·.snapshotId)).Nodup) ∧
      executeExpireSnapshots metadata olderThan retainLast retainRefSnapshots dryRun =
        .ok (none, if dryRun = true ∨ removed = [] then []
          else [.removeSnapshots (removed.map (·.snapshotId))])) := by
  constructor
  · rintro ⟨rfl, rfl⟩
    exact ⟨_, rfl⟩
  · intro given
    have chosen := newest_sorted metadata.snapshots.values (retainLast.getD 0)
    set others := (metadata.snapshots.values.insertionSort fun a b =>
      b.timestampMs ≤ a.timestampMs).drop (retainLast.getD 0) with others_eq
    set removed := others.filter (expires metadata olderThan retainRefSnapshots) with removed_eq
    refine ⟨_, others, removed,
      others.filter fun s => !expires metadata olderThan retainRefSnapshots s, chosen,
      List.filter_append_perm _ others, ?_, ?_, ?_, ?_⟩
    · intro snapshot member
      exact expires_iff.mp (List.mem_filter.mp member).2
    · intro snapshot member expired
      have retained := (List.mem_filter.mp member).2
      rw [expires_iff.mpr expired] at retained
      cases retained
    · intro keyed
      have whole := (chosen.perm.map (·.snapshotId)).nodup_iff.mpr (nodup_snapshotIds keyed)
      rw [List.map_append] at whole
      exact whole.of_append_right.sublist (List.filter_sublist.map _)
    · have guarded : ¬ (olderThan.isNone ∧ retainLast.isNone) := by
        simpa only [Option.isNone_iff_eq_none] using given
      have listed : snapshotsToExpire metadata olderThan retainLast retainRefSnapshots =
          removed.map (·.snapshotId) := snapshotsToExpire_eq
      unfold executeExpireSnapshots
      rw [if_neg guarded]
      simp only [listed, List.isEmpty_map]
      cases dryRun with
      | true => simp
      | false => cases removed <;> simp

end IcebergRust

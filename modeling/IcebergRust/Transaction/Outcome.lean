import IcebergRust.Lib.Fallible
import IcebergRust.Transaction.Transaction

/-!
# What an operation sends

The inversion of `Operation.execute`: which requirement and which updates a successful
operation hands to the transaction, in terms of the metadata it has read.  Everything
about concurrent commits is derived from it, without looking at how files are written.

* `Outcome` has one constructor for each kind of result; all data operations share
  `Outcome.snapshot`.
* `execute_outcome` is the one place where the operations are unfolded.
-/

namespace IcebergRust

open Fallible

variable {V : Type}

/-- The parent an operation gives its snapshot on top of a head. -/
def Operation.parentOn (old : Option Snapshot) : Operation V → Option Int
  | .replace .. => none
  | _ => old.map (·.snapshotId)

/-- The requirement and the updates an operation can send after reading `metadata`. -/
inductive Outcome (metadata : TableMetadata) (entropy : Entropy) :
    Operation V → Option TableRequirement → List TableUpdate → Prop
  /-- A data operation without files changes nothing. -/
  | nothing {operation : Operation V} {branch : Option String}
      (writes : operation.branch = some branch) : Outcome metadata entropy operation none []
  /-- A data operation has written a snapshot on top of the head of its branch. -/
  | snapshot {operation : Operation V} {branch : Option String}
      (writes : operation.branch = some branch) (old : Option Snapshot) (snapshot : Snapshot)
      (read : metadata.currentSnapshot branch = .ok old)
      (drawn : snapshot.snapshotId = entropy.snapshotId)
      (parent : snapshot.parentSnapshotId = operation.parentOn old)
      (wrote : operation.index < 4 → TableTransaction.writesFiles operation = true) :
      Outcome metadata entropy operation (snapshotCommit branch old snapshot).1
        (snapshotCommit branch old snapshot).2
  | properties (entries : List (String × String)) :
      Outcome metadata entropy (.updateProperties entries) none
        [.setProperties (HashMap.fromIter entries)]
  | ref (name : String) (reference : SnapshotReference) :
      Outcome metadata entropy (.setSnapshotRef (name, reference))
        (some (.assertRefSnapshotId name (metadata.refTarget name)))
        [.setSnapshotRef name reference]
  | schema (schema : Schema) :
      Outcome metadata entropy (.addSchema schema) none
        [.addSchema schema schema.fields.maxFieldId]
  | spec (specId : Int) :
      Outcome metadata entropy (.setDefaultSpec specId) none [.setDefaultSpec specId]
  | sortOrder (sortOrder : SortOrder) :
      Outcome metadata entropy (.replaceSortOrder sortOrder)
        (some (.assertDefaultSortOrderId metadata.defaultSortOrderId))
        [.addSortOrder sortOrder, .setDefaultSortOrder sortOrder.orderId]
  | retained (olderThan : Option Int) (retainLast : Option Nat)
      (cleanOrphanFiles retainRefSnapshots dryRun : Bool) :
      Outcome metadata entropy
        (.expireSnapshots olderThan retainLast cleanOrphanFiles retainRefSnapshots dryRun) none []
  | expired (olderThan : Option Int) (retainLast : Option Nat)
      (cleanOrphanFiles retainRefSnapshots dryRun : Bool) :
      Outcome metadata entropy
        (.expireSnapshots olderThan retainLast cleanOrphanFiles retainRefSnapshots dryRun) none
        [.removeSnapshots (snapshotsToExpire metadata olderThan retainLast retainRefSnapshots)]

variable {metadata : TableMetadata} {store store' : Store V}
  {entropy : Entropy} {branch : Option String} {requirement : Option TableRequirement}
  {updates : List TableUpdate}

/-! ### The data operations -/

/-- The result of a data operation: nothing, or a new head of its branch. -/
def SendsSnapshot (metadata : TableMetadata) (entropy : Entropy) (branch : Option String)
    (parentOn : Option Snapshot → Option Int) (wrote : Prop)
    (requirement : Option TableRequirement) (updates : List TableUpdate) : Prop :=
  (requirement = none ∧ updates = []) ∨
    ∃ old snapshot, metadata.currentSnapshot branch = .ok old ∧
      snapshot.snapshotId = entropy.snapshotId ∧ snapshot.parentSnapshotId = parentOn old ∧ wrote ∧
      (requirement, updates) = snapshotCommit branch old snapshot

theorem executeTruncate_sends
    (run : executeTruncate metadata store entropy branch = .ok (store', requirement, updates)) :
    SendsSnapshot metadata entropy branch (·.map (·.snapshotId)) True requirement updates := by
  simp only [executeTruncate, bind_eq_ok] at run
  obtain ⟨old, read, schema, -, run⟩ := run
  split at run <;>
  · simp only [bind_eq_ok] at run
    obtain ⟨lineage, -, run⟩ := run
    injection run with sent
    exact .inr ⟨old, _, read, rfl, rfl, trivial, (congrArg Prod.snd sent).symm⟩

theorem SendsSnapshot.outcome {operation : Operation V} {wrote : Prop}
    (sends : SendsSnapshot metadata entropy branch operation.parentOn wrote requirement updates)
    (writes : operation.branch = some branch)
    (files : wrote → operation.index < 4 → TableTransaction.writesFiles operation = true) :
    Outcome metadata entropy operation requirement updates := by
  rcases sends with ⟨rfl, rfl⟩ | ⟨old, snapshot, read, drawn, parent, some, same⟩
  · exact .nothing writes
  · obtain ⟨rfl, rfl⟩ := Prod.mk.inj same
    exact .snapshot writes old snapshot read drawn parent (files some)

variable [PartitionValue V] {additional : Option (HashMap String String)}

theorem executeAppend_sends {dataFiles deleteFiles : List (DataFile V)}
    (run : executeAppend metadata store entropy branch dataFiles deleteFiles additional =
      .ok (store', requirement, updates)) :
    SendsSnapshot metadata entropy branch (·.map (·.snapshotId))
      (dataFiles.length + deleteFiles.length ≠ 0) requirement updates := by
  simp only [executeAppend, bind_eq_ok] at run
  obtain ⟨old, read, run⟩ := run
  split at run
  · cases run
    exact .inl ⟨rfl, rfl⟩
  · rename_i some
    simp only [bind_eq_ok] at run
    obtain ⟨begun, -, ⟨s1, w1⟩, -, ⟨s2, w2⟩, -, ⟨s3, list, next⟩, -, schema, -, lineage, -, run⟩ := run
    injection run with sent
    exact .inr ⟨old, _, read, rfl, rfl, some, (congrArg Prod.snd sent).symm⟩

theorem executeAppendSequenceGroups_sends {groups : List (SequenceGroup V)}
    (run : executeAppendSequenceGroups metadata store entropy branch groups =
      .ok (store', requirement, updates)) :
    SendsSnapshot metadata entropy branch (·.map (·.snapshotId))
      ((groups.map fun group => group.dataFiles.length).sum +
        (groups.map fun group => group.deleteFiles.length).sum ≠ 0) requirement updates := by
  simp only [executeAppendSequenceGroups, bind_eq_ok] at run
  obtain ⟨old, read, run⟩ := run
  split at run
  · cases run
    exact .inl ⟨rfl, rfl⟩
  · rename_i some
    simp only [bind_eq_ok] at run
    obtain ⟨begun, -, ⟨s1, filled⟩, -, ⟨s2, list, next⟩, -, schema, -, lineage, -, run⟩ := run
    injection run with sent
    exact .inr ⟨old, _, read, rfl, rfl, some, (congrArg Prod.snd sent).symm⟩

theorem executeReplace_sends {files : List (DataFile V)}
    (run : executeReplace metadata store entropy branch files additional =
      .ok (store', requirement, updates)) :
    SendsSnapshot metadata entropy branch (fun _ => none) True requirement updates := by
  simp only [executeReplace, bind_eq_ok] at run
  obtain ⟨fields, -, old, read, schema, -, avro, -, run⟩ := run
  split at run
  · simp only [bind_eq_ok] at run
    obtain ⟨parts, -, ⟨s1, list⟩, -, run⟩ := run
    injection run with sent
    exact .inr ⟨old, _, read, rfl, rfl, trivial, (congrArg Prod.snd sent).symm⟩
  · simp only [bind_eq_ok] at run
    obtain ⟨bounding, -, parts, -, ⟨s1, list⟩, -, run⟩ := run
    injection run with sent
    exact .inr ⟨old, _, read, rfl, rfl, trivial, (congrArg Prod.snd sent).symm⟩

theorem executeOverwrite_sends {files : List (DataFile V)}
    {filesToOverwrite : HashMap String (List String)}
    (run : executeOverwrite metadata store entropy branch files filesToOverwrite additional =
      .ok (store', requirement, updates)) :
    SendsSnapshot metadata entropy branch (·.map (·.snapshotId)) True requirement updates := by
  simp only [executeOverwrite, bind_eq_ok] at run
  obtain ⟨old, read, run⟩ := run
  cases old with
  | none => simp at run
  | some old =>
    simp only at run
    split at run
    · cases run
      exact .inl ⟨rfl, rfl⟩
    · simp only [bind_eq_ok] at run
      obtain ⟨file, -, hydrated, -, rows, -, run⟩ := run
      split at run
      · cases run
      · simp only [bind_eq_ok] at run
        obtain ⟨⟨begun, aside⟩, -, ⟨s1, w1, f1⟩, -, ⟨s2, w2, f2⟩, -, ⟨s3, w3⟩, -,
          ⟨s4, list, next⟩, -, schema, -, lineage, -, run⟩ := run
        injection run with sent
        exact .inr ⟨some old, _, read, rfl, rfl, trivial, (congrArg Prod.snd sent).symm⟩

/-! ### All operations -/

theorem executeReplaceSortOrder_sends {sortOrder : SortOrder}
    (run : executeReplaceSortOrder metadata sortOrder = .ok (requirement, updates)) :
    requirement = some (.assertDefaultSortOrderId metadata.defaultSortOrderId) ∧
      updates = [.addSortOrder sortOrder, .setDefaultSortOrder sortOrder.orderId] := by
  simp only [executeReplaceSortOrder, guard_eq_ok, bind_eq_ok] at run
  obtain ⟨-, schema, -, run⟩ := run
  split at run
  · cases run
  · cases run
    exact ⟨rfl, rfl⟩

theorem executeExpireSnapshots_sends {olderThan : Option Int} {retainLast : Option Nat}
    {retainRefSnapshots dryRun : Bool}
    (run : executeExpireSnapshots metadata olderThan retainLast retainRefSnapshots dryRun =
      .ok (requirement, updates)) :
    requirement = none ∧ (updates = [] ∨ updates =
      [.removeSnapshots (snapshotsToExpire metadata olderThan retainLast retainRefSnapshots)]) := by
  simp only [executeExpireSnapshots, guard_eq_ok] at run
  obtain ⟨-, run⟩ := run
  split at run
  · cases run
    exact ⟨rfl, .inl rfl⟩
  · split at run
    · cases run
      exact ⟨rfl, .inl rfl⟩
    · cases run
      exact ⟨rfl, .inr rfl⟩

theorem sum_length_eq_zero {α β : Type} {f : α → List β} {xs : List α}
    (empty : ∀ x ∈ xs, f x = []) : (xs.map fun x => (f x).length).sum = 0 := by
  induction xs with
  | nil => rfl
  | cons x xs ih =>
    rw [List.map_cons, List.sum_cons, empty x List.mem_cons_self,
      ih fun y member => empty y (List.mem_cons_of_mem x member), List.length_nil]

/-- Every successful operation has one of the listed outcomes. -/
theorem execute_outcome {operation : Operation V}
    (run : operation.execute metadata store entropy = .ok (store', requirement, updates)) :
    Outcome metadata entropy operation requirement updates := by
  cases operation with
  | addSchema schema =>
    cases run
    exact .schema schema
  | setDefaultSpec specId =>
    cases run
    exact .spec specId
  | updateProperties entries =>
    cases run
    exact .properties entries
  | setSnapshotRef entry =>
    cases run
    exact .ref entry.1 entry.2
  | replaceSortOrder sortOrder =>
    simp only [Operation.execute, map_eq_ok] at run
    obtain ⟨⟨required, sent⟩, run, same⟩ := run
    obtain ⟨-, rfl, rfl⟩ := Prod.mk.inj same
    obtain ⟨rfl, rfl⟩ := executeReplaceSortOrder_sends run
    exact .sortOrder sortOrder
  | append branch dataFiles deleteFiles additional =>
    refine (executeAppend_sends run).outcome rfl fun some _ => ?_
    simp only [TableTransaction.writesFiles, Bool.or_eq_true, Bool.not_eq_true',
      List.isEmpty_eq_false_iff, ← List.length_pos_iff]
    omega
  | appendSequenceGroups branch groups =>
    refine (executeAppendSequenceGroups_sends run).outcome rfl fun some _ => ?_
    by_contra none
    have empty : ∀ group ∈ groups, group.dataFiles = [] ∧ group.deleteFiles = [] := by
      simpa [TableTransaction.writesFiles] using none
    have data : (groups.map fun group => group.dataFiles.length).sum = 0 :=
      sum_length_eq_zero fun group member => (empty group member).1
    have deletes : (groups.map fun group => group.deleteFiles.length).sum = 0 :=
      sum_length_eq_zero fun group member => (empty group member).2
    omega
  | replace branch files additional =>
    obtain ⟨-, run⟩ := guard_eq_ok.mp run
    exact (executeReplace_sends run).outcome rfl fun _ early => absurd early (by simp [Operation.index])
  | overwrite branch files filesToOverwrite additional =>
    exact (executeOverwrite_sends run).outcome rfl fun _ early =>
      absurd early (by simp [Operation.index])
  | truncate branch =>
    exact (executeTruncate_sends run).outcome rfl fun _ early =>
      absurd early (by simp [Operation.index])
  | expireSnapshots olderThan retainLast cleanOrphanFiles retainRefSnapshots dryRun =>
    simp only [Operation.execute, map_eq_ok] at run
    obtain ⟨⟨required, sent⟩, run, same⟩ := run
    obtain ⟨-, rfl, rfl⟩ := Prod.mk.inj same
    obtain ⟨rfl, rfl | rfl⟩ := executeExpireSnapshots_sends run
    · exact .retained olderThan retainLast cleanOrphanFiles retainRefSnapshots dryRun
    · exact .expired olderThan retainLast cleanOrphanFiles retainRefSnapshots dryRun

end IcebergRust

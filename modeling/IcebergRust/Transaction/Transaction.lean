import IcebergRust.Transaction.Operation

/-!
# Transactions

`iceberg-rust/src/table/transaction/mod.rs`: the builder of a transaction, which keeps
at most one operation of each kind, and its commit, which executes them in the order
of their slots on metadata staged from the base.

* `TableTransaction` carries what the builder maintains: an operation sits in the slot
  of its kind, and every operation that writes data writes to the transaction's branch.
* `TableTransaction.prepare` is `commit` up to the call of the catalog: the
  requirements and the updates the catalog is sent.
-/

namespace IcebergRust

variable {V : Type}

/-- The slot of an operation. -/
def Operation.index : Operation V → Nat
  | .addSchema .. => 0
  | .setDefaultSpec .. => 1
  | .append .. => 2
  | .appendSequenceGroups .. => 3
  | .replace .. => 4
  | .overwrite .. => 5
  | .updateProperties .. => 6
  | .setSnapshotRef .. => 7
  | .expireSnapshots .. => 8
  | .replaceSortOrder .. => 9
  | .truncate .. => 10

/-- `NUM_OPERATIONS`. -/
def numOperations : Nat := 11

/-- The branch argument of an operation that commits a snapshot. -/
def Operation.branch : Operation V → Option (Option String)
  | .append branch .. => some branch
  | .appendSequenceGroups branch .. => some branch
  | .replace branch .. => some branch
  | .overwrite branch .. => some branch
  | .truncate branch => some branch
  | _ => none

/-- `TableTransaction`. -/
structure TableTransaction (V : Type) where
  operations : Nat → Option (Operation V)
  branch : Option String
  slot_index : ∀ i operation, operations i = some operation → operation.index = i
  slot_branch : ∀ i operation, operations i = some operation →
    ∀ written, operation.branch = some written → written = branch

namespace TableTransaction

/-- `TableTransaction::new`. -/
def new (branch : Option String) : TableTransaction V where
  operations := fun _ => none
  branch := branch
  slot_index := by simp
  slot_branch := by simp

/-- Writing an operation into the slot of its kind. -/
def put (transaction : TableTransaction V) (operation : Operation V)
    (same : ∀ written, operation.branch = some written → written = transaction.branch) :
    TableTransaction V where
  operations := fun i => if i = operation.index then some operation else transaction.operations i
  branch := transaction.branch
  slot_index := by
    intro i op found
    by_cases here : i = operation.index
    · simp only [here, if_true, Option.some.injEq] at found
      rw [← found, here]
    · exact transaction.slot_index i op (by simpa [here] using found)
  slot_branch := by
    intro i op found
    by_cases here : i = operation.index
    · simp only [here, if_true, Option.some.injEq] at found
      rw [← found]
      exact same
    · exact transaction.slot_branch i op (by simpa [here] using found)

/-- A branch stored in a slot is the transaction's. -/
theorem branch_of_slot (transaction : TableTransaction V) {i : Nat} {operation : Operation V}
    (found : transaction.operations i = some operation) {written : Option String}
    (writes : operation.branch = some written) : written = transaction.branch :=
  transaction.slot_branch i operation found written writes

/-! ### Builder -/

/-- `add_schema`. -/
def addSchema (transaction : TableTransaction V) (schema : Schema) : TableTransaction V :=
  transaction.put (.addSchema schema) (by simp [Operation.branch])

/-- `set_default_spec`. -/
def setDefaultSpec (transaction : TableTransaction V) (specId : Int) : TableTransaction V :=
  transaction.put (.setDefaultSpec specId) (by simp [Operation.branch])

/-- `replace_sort_order`. -/
def replaceSortOrder (transaction : TableTransaction V) (sortOrder : SortOrder) :
    TableTransaction V :=
  transaction.put (.replaceSortOrder sortOrder) (by simp [Operation.branch])

/-- The panic of the two kinds of append in one transaction. -/
def mixedAppends : Error :=
  .panicked "Cannot use append and append_sequence_group in the same transaction"

/-- `append_data`. -/
def appendData (transaction : TableTransaction V) (files : List (DataFile V)) :
    Except Error (TableTransaction V) :=
  if (transaction.operations 3).isSome then .error mixedAppends
  else match found : transaction.operations 2 with
    | none => .ok (transaction.put (.append transaction.branch files [] (appendSummary files))
        (by simp [Operation.branch]))
    | some (.append branch old deleteFiles summary) =>
      .ok (transaction.put (.append branch (old ++ files) deleteFiles summary)
        (fun _ writes => transaction.branch_of_slot found writes))
    | some _ => .ok transaction

/-- `append_delete`. -/
def appendDelete (transaction : TableTransaction V) (files : List (DataFile V)) :
    Except Error (TableTransaction V) :=
  if (transaction.operations 3).isSome then .error mixedAppends
  else match found : transaction.operations 2 with
    | none => .ok (transaction.put (.append transaction.branch [] files none)
        (by simp [Operation.branch]))
    | some (.append branch dataFiles old summary) =>
      .ok (transaction.put (.append branch dataFiles (old ++ files) summary)
        (fun _ writes => transaction.branch_of_slot found writes))
    | some _ => .ok transaction

/-- `append_sequence_group`. -/
def appendSequenceGroup (transaction : TableTransaction V) (dataFiles deleteFiles : List (DataFile V)) :
    Except Error (TableTransaction V) :=
  if (transaction.operations 2).isSome then .error mixedAppends
  else match found : transaction.operations 3 with
    | none => .ok (transaction.put
        (.appendSequenceGroups transaction.branch [⟨deleteFiles, dataFiles⟩])
        (by simp [Operation.branch]))
    | some (.appendSequenceGroups branch old) =>
      .ok (transaction.put (.appendSequenceGroups branch (old ++ [⟨deleteFiles, dataFiles⟩]))
        (fun _ writes => transaction.branch_of_slot found writes))
    | some _ => .ok transaction

/-- `overwrite`: of two lists for one manifest the later one is kept. -/
def overwrite (transaction : TableTransaction V) (files : List (DataFile V))
    (filesToOverwrite : HashMap String (List String)) : TableTransaction V :=
  match found : transaction.operations 5 with
  | none => transaction.put
      (.overwrite transaction.branch files filesToOverwrite (appendSummary files))
      (by simp [Operation.branch])
  | some (.overwrite branch old oldFilesToOverwrite summary) =>
    transaction.put
      (.overwrite branch (old ++ files) (oldFilesToOverwrite.extend filesToOverwrite.iter) summary)
      (fun _ writes => transaction.branch_of_slot found writes)
  | some _ => transaction

/-- `truncate`. -/
def truncate (transaction : TableTransaction V) : TableTransaction V :=
  transaction.put (.truncate transaction.branch) (by simp [Operation.branch])

/-- `replace`: a replacement that already carries a summary is left as it is. -/
def replace (transaction : TableTransaction V) (files : List (DataFile V)) : TableTransaction V :=
  match found : transaction.operations 4 with
  | none => transaction.put (.replace transaction.branch files none) (by simp [Operation.branch])
  | some (.replace branch old none) =>
    transaction.put (.replace branch (old ++ files) none)
      (fun _ writes => transaction.branch_of_slot found writes)
  | some _ => transaction

/-- `replace_with_lineage`. -/
def replaceWithLineage (transaction : TableTransaction V) (files : List (DataFile V))
    (additionalSummary : HashMap String String) : TableTransaction V :=
  match found : transaction.operations 4 with
  | none => transaction.put (.replace transaction.branch files (some additionalSummary))
      (by simp [Operation.branch])
  | some (.replace branch old _) =>
    transaction.put (.replace branch (old ++ files) (some additionalSummary))
      (fun _ writes => transaction.branch_of_slot found writes)
  | some _ => transaction

/-- `update_properties`. -/
def updateProperties (transaction : TableTransaction V) (entries : List (String × String)) :
    TableTransaction V :=
  match transaction.operations 6 with
  | none => transaction.put (.updateProperties entries) (by simp [Operation.branch])
  | some (.updateProperties old) =>
    transaction.put (.updateProperties (old ++ entries)) (by simp [Operation.branch])
  | some _ => transaction

/-- `set_snapshot_ref`. -/
def setSnapshotRef (transaction : TableTransaction V) (entry : String × SnapshotReference) :
    TableTransaction V :=
  transaction.put (.setSnapshotRef entry) (by simp [Operation.branch])

/-- `expire_snapshots`. -/
def expireSnapshots (transaction : TableTransaction V) (olderThan : Option Int)
    (retainLast : Option Nat) (cleanOrphanFiles retainRefSnapshots dryRun : Bool) :
    TableTransaction V :=
  transaction.put
    (.expireSnapshots olderThan retainLast cleanOrphanFiles retainRefSnapshots dryRun)
    (by simp [Operation.branch])

/-! ### Commit -/

/-- The operations in the order of their slots. -/
def flatten (transaction : TableTransaction V) : List (Operation V) :=
  (List.range numOperations).filterMap transaction.operations

/-- Whether an operation writes or removes files. -/
def writesFiles : Operation V → Bool
  | .append _ dataFiles deleteFiles _ => !dataFiles.isEmpty || !deleteFiles.isEmpty
  | .appendSequenceGroups _ groups =>
    groups.any fun group => !group.dataFiles.isEmpty || !group.deleteFiles.isEmpty
  | .replace _ files _ => !files.isEmpty
  | .overwrite _ dataFiles filesToOverwrite _ =>
    !dataFiles.isEmpty || !filesToOverwrite.keys.isEmpty
  | _ => false

/-- `reject_spec_change_with_file_write`. -/
def rejectSpecChangeWithFileWrite (transaction : TableTransaction V) (currentSpecId : Int) :
    Except Error Unit :=
  let changesSpec := match transaction.operations 1 with
    | some (.setDefaultSpec specId) => decide (specId ≠ currentSpecId)
    | _ => false
  if changesSpec && transaction.flatten.any writesFiles then
    .error (.notSupported ("Changing the default partition spec and writing files " ++
      "in one transaction is not supported"))
  else .ok ()

/-- The requirements a truncation adds: no reference may have moved. -/
def truncateRequirements (transaction : TableTransaction V) (base : TableMetadata) :
    List TableRequirement :=
  if (transaction.operations 10).isSome then
    base.refs.iter.map fun entry => .assertRefSnapshotId entry.1 (some entry.2.snapshotId)
  else []

/-- The loop of `commit`: the store, the staged metadata where there are several operations, and
what is to be sent. -/
structure CommitState (V : Type) where
  store : Store V
  staged : Option TableMetadata
  requirements : List TableRequirement
  updates : List TableUpdate

/-- The requirement of one operation.  On staged metadata it is checked there, and sent only if it
also holds of the base, since earlier operations of the transaction may have caused it. -/
def addRequirement (base : TableMetadata) (identifier : String) (staged : Option TableMetadata)
    (requirements : List TableRequirement) (requirement : Option TableRequirement) :
    Except Error (List TableRequirement) :=
  match requirement, staged with
  | none, _ => .ok requirements
  | some requirement, none => .ok (requirements ++ [requirement])
  | some requirement, some metadata =>
    if !checkTableRequirement metadata requirement then .error (.commitConflict identifier)
    else if checkTableRequirement base requirement then .ok (requirements ++ [requirement])
    else .ok requirements

/-- Applying an operation's updates to the staged metadata. -/
def stage (staged : Option TableMetadata) (updates : List TableUpdate) (now : Int) :
    Except Error (Option TableMetadata) :=
  match staged with
  | none => .ok none
  | some metadata => (applyTableUpdates metadata updates now).map some

variable [PartitionValue V]

/-- One operation of `commit`.  The clock of the staged metadata is the operation's. -/
def commitStep (base : TableMetadata) (identifier : String) (entropy : Nat → Entropy)
    (state : CommitState V) (operation : Operation V) : Except Error (CommitState V) := do
  let metadata := state.staged.getD base
  let drawn := entropy operation.index
  let (store, requirement, updates) ← operation.execute metadata state.store drawn
  let requirements ← addRequirement base identifier state.staged state.requirements requirement
  let staged ← stage state.staged updates drawn.timestampMs
  .ok ⟨store, staged, requirements, state.updates ++ updates⟩

/-- The data writes a truncation cannot be combined with. -/
def hasDataWrite (transaction : TableTransaction V) : Bool :=
  [2, 3, 4, 5].any fun index => (transaction.operations index).isSome

/-- `CommitTable`: what the catalog is sent. -/
structure CommitTable where
  requirements : List TableRequirement
  updates : List TableUpdate

/-- `TableTransaction::commit` up to the catalog call; `none` where there is nothing to commit. -/
def prepare (transaction : TableTransaction V) (base : TableMetadata) (store : Store V)
    (identifier : String) (entropy : Nat → Entropy) :
    Except Error (Store V × Option CommitTable) :=
  if base.tableUuid.value = 0 ∧ !transaction.flatten.isEmpty then
    .error (.notSupported ("writes to Iceberg tables without a table UUID " ++
      "cannot be fenced against DROP/recreate"))
  else do
    transaction.rejectSpecChangeWithFileWrite base.defaultSpecId
    if (transaction.operations 10).isSome && hasDataWrite transaction then
      .error (.notSupported ("TRUNCATE cannot be combined with another data write " ++
        "in one Iceberg transaction"))
    else do
      let staged := if transaction.flatten.length ≥ 2 then some base else none
      let state ← transaction.flatten.foldlM (commitStep base identifier entropy)
        ⟨store, staged,
          .assertTableUuid base.tableUuid :: transaction.truncateRequirements base, []⟩
      if state.updates.isEmpty then .ok (state.store, none)
      else .ok (state.store, some ⟨state.requirements, state.updates⟩)

end TableTransaction

end IcebergRust

import IcebergRust.Lib.Interleaving
import IcebergRust.Table.Scan
import IcebergRust.Transaction.Transaction
import IcebergRust.View.Operation

/-!
# Transactions of materialized views

`iceberg-rust/src/materialized_view/transaction/mod.rs`: a transaction on a materialized
view and its storage table, one request to the object store or the catalog at a time.

* `begin` and `advance` are `commit`.  It commits the storage table, then the view, and
  after a full refresh deletes files of the storage table it loaded.
* `filesToDelete` is the reading half of `delete_all_table_files`, and `Call.deleting` the
  other half: within one stage the deletions run concurrently, in any order.
* A location is read and written under `path (stripPrefix location)`, and deleted under
  `path location`.  Both functions are third-party code and parameters here.
-/

namespace IcebergRust

open TableTransaction View

variable {V : Type}

/-- A handle of a materialized view: the metadata is what it was when the handle was made. -/
structure MaterializedView where
  identifier : String
  metadata : GeneralViewMetadata String

namespace MaterializedView

/-- `REFRESH_STATE`. -/
def refreshStateKey : String := "refresh-state"

/-- The summary fields of a refresh. -/
def lineage (refreshState : String) : Option (HashMap String String) :=
  some (HashMap.fromIter [(refreshStateKey, refreshState)])

/-- `TableOperation::Append` of a materialized view, without the branch. -/
structure AppendFiles (V : Type) where
  dataFiles : List (DataFile V)
  deleteFiles : List (DataFile V)
  refreshState : String

/-- `TableOperation::Replace` of a materialized view, without the branch. -/
structure ReplaceFiles (V : Type) where
  files : List (DataFile V)
  refreshState : String

/-- `Transaction`: of the slots for storage table operations two are ever filled.  A refresh state
is the JSON text of one. -/
structure Transaction (V : Type) where
  materializedView : MaterializedView
  viewOperations : View.Transaction
  append : Option (AppendFiles V)
  replace : Option (ReplaceFiles V)

namespace Transaction

/-- `Transaction::new`. -/
def new (materializedView : MaterializedView) (branch : Option String) : Transaction V :=
  ⟨materializedView, .new branch, none, none⟩

variable (transaction : Transaction V)

def branch : Option String := transaction.viewOperations.branch

/-- `update_representations`. -/
def updateRepresentations (representations : List ViewRepresentation) (schema : StructType) :
    Transaction V :=
  { transaction with
    viewOperations := transaction.viewOperations.updateRepresentations representations schema }

/-- `update_properties`. -/
def updateProperties (entries : List (String × String)) : Transaction V :=
  { transaction with viewOperations := transaction.viewOperations.updateProperties entries }

/-- `full_refresh`. -/
def fullRefresh (files : List (DataFile V)) (refreshState : String) : Transaction V :=
  { transaction with
    replace := match transaction.replace with
      | some old => some ⟨old.files ++ files, refreshState⟩
      | none => some ⟨files, refreshState⟩ }

/-- `append`. -/
def appendData (files : List (DataFile V)) (refreshState : String) : Transaction V :=
  { transaction with
    append := match transaction.append with
      | some old => some ⟨old.dataFiles ++ files, old.deleteFiles, refreshState⟩
      | none => some ⟨files, [], refreshState⟩ }

/-- `delete`. -/
def appendDelete (files : List (DataFile V)) (refreshState : String) : Transaction V :=
  { transaction with
    append := match transaction.append with
      | some old => some ⟨old.dataFiles, old.deleteFiles ++ files, refreshState⟩
      | none => some ⟨[], files, refreshState⟩ }

/-- `storage_table_operations`, in the order of their slots. -/
def storageTableOperations : List (Operation V) :=
  (transaction.append.map fun files => .append transaction.branch files.dataFiles
    files.deleteFiles (lineage files.refreshState)).toList ++
  (transaction.replace.map fun files => .replace transaction.branch files.files
    (lineage files.refreshState)).toList

/-- One operation on the storage table: it reads the metadata the transaction has loaded, whatever
the operations before it do. -/
def executeStep [PartitionValue V] (metadata : TableMetadata) (entropy : Nat → Entropy)
    (state : Store V × CommitTable) (operation : Operation V) :
    Except Error (Store V × CommitTable) := do
  let (store, requirement, updates) ←
    operation.execute metadata state.1 (entropy operation.index)
  .ok (store, ⟨state.2.requirements ++ requirement.toList, state.2.updates ++ updates⟩)

/-- The operations on the storage table. -/
def execute [PartitionValue V] (metadata : TableMetadata) (store : Store V)
    (entropy : Nat → Entropy) : Except Error (Store V × CommitTable) :=
  transaction.storageTableOperations.foldlM (executeStep metadata entropy) (store, ⟨[], []⟩)

end Transaction

/-! ### `delete_all_table_files` -/

/-- The files a stream of manifests yields until it ends or a manifest cannot be read, and whether
it ends. -/
def streamedFiles [PartitionValue V] (store : Store V) :
    List (ManifestListEntry V) → List String × Bool
  | [] => ([], true)
  | row :: rows =>
    match rangeEntries store (none, none) row with
    | .error _ => ([], false)
    | .ok entries =>
      let rest := streamedFiles store rows
      (entries.map (·.2.dataFile.filePath) ++ rest.1, rest.2)

/-- What is deleted, stage by stage: the files of the main branch, its manifests, and the manifest
lists of all snapshots.  Nothing is where the main branch has no snapshot, and the first stage is
the last where a manifest cannot be read. -/
def filesToDelete [PartitionValue V] (metadata : TableMetadata) (store : Store V) :
    Except Error (List (List String)) := do
  match ← metadata.currentSnapshot none with
  | none => .ok []
  | some snapshot => do
    let rows ← readSnapshot snapshot metadata store
    let streamed := streamedFiles store rows
    .ok (if streamed.2 then
      [streamed.1, rows.map (·.manifestPath), metadata.snapshots.values.map (·.manifestList)]
    else [streamed.1])

/-! ### State -/

/-- A clean-up that has begun: the metadata its transaction had loaded, and the objects it finds. -/
structure Cleanup (V : Type) where
  metadata : TableMetadata
  store : Store V

/-- What all processes share: the storage table and the view as the catalog has them, the objects,
the locations that have been passed to `delete`, and the clean-ups that have begun. -/
structure Shared (V : Type) where
  table : TableMetadata
  view : GeneralViewMetadata String
  store : Store V
  deleted : List String
  cleanups : List (Cleanup V)

/-- A commit between two steps. -/
inductive Call (V : Type) where
  /-- The storage table is loaded. -/
  | loaded (transaction : Transaction V) (metadata : TableMetadata)
  /-- Its operations are executed. -/
  | executed (transaction : Transaction V) (metadata : TableMetadata) (commit : CommitTable)
  /-- The storage table is committed. -/
  | stored (transaction : Transaction V) (metadata : TableMetadata)
  /-- The view is committed too. -/
  | refreshed (old : Option TableMetadata)
  /-- The clean-up has these stages left. -/
  | deleting (stages : List (List String))

/-- What one step reads from outside: the randomness and the clocks, and for a deletion which
location is next and whether the object store deletes it. -/
structure Environment where
  entropy : Nat → Entropy
  now : Int
  clock : Nat → Int
  place : Nat
  deletes : Bool

/-- The object of that name is gone. -/
def deleteObject (stripPrefix path : String → String) (store : Store V) (name : String) :
    Store V where
  manifest := fun p => if path (stripPrefix p) = name then none else store.manifest p
  manifestList := fun p => if path (stripPrefix p) = name then none else store.manifestList p

namespace Shared

variable (shared : Shared V)

/-- `update_table`. -/
def updateTable (commit : CommitTable) (now : Int) : Except Error TableMetadata :=
  if checkTableRequirements commit.requirements shared.table then
    applyTableUpdates shared.table commit.updates now
  else .error (.commitConflict "storage table")

/-- `update_materialized_view`. -/
def updateMaterializedView (commit : CommitView String) :
    Except Error (GeneralViewMetadata String) :=
  if checkViewRequirements commit.requirements shared.view then
    applyViewUpdates shared.view commit.updates
  else .error (.invalidFormat "Materialized view requirements not valid")

/-- `object_store.delete`. -/
def delete (stripPrefix path : String → String) (location : String) : Shared V :=
  { shared with
    store := deleteObject stripPrefix path shared.store (path location)
    deleted := location :: shared.deleted }

end Shared

/-! ### Calls -/

/-- `commit` up to the loading of the storage table. -/
def begin (storageTable : String) (transaction : Transaction V) (shared : Shared V) :
    Shared V × Option (Call V) :=
  match transaction.materializedView.metadata.currentVersion none with
  | .error _ => (shared, none)
  | .ok version =>
    if version.storageTable = storageTable then (shared, some (.loaded transaction shared.table))
    else (shared, none)

/-- The next step of a clean-up: one location of the current stage is deleted, and a failure ends
the clean-up. -/
def advanceCleanup (stripPrefix path : String → String) (environment : Environment)
    (shared : Shared V) : List (List String) → Shared V × Option (Call V)
  | [] => (shared, none)
  | [] :: stages => (shared, some (.deleting stages))
  | stage :: stages =>
    match stage[environment.place]? with
    | none => (shared, some (.deleting (stage :: stages)))
    | some location =>
      if environment.deletes then
        (shared.delete stripPrefix path location,
          some (.deleting (stage.eraseIdx environment.place :: stages)))
      else (shared, none)

/-- The next step of `commit`. -/
def advance [PartitionValue V] (stripPrefix path : String → String) (environment : Environment)
    (call : Call V) (shared : Shared V) : Shared V × Option (Call V) :=
  match call with
  | .loaded transaction metadata =>
    match transaction.execute metadata shared.store environment.entropy with
    | .error _ => (shared, none)
    | .ok (store, commit) => ({ shared with store }, some (.executed transaction metadata commit))
  | .executed transaction metadata commit =>
    match shared.updateTable commit environment.now with
    | .error _ => (shared, none)
    | .ok table => ({ shared with table }, some (.stored transaction metadata))
  | .stored transaction metadata =>
    let handle := transaction.materializedView
    match transaction.viewOperations.prepare handle.metadata handle.identifier environment.clock
        >>= shared.updateMaterializedView with
    | .error _ => (shared, none)
    | .ok view =>
      ({ shared with view }, some (.refreshed (transaction.replace.map fun _ => metadata)))
  | .refreshed none => (shared, none)
  | .refreshed (some old) =>
    let begun := { shared with cleanups := ⟨old, shared.store⟩ :: shared.cleanups }
    match filesToDelete old shared.store with
    | .error _ => (begun, none)
    | .ok stages => (begun, some (.deleting stages))
  | .deleting stages => advanceCleanup stripPrefix path environment shared stages

def system [PartitionValue V] (stripPrefix path : String → String) (storageTable : String) :
    Interleaving.System (Shared V) (Call V) (Transaction V) Environment :=
  ⟨begin storageTable, advance stripPrefix path⟩

abbrev Event (V : Type) := Interleaving.Event (Transaction V) Environment

/-- A run of any number of processes, from a storage table and a view as they are created. -/
def runMatview [PartitionValue V] (stripPrefix path : String → String) (storageTable : String)
    (table : TableMetadata) (view : GeneralViewMetadata String) (events : List (Event V)) :
    Interleaving.State (Shared V) (Call V) :=
  Interleaving.run (system stripPrefix path storageTable) ⟨⟨table, view, .empty, [], []⟩, []⟩
    events

end MaterializedView

end IcebergRust

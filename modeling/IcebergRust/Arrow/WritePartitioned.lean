import IcebergRust.Arrow.PartitionPaths
import IcebergRust.Arrow.Write
import IcebergRust.Lib.LruCache
import IcebergRust.Lib.Routing

/-!
# Writing by partition

`store_parquet_partitioned` of `iceberg-rust/src/arrow/write.rs`, with `write_parquet_partitioned`
and `write_sorted_parquet_partitioned`.  Equality deletes, which go through the same function with a
projected schema, are left out.

* The coordinator reads the stream, divides every batch and sends its groups to the writers of
  their partitions; too many writers, and the channel of the one used least recently is closed.  At
  the end it joins the writers in the order they finish.
* A writer takes batches off its channel one at a time.  An `Event` is one step of the coordinator
  or of a writer: every order in which they make progress is a list of events.
* `System.Holds` is what every step keeps, as long as no writer fails that has a batch to come.
-/

namespace IcebergRust.Arrow

open Fallible Grouping Routing

/-! ### Preparing a write -/

/-- What the caller promises about the order of the rows. -/
inductive InputOrdering where
  | unspecified
  | sortedByDefaultOrder
deriving DecidableEq, Repr

/-- What `store_parquet_partitioned` is given beside the table and the stream. -/
structure StoreContext where
  libraries : WriteLibraries
  /-- The names that the files of a writer are given: the writers have numbers. -/
  naming : Nat → FileNaming
  /-- `available_parallelism`. -/
  parallelism : Nat

/-- What is read off the table. -/
structure Prepared where
  schema : Schema
  sortOrder : Option SortOrder
  partitionFields : List BoundPartitionField
  dataLocation : String
  tableProperties : HashMap String String

/-- The order the files attest: an order without fields says nothing. -/
def attestedOrder (metadata : TableMetadata) :
    InputOrdering → Except WriteError (Option SortOrder)
  | .sortedByDefaultOrder => (metadata.defaultSortOrder.mapError .iceberg).map fun order =>
      if order.fields.isEmpty then none else some order
  | .unspecified => .ok none

/-- What comes before the stream is read. -/
def prepare (context : StoreContext) (metadata : TableMetadata) (ordering : InputOrdering) :
    Except WriteError Prepared := do
  let schema ← metadata.currentSchema.mapError .iceberg
  let sortOrder ← attestedOrder metadata ordering
  let _ ← metadata.defaultPartitionSpec.mapError .iceberg
  let partitionFields ← metadata.currentPartitionFields.mapError .iceberg
  let _ ← (context.libraries.arrowSchema schema).mapError .iceberg
  .ok {
    schema, sortOrder, partitionFields
    dataLocation := (metadata.properties.lookup "write.data.path").getD
      (metadata.location ++ "/data/")
    tableProperties := metadata.properties }

namespace Prepared

variable (prepared : Prepared)

/-- Whether the files go to random directories. -/
def objectStorage : Bool :=
  prepared.tableProperties.lookup "write.object-storage.enabled" = some "true"

/-- The parameters of a writer. -/
def fileContext (context : StoreContext) (number : Nat) (partitionPath : Option String)
    (partitionValues : Option (List (Option Value))) : FileContext where
  libraries := context.libraries
  naming := context.naming number
  dataLocation := prepared.dataLocation
  schema := prepared.schema
  partitionFields := prepared.partitionFields
  partitionPath := partitionPath
  partitionValues := partitionValues
  tableProperties := prepared.tableProperties
  sortOrder := prepared.sortOrder

/-- The parameters of the only writer of a table without partition fields. -/
def unpartitioned (context : StoreContext) : FileContext :=
  prepared.fileContext context 0 (if prepared.objectStorage then some "" else none) none

/-- The parameters of the writer with a number. -/
def writer (context : StoreContext) (number : Nat) (values : List (Option Value)) : FileContext :=
  prepared.fileContext context number
    (if prepared.objectStorage then none
      else some (generatePartitionPath (context.naming number) prepared.partitionFields values))
    (some values)

end Prepared

/-! ### Writers -/

/-- How far a writer is. -/
inductive Status where
  | starting
  /-- The loop, with a batch that was taken off the channel. -/
  | writing (state : WriterState) (held : Option RecordBatch)
  | done (files : List WrittenFile)
  | failed (error : WriteError)

/-- A spawned writer. -/
structure Task where
  values : List (Option Value)
  inbox : Channel RecordBatch
  /-- What went into the channel so far: a record that no step reads. -/
  sent : List RecordBatch
  status : Status
  joined : Bool

namespace Task

/-- A writer is spawned with the first batch in its channel. -/
def spawn (values : List (Option Value)) (batch : RecordBatch) : Task where
  values := values
  inbox := (Channel.new 1).push batch
  sent := [batch]
  status := .starting
  joined := false

variable (task : Task)

/-- `SinkExt::send` to a channel that is open. -/
def receive (batch : RecordBatch) : Task :=
  { task with inbox := task.inbox.push batch, sent := task.sent ++ [batch] }

/-- `close_channel` of the sender. -/
def closeInbox : Task := { task with inbox := task.inbox.close }

def markJoined : Task := { task with joined := true }

/-- A step of a writer succeeds or fails; if it fails the receiver of its channel is dropped. -/
def settle : Except WriteError Status → Task
  | .ok status => { task with status }
  | .error error => { task with inbox := task.inbox.close, status := .failed error }

/-- The next step of a writer, up to where it may wait for its channel. -/
def advance (context : FileContext) : Task :=
  match task.status with
  | .starting => task.settle ((startWriter context).map (.writing · none))
  | .writing state (some batch) => task.settle ((state.write context batch).map (.writing · none))
  | .writing state none =>
    match task.inbox.messages with
    | batch :: messages =>
      { task with
        inbox := { task.inbox with messages }
        status := .writing state (some batch) }
    | [] =>
      if task.inbox.isOpen then task
      else task.settle ((state.finish context).map .done)
  | .done _ | .failed _ => task

/-- The error of a writer that has failed. -/
def failure : Option WriteError :=
  match task.status with
  | .failed error => some error
  | _ => none

/-- The files of a writer that is done. -/
def files : List WrittenFile :=
  match task.status with
  | .done files => files
  | _ => []

end Task

/-! ### The coordinator -/

/-- How far the coordinator is. -/
inductive Phase where
  /-- The groups of the current batch that are left, and the stream that is left. -/
  | reading (groups : List (Except ArrowError (List (Option Value) × RecordBatch)))
    (stream : List (Except ArrowError RecordBatch))
  /-- The files of the writers that were joined. -/
  | joining (files : List WrittenFile)
  | returned (result : Except WriteError (List WrittenFile))
  | panicked

/-- A write: the coordinator, its senders by partition, each with the number of its writer, and the
writers. -/
structure System where
  phase : Phase
  senders : LruCache (List (Option Value)) Nat
  tasks : List Task

/-- What makes progress. -/
inductive Event where
  | coordinator
  | writer (number : Nat)
  /-- `join_next` hands out a writer that is finished. -/
  | join (number : Nat)
deriving DecidableEq, Repr

namespace System

variable (context : StoreContext) (prepared : Prepared) (system : System)

/-- The sender used least recently is closed where there are too many. -/
def evict : System :=
  if context.parallelism < system.senders.len then
    { system with
      senders := system.senders.popLru
      tasks := match system.senders.entries.getLast? with
        | some entry => system.tasks.modify entry.2 Task.closeInbox
        | none => system.tasks }
  else system

/-- The next item of the stream. -/
def read (item : Except ArrowError RecordBatch) (stream : List (Except ArrowError RecordBatch)) :
    System :=
  match item >>= fun batch =>
      partitionRecordBatch context.libraries.kernels batch prepared.partitionFields with
  | .ok groups => { system.evict context with phase := .reading groups stream }
  | .error error => { system.evict context with phase := .returned (.error (.arrow error)) }

/-- A group goes to a writer; to send to one whose receiver is gone panics. -/
def send (number : Nat) (senders : LruCache (List (Option Value)) Nat) (batch : RecordBatch)
    (next : Phase) : System :=
  if (system.tasks[number]?).any (·.inbox.isOpen) then
    ⟨next, senders, system.tasks.modify number (·.receive batch)⟩
  else { system with phase := .panicked }

/-- A group goes to the writer of its partition, which is spawned if there is none. -/
def route (values : List (Option Value)) (batch : RecordBatch) (next : Phase) : System :=
  match system.senders.getMut values with
  | some (number, senders) => system.send number senders batch next
  | none =>
    ⟨next, system.senders.push values system.tasks.length,
      system.tasks ++ [Task.spawn values batch]⟩

/-- After the stream every sender is closed. -/
def closeSenders : List Task :=
  system.senders.entries.reverse.foldl (fun tasks entry => tasks.modify entry.2 Task.closeInbox)
    system.tasks

/-- The next step of the coordinator, which first waits for what it has sent to be flushed. -/
def coordinate : System :=
  if ∀ task ∈ system.tasks, task.inbox.Flushed then
    match system.phase with
    | .reading [] [] => ⟨.joining [], .unbounded, system.closeSenders⟩
    | .reading [] (item :: stream) => system.read context prepared item stream
    | .reading (.error error :: _) _ => { system with phase := .returned (.error (.arrow error)) }
    | .reading (.ok group :: groups) stream =>
      system.route group.1 group.2 (.reading groups stream)
    | .joining files =>
      if ∀ task ∈ system.tasks, task.joined = true then
        { system with phase := .returned (.ok files) }
      else system
    | .returned _ | .panicked => system
  else system

/-- A finished writer is joined. -/
def join (number : Nat) : System :=
  match system.phase, system.tasks[number]? with
  | .joining files, some task =>
    match task.joined, task.status with
    | false, .done written =>
      { system with
        phase := .joining (files ++ written)
        tasks := system.tasks.modify number Task.markJoined }
    | false, .failed error => { system with phase := .returned (.error (.writer error)) }
    | _, _ => system
  | _, _ => system

/-- Nothing happens any more once the function has returned: its writers are aborted. -/
def isOver : Bool :=
  match system.phase with
  | .returned _ | .panicked => true
  | _ => false

/-- One step. -/
def step : Event → System
  | .coordinator => system.coordinate context prepared
  | .writer number =>
    if system.isOver then system
    else
      { system with
        tasks := system.tasks.modify number fun task =>
          task.advance (prepared.writer context number task.values) }
  | .join number => system.join number

/-- Before the first step. -/
def start (stream : List (Except ArrowError RecordBatch)) : System :=
  ⟨.reading [] stream, .unbounded, []⟩

/-- A run. -/
def run (stream : List (Except ArrowError RecordBatch)) (events : List Event) : System :=
  events.foldl (step context prepared) (start stream)

/-- A function that has returned before any writer was spawned. -/
def immediate (result : Except WriteError (List WrittenFile)) : System :=
  ⟨.returned result, .unbounded, []⟩

end System

/-- `store_parquet_partitioned` after some events. -/
def storeParquetPartitioned (context : StoreContext) (metadata : TableMetadata)
    (ordering : InputOrdering) (stream : List (Except ArrowError RecordBatch))
    (events : List Event) : System :=
  match prepare context metadata ordering with
  | .error error => .immediate (.error error)
  | .ok prepared =>
    if prepared.partitionFields.isEmpty then
      .immediate (writeParquetFiles (prepared.unpartitioned context) stream)
    else .run context prepared stream events

/-- `write_parquet_partitioned`. -/
def writeParquetPartitioned (context : StoreContext) (metadata : TableMetadata)
    (stream : List (Except ArrowError RecordBatch)) (events : List Event) : System :=
  storeParquetPartitioned context metadata .unspecified stream events

/-- `write_sorted_parquet_partitioned`. -/
def writeSortedParquetPartitioned (context : StoreContext) (metadata : TableMetadata)
    (stream : List (Except ArrowError RecordBatch)) (events : List Event) : System :=
  storeParquetPartitioned context metadata .sortedByDefaultOrder stream events

end IcebergRust.Arrow

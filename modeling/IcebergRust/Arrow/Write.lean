import IcebergRust.Arrow.FilePath
import IcebergRust.Arrow.Partition
import IcebergRust.FileFormat.Inference
import IcebergRust.Lib.Channel
import IcebergRust.Spec.TableMetadata

/-!
# Writing a stream of batches to files

`write_parquet_files` of `iceberg-rust/src/arrow/write.rs`, as a write of data files calls it: the
batches go to a file until it is large enough, the finished file is handed over a channel without a
buffer, and the next one is begun.

* The Parquet writer and the object store are `FileStore`: every operation of theirs may fail, as it
  depends on the file and on what was written to it before.
* `WriterState.write` is one turn of the loop, `WriterState.finish` what comes after it.
* `writeParquetFiles_spec` says what the returned files have.
-/

namespace IcebergRust.Arrow

open Fallible

/-! ### What is written with -/

/-- How a write fails. -/
inductive WriteError where
  | arrow (error : ArrowError)
  | iceberg (error : Error)
  /-- A spawned writer has failed, or the task it ran in. -/
  | writer (error : WriteError)
deriving DecidableEq, Repr

/-- `SortingColumn` of a Parquet footer. -/
structure SortingColumn where
  columnIdx : Nat
  descending : Bool
  nullsFirst : Bool
deriving DecidableEq, Repr

/-- `SortAttestation`: how a sort order is recorded in the files of a write. -/
structure SortAttestation where
  orderId : Int
  sortingColumns : Option (List SortingColumn)
deriving DecidableEq, Repr

/-- The Parquet writers of a write and the store behind them.  A writer is known by its path and by
the batches it was given. -/
structure FileStore where
  /-- `AsyncArrowWriter::try_new`. -/
  create : String → Option SortAttestation → Except ArrowError Unit
  /-- `AsyncArrowWriter::write`. -/
  write : String → List RecordBatch → RecordBatch → Except ArrowError Unit
  /-- `bytes_written` and `in_progress_size`. -/
  fileSize : String → List RecordBatch → Nat
  /-- `AsyncArrowWriter::close`. -/
  close : String → List RecordBatch → Except ArrowError ParquetMetaData
  /-- `ObjectStore::head`. -/
  head : String → Except ArrowError (BitVec 64)

/-- What the writers call elsewhere. -/
structure WriteLibraries where
  kernels : Kernels
  files : FileLibraries
  /-- The Arrow schema of the fields of a schema. -/
  arrowSchema : Schema → Except Error Unit
  /-- The paths of the leaf columns that `ArrowSchemaConverter` makes of it. -/
  leafColumns : Schema → Except ArrowError (List (List String))
  /-- `Bucket::from_path`, as it is displayed. -/
  bucket : String → Except Error String
  store : FileStore

/-- The parameters of `write_parquet_files`. -/
structure FileContext where
  libraries : WriteLibraries
  naming : FileNaming
  dataLocation : String
  schema : Schema
  partitionFields : List BoundPartitionField
  partitionPath : Option String
  partitionValues : Option (List (Option Value))
  tableProperties : HashMap String String
  sortOrder : Option SortOrder

/-- `DEFAULT_TARGET_FILE_SIZE_BYTES`. -/
def defaultTargetFileSizeBytes : Nat := 512 * 1024 * 1024

/-- `target_file_size`. -/
def targetFileSize (tableProperties : HashMap String String) : Nat :=
  (((tableProperties.lookup "write.target-file-size-bytes").bind
    fun value => parseUsize value.toList).filter (0 < ·)).getD defaultTargetFileSizeBytes

/-! ### Attesting a sort order -/

/-- The column of a sort field, which is none where Parquet cannot describe it. -/
def sortingColumn (leaves : List (List String)) (sortOrder : SortOrder) (schema : Schema)
    (field : SortField) : Except ArrowError (Option SortingColumn) :=
  if field.transform ≠ .identity then .ok none
  else match schema.get field.sourceId with
    | none => .error (.schemaError ("sort order " ++ toString sortOrder.orderId ++
        " references field id " ++ toString field.sourceId ++ " that is not in the table schema"))
    | some column => .ok ((leaves.findIdx? (· = [column.name])).map fun columnIdx =>
        { columnIdx
          descending := field.direction = .descending
          nullsFirst := field.nullOrder = .first })

/-- The columns of some sort fields: all of them, or none. -/
def sortingColumns (leaves : List (List String)) (sortOrder : SortOrder) (schema : Schema) :
    List SortField → Except ArrowError (Option (List SortingColumn))
  | [] => .ok (some [])
  | field :: fields => do
    match ← sortingColumn leaves sortOrder schema field with
    | none => .ok none
    | some column => (sortingColumns leaves sortOrder schema fields).map (·.map (column :: ·))

/-- `sorting_columns_for`. -/
def sortingColumnsFor (libraries : WriteLibraries) (sortOrder : SortOrder) (schema : Schema) :
    Except ArrowError (Option (List SortingColumn)) := do
  let leaves ← libraries.leafColumns schema
  sortingColumns leaves sortOrder schema sortOrder.fields

/-- `SortAttestation::new`. -/
def SortAttestation.new (libraries : WriteLibraries) (schema : Schema) (sortOrder : SortOrder) :
    Except ArrowError SortAttestation :=
  (sortingColumnsFor libraries sortOrder schema).map fun columns => ⟨sortOrder.orderId, columns⟩

/-- The attestation of the files, if there is an order to attest. -/
def attestation (context : FileContext) : Except ArrowError (Option SortAttestation) :=
  match context.sortOrder with
  | none => .ok none
  | some sortOrder =>
    (SortAttestation.new context.libraries context.schema sortOrder).map some

/-! ### The writer -/

/-- A file that is handed over: its path and its footer, and what was written to it. -/
structure ClosedFile where
  path : String
  batches : List RecordBatch
  footer : ParquetMetaData

/-- A data file with the batches that were written to it. -/
structure WrittenFile where
  batches : List RecordBatch
  dataFile : DataFile Value

/-- The rows of a data file. -/
def WrittenFile.rows (file : WrittenFile) : List Row := file.batches.flatMap (·.rows)

/-- `WriterState`, with the channel of the finished files. -/
structure WriterState where
  bucket : String
  sortAttestation : Option SortAttestation
  finished : Channel ClosedFile
  path : String
  batches : List RecordBatch
  rowsWritten : Nat

section Writer

variable (context : FileContext)

/-- `create_arrow_writer`, for the file with a number. -/
def createArrowWriter (sortAttestation : Option SortAttestation) (number : Nat) :
    Except WriteError String :=
  let path := generateFilePath context.naming number context.dataLocation context.partitionPath
  ((context.libraries.store.create path sortAttestation).mapError .arrow).map fun _ => path

/-- What comes before the loop. -/
def startWriter : Except WriteError WriterState := do
  let bucket ← (context.libraries.bucket context.dataLocation).mapError .iceberg
  let sortAttestation ← (attestation context).mapError .arrow
  let path ← createArrowWriter context sortAttestation 0
  .ok { bucket, sortAttestation, finished := .new 0, path, batches := [], rowsWritten := 0 }

namespace WriterState

variable (state : WriterState)

/-- The current file is closed and handed over. -/
def handOver (sender : Channel.Sender) : Except WriteError (Channel ClosedFile) := do
  let footer ← (context.libraries.store.close state.path state.batches).mapError .arrow
  ((state.finished.trySend sender ⟨state.path, state.batches, footer⟩).mapError
    fun error => .arrow (.computeError error.text)).map (·.1)

/-- A file that is large enough makes room for a new one.  Every turn hands over by a clone of its
own. -/
def roll : Except WriteError WriterState :=
  if targetFileSize context.tableProperties ≤
      context.libraries.store.fileSize state.path state.batches then do
    let finished ← state.handOver context .fresh
    let path ← createArrowWriter context state.sortAttestation finished.messages.length
    .ok { state with finished, path, batches := [] }
  else .ok state

/-- One turn of the loop. -/
def write (batch : RecordBatch) : Except WriteError WriterState := do
  let state ← state.roll context
  ((context.libraries.store.write state.path state.batches batch).mapError .arrow).map fun _ =>
    { state with
      batches := state.batches ++ [batch]
      rowsWritten := state.rowsWritten + batch.numRows }

/-- The entry of a finished file. -/
def toDataFile (file : ClosedFile) : Except WriteError WrittenFile := do
  let size ← (context.libraries.store.head file.path).mapError .arrow
  let location := state.bucket ++ file.path
  let dataFile ← (match context.partitionValues with
    | some values => parquetToDatafileWithPartition context.libraries.files location size
        file.footer context.schema context.partitionFields none context.tableProperties values
    | none => parquetToDatafile context.libraries.files location size file.footer context.schema
        context.partitionFields none context.tableProperties).mapError .iceberg
  .ok ⟨file.batches, dataFile⟩

/-- What comes after the loop: the last file follows the others, and nothing is returned where
there was no row. -/
def finish : Except WriteError (List WrittenFile) := do
  let finished ← state.handOver context .fresh
  if state.rowsWritten = 0 then .ok []
  else finished.close.messages.mapM (state.toDataFile context)

end WriterState

/-- `write_parquet_files`. -/
def writeParquetFiles (batches : List (Except ArrowError RecordBatch)) :
    Except WriteError (List WrittenFile) := do
  let start ← startWriter context
  let final ← batches.foldlM (fun state item => item.mapError .arrow >>= state.write context) start
  final.finish context

end Writer

/-! ### The entry of a file -/

/-- A partition tuple under the names of its fields. -/
def partitionStruct (fields : List BoundPartitionField) (values : List (Option Value)) :
    Struct Value :=
  ⟨List.zipWith (fun field value => (field.name, value)) fields values⟩

/-- Where nothing is inferred the tuple stays as it is. -/
theorem Infers.eq_of_idle {context : CollectContext} {chunks : List ColumnChunkMetaData}
    {before after : Struct Value} (infers : Infers context chunks before after)
    (idle : ∀ column statistics partition,
      inferred context column statistics partition = .ok partition) : after = before := by
  induction infers with
  | done => rfl
  | passed _ _ ih => exact ih
  | looked _ _ step _ ih =>
    rw [ih]
    exact Except.ok.inj (step.symm.trans (idle _ _ _))

section Entry

variable {libraries : FileLibraries} {location : String} {fileSize : BitVec 64}
  {file : ParquetMetaData} {schema : Schema} {fields : List BoundPartitionField}
  {tableProperties : HashMap String String} {dataFile : DataFile Value}

/-- An entry has the partition values it was made with. -/
theorem entry_with_partition {values : List (Option Value)}
    (made : parquetToDatafileWithPartition libraries location fileSize file schema fields none
      tableProperties values = .ok dataFile) :
    dataFile.recordCount = file.numRows.toInt ∧ values.length = fields.length ∧
      dataFile.partition = partitionStruct fields values := by
  obtain ⟨counted, made⟩ := guard_eq_ok.mp made
  obtain ⟨collected, groups, made⟩ := bind_eq_ok.mp made
  obtain rfl := Except.ok.inj made
  refine ⟨rfl, by simpa using counted, ?_⟩
  exact Infers.eq_of_idle (infers_groups groups) fun _ _ _ => rfl

/-- Without partition fields the tuple of an entry is empty. -/
theorem entry_unpartitioned
    (made : parquetToDatafile libraries location fileSize file schema [] none tableProperties =
      .ok dataFile) :
    dataFile.recordCount = file.numRows.toInt ∧ dataFile.partition = partitionStruct [] [] := by
  unfold parquetToDatafile parquetToDatafileImpl at made
  obtain ⟨-, made⟩ := guard_eq_ok.mp made
  obtain ⟨collected, groups, made⟩ := bind_eq_ok.mp made
  obtain rfl := Except.ok.inj made
  refine ⟨rfl, ?_⟩
  exact Infers.eq_of_idle (infers_groups groups) fun _ _ _ => rfl

end Entry

/-! ### What the files have -/

/-- The number of rows of some batches. -/
def countRows (batches : List RecordBatch) : Nat := (batches.map (·.numRows)).sum

/-- A footer has the number of rows that were written. -/
def FileStore.Counts (store : FileStore) : Prop :=
  ∀ path batches footer, store.close path batches = .ok footer →
    footer.numRows.toInt = countRows batches

/-- The partition values are known, if there are partition fields. -/
def FileContext.Known (context : FileContext) : Prop :=
  context.partitionValues = none → context.partitionFields = []

/-- The partition values of all rows. -/
def FileContext.values (context : FileContext) : List (Option Value) :=
  context.partitionValues.getD []

/-- The files of a writer: they have the rows it was given, in the order it was given them, and
record how many they are and which values they have. -/
structure Written (context : FileContext) (taken : List RecordBatch) (files : List WrittenFile) :
    Prop where
  rows : files.flatMap (·.rows) = taken.flatMap (·.rows)
  counted : ∀ file ∈ files, file.dataFile.recordCount = countRows file.batches
  partition : ∀ file ∈ files, context.values.length = context.partitionFields.length ∧
    file.dataFile.partition = partitionStruct context.partitionFields context.values

/-- A writer after some batches: they are in the finished files and in the current one. -/
structure WriterState.Has (context : FileContext) (taken : List RecordBatch)
    (state : WriterState) : Prop where
  batches : state.finished.messages.flatMap (·.batches) ++ state.batches = taken
  counted : state.rowsWritten = countRows taken
  isOpen : state.finished.isOpen = true
  closed : ∀ file ∈ state.finished.messages,
    context.libraries.store.close file.path file.batches = .ok file.footer

theorem countRows_append (first second : List RecordBatch) :
    countRows (first ++ second) = countRows first + countRows second := by
  unfold countRows
  rw [List.map_append, List.sum_append]

theorem length_rows (batch : RecordBatch) : batch.rows.length = batch.numRows := by
  rw [RecordBatch.rows, List.length_map, List.length_range]

/-- Batches have as many rows as they say. -/
theorem length_flatMap_rows (batches : List RecordBatch) :
    (batches.flatMap (·.rows)).length = countRows batches := by
  unfold countRows
  rw [List.length_flatMap]
  simp only [length_rows]

section Spec

variable {context : FileContext} {state after : WriterState} {taken : List RecordBatch}
  {finished : Channel ClosedFile} {files : List WrittenFile}

theorem startWriter_spec (run : startWriter context = .ok state) : state.Has context [] := by
  obtain ⟨bucket, -, run⟩ := bind_eq_ok.mp run
  obtain ⟨attestation, -, run⟩ := bind_eq_ok.mp run
  obtain ⟨path, -, run⟩ := bind_eq_ok.mp run
  obtain rfl := Except.ok.inj run
  constructor
  · rfl
  · rfl
  · rfl
  · intro file member
    cases member

namespace WriterState.Has

/-- A fresh sender gets the file through a channel without a buffer. -/
theorem handOver (has : state.Has context taken)
    (run : state.handOver context .fresh = .ok finished) :
    ∃ footer, context.libraries.store.close state.path state.batches = .ok footer ∧
      finished = state.finished.push ⟨state.path, state.batches, footer⟩ := by
  obtain ⟨footer, closed, run⟩ := bind_eq_ok.mp run
  rw [Channel.trySend_fresh has.isOpen] at run
  obtain rfl := Except.ok.inj run
  exact ⟨footer, mapError_eq_ok.mp closed, rfl⟩

theorem roll (has : state.Has context taken) (run : state.roll context = .ok after) :
    after.Has context taken := by
  unfold WriterState.roll at run
  split at run
  · obtain ⟨finished, handed, run⟩ := bind_eq_ok.mp run
    obtain ⟨path, -, run⟩ := bind_eq_ok.mp run
    obtain rfl := Except.ok.inj run
    obtain ⟨footer, closed, rfl⟩ := has.handOver handed
    constructor
    · rw [Channel.messages_push, List.flatMap_append, List.append_nil, List.flatMap_singleton]
      exact has.batches
    · exact has.counted
    · exact has.isOpen
    · intro file member
      rcases List.mem_append.mp member with earlier | last
      · exact has.closed file earlier
      · obtain rfl := List.mem_singleton.mp last
        exact closed
  · exact Except.ok.inj run ▸ has

/-- One turn of the loop writes the batch to the current file. -/
theorem write {batch : RecordBatch} (has : state.Has context taken)
    (run : state.write context batch = .ok after) : after.Has context (taken ++ [batch]) := by
  obtain ⟨rolled, ran, run⟩ := bind_eq_ok.mp run
  obtain ⟨-, -, rfl⟩ := map_eq_ok.mp run
  have has := has.roll ran
  constructor
  · rw [← has.batches, List.append_assoc]
  · rw [countRows_append, ← has.counted]
    rfl
  · exact has.isOpen
  · exact has.closed

/-- The loop over some batches. -/
theorem writes {batches : List RecordBatch} (has : state.Has context taken)
    (run : batches.foldlM (WriterState.write context) state = .ok after) :
    after.Has context (taken ++ batches) := by
  refine foldlM_prefix_invariant (fun done (state : WriterState) =>
    state.Has context (taken ++ done)) ?_ run ?_
  · intro done batch before next _ has step
    rw [← List.append_assoc]
    exact has.write step
  · rwa [List.append_nil]

end WriterState.Has

theorem toDataFile_spec (known : context.Known) {file : ClosedFile} {made : WrittenFile}
    (run : state.toDataFile context file = .ok made) :
    made.batches = file.batches ∧ made.dataFile.recordCount = file.footer.numRows.toInt ∧
      context.values.length = context.partitionFields.length ∧
      made.dataFile.partition = partitionStruct context.partitionFields context.values := by
  obtain ⟨size, -, run⟩ := bind_eq_ok.mp run
  obtain ⟨dataFile, entry, run⟩ := bind_eq_ok.mp run
  obtain rfl := Except.ok.inj run
  have entry := mapError_eq_ok.mp entry
  refine ⟨rfl, ?_⟩
  unfold FileContext.values
  cases values : context.partitionValues with
  | none =>
    rw [values] at entry
    dsimp only at entry
    rw [known values] at entry ⊢
    obtain ⟨counted, partition⟩ := entry_unpartitioned entry
    exact ⟨counted, rfl, partition⟩
  | some values' =>
    rw [values] at entry
    exact entry_with_partition entry

/-- The entries of some closed files. -/
theorem toDataFiles_spec (known : context.Known) (counts : context.libraries.store.Counts)
    {closed : List ClosedFile} (run : closed.mapM (state.toDataFile context) = .ok files)
    (footers : ∀ file ∈ closed,
      context.libraries.store.close file.path file.batches = .ok file.footer) :
    Written context (closed.flatMap (·.batches)) files := by
  have made := mapM_eq_ok.mp run
  clear run
  induction made with
  | nil =>
    constructor
    · rfl
    · exact fun file member => absurd member List.not_mem_nil
    · exact fun file member => absurd member List.not_mem_nil
  | @cons file made closed files here _ ih =>
    have rest := ih fun other member => footers other (List.mem_cons_of_mem _ member)
    obtain ⟨batches, counted, partition⟩ := toDataFile_spec known here
    constructor
    · rw [List.flatMap_cons, List.flatMap_cons, List.flatMap_append, rest.rows, WrittenFile.rows,
        batches]
    · intro other member
      rcases List.mem_cons.mp member with rfl | later
      · rw [counted, batches]
        exact counts _ _ _ (footers file List.mem_cons_self)
      · exact rest.counted other later
    · intro other member
      rcases List.mem_cons.mp member with rfl | later
      · exact partition
      · exact rest.partition other later

/-- The last file follows the others.  Where nothing is returned there was no row. -/
theorem WriterState.Has.finish (known : context.Known) (counts : context.libraries.store.Counts)
    (has : state.Has context taken) (run : state.finish context = .ok files) :
    Written context taken files := by
  obtain ⟨finished, handed, run⟩ := bind_eq_ok.mp run
  obtain ⟨footer, closed, rfl⟩ := has.handOver handed
  split at run
  · rename_i empty
    obtain rfl := Except.ok.inj run
    rw [has.counted] at empty
    have rows : taken.flatMap (·.rows) = [] := by
      apply List.length_eq_zero_iff.mp
      rw [length_flatMap_rows, empty]
    constructor
    · exact rows.symm
    · exact fun file member => absurd member List.not_mem_nil
    · exact fun file member => absurd member List.not_mem_nil
  · have written := toDataFiles_spec known counts run (by
      intro file member
      rcases List.mem_append.mp member with earlier | last
      · exact has.closed file earlier
      · obtain rfl := List.mem_singleton.mp last
        exact closed)
    rwa [Channel.messages_close, Channel.messages_push, List.flatMap_append,
      List.flatMap_singleton, has.batches] at written

/-- The stream of a write without an error is its batches. -/
theorem foldlM_write {batches : List RecordBatch} :
    (batches.map Except.ok).foldlM
        (fun state item => item.mapError WriteError.arrow >>= state.write context) state =
      batches.foldlM (WriterState.write context) state :=
  List.foldlM_map

/-- The files of a stream have its rows in their order. -/
theorem writeParquetFiles_spec (known : context.Known) (counts : context.libraries.store.Counts)
    {stream : List (Except ArrowError RecordBatch)}
    (run : writeParquetFiles context stream = .ok files) :
    ∃ batches, stream = batches.map .ok ∧ Written context batches files := by
  obtain ⟨start, started, run⟩ := bind_eq_ok.mp run
  obtain ⟨final, wrote, finished⟩ := bind_eq_ok.mp run
  clear run
  obtain ⟨batches, rfl⟩ : ∃ batches : List RecordBatch, stream = batches.map .ok := by
    refine foldlM_prefix_invariant (fun done (_ : WriterState) =>
      ∃ batches : List RecordBatch, done = batches.map .ok) ?_ wrote ⟨[], rfl⟩
    rintro _ item before next _ ⟨batches, rfl⟩ step
    obtain ⟨batch, here, -⟩ := bind_eq_ok.mp step
    refine ⟨batches ++ [batch], ?_⟩
    rw [mapError_eq_ok.mp here, List.map_append, List.map_singleton]
  rw [foldlM_write] at wrote
  exact ⟨batches, rfl, ((startWriter_spec started).writes wrote).finish known counts finished⟩

end Spec

end IcebergRust.Arrow

import IcebergRust.Arrow.FilePath
import IcebergRust.Arrow.Partition
import IcebergRust.DataFusion.DeleteGroups
import IcebergRust.Lib.LruCache
import IcebergRust.Spec.TableMetadata

/-!
# Demultiplexing the batches of a write

`start_demuxer_task`, `partitions_demuxer` and `row_count_demuxer` of
`datafusion_iceberg/src/table/mod.rs`: the batches of a stream are handed to the files of a write,
by partition or in turn.

* A sender is the number of the file it was opened for; an evicted one leaves its file behind, and
  the partition gets another file when it comes up again.
* `Demuxed.Holds` is what one group of rows keeps: which rows the files have, what the senders lead
  to, and what is recorded for the path of a file.
* `demux_conserves` is the statement about whole runs; `partitionsDemuxer_total` says which runs
  succeed.
-/

namespace IcebergRust

open Arrow Fallible Grouping

/-! ### Files of a write -/

/-- How a demuxer stops early. -/
inductive DemuxError where
  | dataFusion (error : DataFusionError)
  | arrow (error : ArrowError)
  | iceberg (error : Error)
  /-- Nobody receives the files any more. -/
  | closed
  | panicked (message : String)
deriving DecidableEq, Repr

/-- Who still receives: the files after some paths, and the batches of a file after some others. -/
structure Receivers (P : Type) where
  acceptsFile : List P → Bool
  acceptsBatch : P → List Arrow.RecordBatch → Bool

/-- What the demuxers are given besides the stream: `path` is `Path::from`. -/
structure DemuxContext (P : Type) where
  kernels : Kernels
  naming : FileNaming
  path : String → P
  receivers : Receivers P
  /-- `available_parallelism`. -/
  parallelism : Nat
  softMaxRowsPerOutputFile : Nat
  minimumParallelOutputFiles : Nat
  /-- It is a `NonZeroUsize`. -/
  parallel : 0 < minimumParallelOutputFiles

/-- The files that were opened, and the batches each of them has received. -/
abbrev OpenedFiles (P : Type) := List (P × List Arrow.RecordBatch)

/-- The rows of some batches. -/
def rowsOfBatches (batches : List Arrow.RecordBatch) : List Row := batches.flatMap (·.rows)

/-- `data_location` of a write. -/
def dataLocation (tableLocation : String) : String := trimEndMatches tableLocation '/' ++ "/data/"

/-- The path of the next file. -/
def newPath {P : Type} (context : DemuxContext P) (files : OpenedFiles P) (tableLocation : String)
    (partitionPath : Option String) : P :=
  context.path (generateFilePath context.naming files.length (dataLocation tableLocation)
    partitionPath)

/-- A new file is announced, with the batches sent to it before. -/
def createFile {P : Type} (context : DemuxContext P) (files : OpenedFiles P)
    (tableLocation : String) (partitionPath : Option String)
    (first : List Arrow.RecordBatch) (gone : DemuxError) : Except DemuxError (OpenedFiles P) :=
  if context.receivers.acceptsFile (files.map (·.1)) then
    .ok (files ++ [(newPath context files tableLocation partitionPath, first)])
  else .error gone

/-- `Sender::send` of the file with a number. -/
def sendBatch {P : Type} (context : DemuxContext P) (files : OpenedFiles P) (sender : Nat)
    (batch : Arrow.RecordBatch) (gone : DemuxError) : Except DemuxError (OpenedFiles P) :=
  if (files[sender]?).any fun file => context.receivers.acceptsBatch file.1 file.2 then
    .ok (files.modify sender fun file => (file.1, file.2 ++ [batch]))
  else .error gone

/-! ### By partition -/

/-- The state of `partitions_demuxer`. -/
structure Demuxed (P : Type) where
  senders : LruCache (List (Option Value)) Nat
  files : OpenedFiles P
  partitionValuesByPath : HashMap P (List (Option Value))

section Partitions

variable {P : Type} [DecidableEq P] (context : DemuxContext P)
  (fields : List BoundPartitionField) (properties : HashMap String String) (tableLocation : String)

/-- The partition part of a path; there is none in object storage mode. -/
def partitionPath (values : List (Option Value)) : Option String :=
  if properties.lookup "write.object-storage.enabled" = some "true" then none
  else some (generatePartitionPath context.naming fields values)

/-- A file is opened for a group of a partition that has no sender. -/
def openPartition (state : Demuxed P) (values : List (Option Value))
    (batch : Arrow.RecordBatch) : Except DemuxError (Demuxed P) := do
  let partitionPath := partitionPath context fields properties values
  let path := newPath context state.files tableLocation partitionPath
  let files ← createFile context state.files tableLocation partitionPath [batch] .closed
  .ok { senders := state.senders.push values state.files.length
        files := files
        partitionValuesByPath := state.partitionValuesByPath.insert path values }

/-- A group of rows goes to the sender of its partition. -/
def sendGroup (state : Demuxed P)
    (result : Except ArrowError (List (Option Value) × Arrow.RecordBatch)) :
    Except DemuxError (Demuxed P) := do
  let group ← result.mapError .arrow
  match state.senders.getMut group.1 with
  | some (sender, senders) =>
    (sendBatch context state.files sender group.2
      (.panicked "called `Result::unwrap()` on an `Err` value")).map fun files =>
        { state with senders := senders, files := files }
  | none => openPartition context fields properties tableLocation state group.1 group.2

/-- Where there are too many senders the one used least recently goes. -/
def Demuxed.evict (state : Demuxed P) : Demuxed P :=
  if context.parallelism < state.senders.len then
    { state with senders := state.senders.popLru }
  else state

/-- One batch of the stream. -/
def demuxBatch (state : Demuxed P) (item : Except DataFusionError Arrow.RecordBatch) :
    Except DemuxError (Demuxed P) := do
  let batch ← item.mapError .dataFusion
  let results ← (partitionRecordBatch context.kernels batch fields).mapError .arrow
  results.foldlM (sendGroup context fields properties tableLocation) (state.evict context)

/-- `partitions_demuxer`. -/
def partitionsDemuxer (stream : List (Except DataFusionError Arrow.RecordBatch)) :
    Except DemuxError (Demuxed P) :=
  stream.foldlM (demuxBatch context fields properties tableLocation) ⟨.unbounded, [], ∅⟩

end Partitions

/-! ### In turn -/

/-- The state of `row_count_demuxer`: the file of each stream and how many rows it has. -/
structure RowCounted (P : Type) where
  openFileStreams : List Nat
  rowCounts : List Nat
  nextSendStream : Nat
  files : OpenedFiles P

/-- The error of `row_count_demuxer` when a receiver is gone. -/
def noStream : DemuxError :=
  .dataFusion (.execution "Error sending RecordBatch to file stream!")

section RowCount

variable {P : Type} (context : DemuxContext P) (tableLocation : String)

/-- The stream whose turn it is: a new one while there are few, else a new file where the file has
enough rows. -/
def RowCounted.turn (state : RowCounted P) : Except DemuxError (RowCounted P) :=
  if state.openFileStreams.length < context.minimumParallelOutputFiles then
    (createFile context state.files tableLocation none [] noStream).map fun files =>
      { state with
        openFileStreams := state.openFileStreams ++ [state.files.length]
        rowCounts := state.rowCounts ++ [0]
        files := files }
  else if context.softMaxRowsPerOutputFile ≤ state.rowCounts.getD state.nextSendStream 0 then
    (createFile context state.files tableLocation none [] noStream).map fun files =>
      { state with
        openFileStreams := state.openFileStreams.set state.nextSendStream state.files.length
        rowCounts := state.rowCounts.set state.nextSendStream 0
        files := files }
  else .ok state

/-- The rows of a sent batch are counted, and the turn passes on. -/
def RowCounted.sent (state : RowCounted P) (batch : Arrow.RecordBatch) (files : OpenedFiles P) :
    RowCounted P where
  openFileStreams := state.openFileStreams
  rowCounts := state.rowCounts.modify state.nextSendStream (· + batch.numRows)
  nextSendStream := (state.nextSendStream + 1) % context.minimumParallelOutputFiles
  files := files

/-- One batch of the stream; an index beyond the streams panics. -/
def RowCounted.step (state : RowCounted P)
    (item : Except DataFusionError Arrow.RecordBatch) : Except DemuxError (RowCounted P) := do
  let batch ← item.mapError .dataFusion
  let state ← state.turn context tableLocation
  match state.openFileStreams[state.nextSendStream]? with
  | none => .error (.panicked "index out of bounds")
  | some sender =>
    (sendBatch context state.files sender batch noStream).map (state.sent context batch)

/-- `row_count_demuxer`. -/
def rowCountDemuxer (stream : List (Except DataFusionError Arrow.RecordBatch)) :
    Except DemuxError (RowCounted P) :=
  stream.foldlM (RowCounted.step context tableLocation) ⟨[], [], 0, []⟩

end RowCount

/-! ### The task -/

/-- `start_demuxer_task` and the task it starts: the files, and the partition values by path. -/
def demux {P : Type} [DecidableEq P] (context : DemuxContext P) (metadata : TableMetadata)
    (stream : List (Except DataFusionError Arrow.RecordBatch)) :
    Except DemuxError (OpenedFiles P × HashMap P (List (Option Value))) := do
  let spec ← metadata.defaultPartitionSpec.mapError .iceberg
  if spec.fields.isEmpty then
    (rowCountDemuxer context metadata.location stream).map fun state => (state.files, ∅)
  else do
    let schema ← metadata.currentSchema.mapError .iceberg
    let fields ← (partitionFields spec schema).mapError .iceberg
    (partitionsDemuxer context fields metadata.properties metadata.location stream).map
      fun state => (state.files, state.partitionValuesByPath)

/-! ### What the files receive -/

section Files

variable {P : Type} {context : DemuxContext P} {files after : OpenedFiles P}

/-- No two calls lead to one path: `Uuid::now_v1` does not repeat itself, and `Path::from` keeps
the last segment of a text. -/
def Fresh (context : DemuxContext P) : Prop :=
  ∀ {m n : Nat} {first second : String},
    context.path (first ++ context.naming.uuid m ++ ".parquet") =
      context.path (second ++ context.naming.uuid n ++ ".parquet") → m = n

/-- The path of a file ends in the identifier of the call that made it. -/
def Named (context : DemuxContext P) (files : OpenedFiles P) : Prop :=
  ∀ i file, files[i]? = some file → ∃ directory : String,
    file.1 = context.path (directory ++ context.naming.uuid i ++ ".parquet")

/-- The paths of the files differ. -/
theorem Named.nodup (named : Named context files) (fresh : Fresh context) :
    (files.map (·.1)).Nodup := by
  apply List.nodup_iff_injective_get.mpr
  intro i j same
  rw [List.get_eq_getElem, List.get_eq_getElem, List.getElem_map, List.getElem_map] at same
  obtain ⟨first, here⟩ := named i _ (List.getElem?_eq_getElem (by simpa using i.2))
  obtain ⟨second, there⟩ := named j _ (List.getElem?_eq_getElem (by simpa using j.2))
  exact Fin.ext (fresh (here.symm.trans (same.trans there)))

theorem rowsOfBatches_append (first second : List Arrow.RecordBatch) :
    rowsOfBatches (first ++ second) = rowsOfBatches first ++ rowsOfBatches second :=
  List.flatMap_append

theorem rowsOfBatches_singleton (batch : Arrow.RecordBatch) :
    rowsOfBatches [batch] = batch.rows := List.append_nil _

theorem rowsOfBatches_perm {first second : List Arrow.RecordBatch} (perm : first.Perm second) :
    (rowsOfBatches first).Perm (rowsOfBatches second) := perm.flatMap_right _

section Create

variable {tableLocation : String} {partitionPath : Option String}
  {first : List Arrow.RecordBatch} {gone : DemuxError}

theorem createFile_eq_ok
    (run : createFile context files tableLocation partitionPath first gone = .ok after) :
    after = files ++ [(newPath context files tableLocation partitionPath, first)] := by
  unfold createFile at run
  split at run
  · exact (Except.ok.inj run).symm
  · cases run

/-- A new file is named after its number. -/
theorem Named.create (named : Named context files)
    (run : createFile context files tableLocation partitionPath first gone = .ok after) :
    Named context after := by
  rw [createFile_eq_ok run]
  intro i file here
  rw [List.getElem?_append] at here
  split at here
  · exact named i file here
  · rename_i beyond
    obtain ⟨last, made⟩ := List.getElem?_eq_some_iff.mp here
    have index : i = files.length := by
      rw [List.length_singleton] at last
      omega
    subst index
    rw [List.getElem_singleton] at made
    rw [← made]
    exact ⟨_, rfl⟩

end Create

section Send

variable {sender : Nat} {batch : Arrow.RecordBatch} {gone : DemuxError}

theorem sendBatch_eq_ok (run : sendBatch context files sender batch gone = .ok after) :
    sender < files.length ∧
      after = files.modify sender fun file => (file.1, file.2 ++ [batch]) := by
  unfold sendBatch at run
  split at run
  · rename_i received
    obtain ⟨file, here, -⟩ := (Option.any_eq_true _ _).mp received
    exact ⟨(List.getElem?_eq_some_iff.mp here).1, (Except.ok.inj run).symm⟩
  · cases run

/-- Sending adds the batch to what the files have. -/
theorem contents_send (run : sendBatch context files sender batch gone = .ok after) :
    (contents after).Perm (contents files ++ [batch]) := by
  obtain ⟨within, rfl⟩ := sendBatch_eq_ok run
  exact contents_modify within [batch]

/-- Sending leaves the paths alone. -/
theorem Named.send (named : Named context files)
    (run : sendBatch context files sender batch gone = .ok after) : Named context after := by
  obtain ⟨-, rfl⟩ := sendBatch_eq_ok run
  intro i file here
  rw [List.getElem?_modify] at here
  obtain ⟨before, there, rfl⟩ := Option.map_eq_some_iff.mp here
  obtain ⟨directory, path⟩ := named i before there
  refine ⟨directory, ?_⟩
  split
  · exact path
  · exact path

end Send

end Files

/-! ### By partition: every step -/

section Partitions

variable {P : Type} [DecidableEq P] (context : DemuxContext P)
  (fields : List BoundPartitionField)

/-- The rows of a file have the values recorded for its path. -/
def OwnsRows (recorded : HashMap P (List (Option Value)))
    (file : P × List Arrow.RecordBatch) : Prop :=
  ∃ values, recorded.lookup file.1 = some values ∧
    ∀ row ∈ rowsOfBatches file.2, partitionTuple context.kernels fields row = .ok values

/-- What `partitions_demuxer` keeps: the files have the rows seen so far, a sender leads to a file
of its partition, and every file has rows of the partition recorded for its path. -/
structure Demuxed.Holds (seen : List Row) (state : Demuxed P) : Prop where
  rows : (rowsOfBatches (contents state.files)).Perm seen
  senders : ∀ entry ∈ state.senders.entries, ∃ file, state.files[entry.2]? = some file ∧
    state.partitionValuesByPath.lookup file.1 = some entry.1
  owned : ∀ file ∈ state.files, OwnsRows context fields state.partitionValuesByPath file
  named : Named context state.files

variable {context fields} {properties : HashMap String String} {tableLocation : String}
  {seen : List Row} {state after : Demuxed P} {values : List (Option Value)}
  {batch : Arrow.RecordBatch}

/-- Before the first batch there are no senders and no files. -/
theorem holds_start : Demuxed.Holds context fields [] ⟨.unbounded, [], ∅⟩ where
  rows := .nil
  senders := fun _ member => nomatch member
  owned := fun _ member => nomatch member
  named := fun _ _ here => nomatch here

/-- Evicting a sender touches no file. -/
theorem Demuxed.Holds.evict (holds : state.Holds context fields seen) :
    (state.evict context).Holds context fields seen := by
  unfold Demuxed.evict
  split
  · refine { holds with senders := fun entry member => ?_ }
    exact holds.senders entry (LruCache.mem_popLru member)
  · exact holds

/-- A group of rows is sent to a file of its partition. -/
theorem Demuxed.Holds.send (holds : state.Holds context fields seen) {sender : Nat}
    {senders : LruCache (List (Option Value)) Nat} {files : OpenedFiles P} {gone : DemuxError}
    (found : state.senders.getMut values = some (sender, senders))
    (sent : sendBatch context state.files sender batch gone = .ok files)
    (owned : ∀ row ∈ batch.rows, partitionTuple context.kernels fields row = .ok values) :
    Holds context fields (seen ++ batch.rows)
      { state with senders := senders, files := files } := by
  obtain ⟨present, older⟩ := LruCache.mem_getMut found
  obtain ⟨within, modified⟩ := sendBatch_eq_ok sent
  obtain ⟨target, here, recorded⟩ := holds.senders _ present
  constructor
  · refine (rowsOfBatches_perm (contents_send sent)).trans ?_
    rw [rowsOfBatches_append, rowsOfBatches_singleton]
    exact holds.rows.append_right _
  · intro entry member
    obtain ⟨file, there, named⟩ := holds.senders entry (older entry member)
    dsimp only
    rw [modified, List.getElem?_modify, there]
    refine ⟨_, rfl, ?_⟩
    have path : (if sender = entry.2 then (file.1, file.2 ++ [batch]) else file).1 = file.1 := by
      split <;> rfl
    exact (congrArg (AList.lookup · _) path).trans named
  · intro file member
    dsimp only at member ⊢
    rw [modified] at member
    obtain ⟨index, inside⟩ := List.mem_iff_getElem?.mp member
    rw [List.getElem?_modify] at inside
    obtain ⟨before, there, rfl⟩ := Option.map_eq_some_iff.mp inside
    obtain ⟨recordedValues, named, rows⟩ := holds.owned before (List.mem_of_getElem? there)
    split
    · rename_i same
      subst same
      obtain rfl := Option.some.inj (here.symm.trans there)
      obtain rfl := Option.some.inj (named.symm.trans recorded)
      refine ⟨_, named, fun row inside => ?_⟩
      rw [rowsOfBatches_append] at inside
      rcases List.mem_append.mp inside with old | new
      · exact rows row old
      · rw [rowsOfBatches_singleton] at new
        exact owned row new
    · exact ⟨recordedValues, named, rows⟩
  · exact holds.named.send sent

/-- A partition without a sender gets a new file, whose path nothing was recorded for. -/
theorem Demuxed.Holds.open (holds : state.Holds context fields seen) (fresh : Fresh context)
    (opened : openPartition context fields properties tableLocation state values batch = .ok after)
    (owned : ∀ row ∈ batch.rows, partitionTuple context.kernels fields row = .ok values) :
    after.Holds context fields (seen ++ batch.rows) := by
  obtain ⟨files, created, made⟩ := bind_eq_ok.mp opened
  obtain rfl := Except.ok.inj made
  have appended := createFile_eq_ok created
  have kept : ∀ (i : Nat) (file : P × List Arrow.RecordBatch), state.files[i]? = some file →
      (state.partitionValuesByPath.insert (newPath context state.files tableLocation
        (partitionPath context fields properties values)) values).lookup file.1 =
        state.partitionValuesByPath.lookup file.1 := by
    intro i file here
    apply AList.lookup_insert_ne
    intro same
    obtain ⟨directory, path⟩ := holds.named i file here
    have last : i = state.files.length := fresh (path.symm.trans same)
    have within := (List.getElem?_eq_some_iff.mp here).1
    omega
  constructor
  · dsimp only
    rw [appended, contents_append, rowsOfBatches_append, contents_cons, contents_nil,
      List.append_nil, rowsOfBatches_singleton]
    exact holds.rows.append_right _
  · intro entry member
    dsimp only at member ⊢
    rw [appended]
    rcases LruCache.mem_push member with rfl | older
    · exact ⟨_, List.getElem?_concat_length, AList.lookup_insert _⟩
    · obtain ⟨file, there, recorded⟩ := holds.senders entry older
      have within := (List.getElem?_eq_some_iff.mp there).1
      exact ⟨file, (List.getElem?_append_left within).trans there,
        (kept _ file there).trans recorded⟩
  · intro file member
    dsimp only at member ⊢
    rw [appended] at member
    rcases List.mem_append.mp member with old | new
    · obtain ⟨recorded, named, rows⟩ := holds.owned file old
      obtain ⟨i, there⟩ := List.mem_iff_getElem?.mp old
      exact ⟨recorded, (kept i file there).trans named, rows⟩
    · obtain rfl := List.mem_singleton.mp new
      refine ⟨values, AList.lookup_insert _, fun row inside => ?_⟩
      rw [rowsOfBatches_singleton] at inside
      exact owned row inside
  · exact holds.named.create created

/-- One group of rows. -/
theorem Demuxed.Holds.afterGroup (holds : state.Holds context fields seen) (fresh : Fresh context)
    (sent : sendGroup context fields properties tableLocation state (.ok (values, batch)) =
      .ok after)
    (owned : ∀ row ∈ batch.rows, partitionTuple context.kernels fields row = .ok values) :
    after.Holds context fields (seen ++ batch.rows) := by
  unfold sendGroup at sent
  obtain ⟨group, same, sent⟩ := bind_eq_ok.mp sent
  obtain rfl := Except.ok.inj same
  split at sent
  · rename_i sender senders found
    obtain ⟨files, sentBatch, rfl⟩ := map_eq_ok.mp sent
    exact holds.send found sentBatch owned
  · exact holds.open fresh sent owned

/-- The groups of a batch, one after the other. -/
theorem Demuxed.Holds.afterGroups (holds : state.Holds context fields seen)
    (fresh : Fresh context) {groups : List (List (Option Value) × Arrow.RecordBatch)}
    (run : (groups.map .ok).foldlM (sendGroup context fields properties tableLocation)
      state = .ok after)
    (owned : ∀ group ∈ groups, ∀ row ∈ group.2.rows,
      partitionTuple context.kernels fields row = .ok group.1) :
    after.Holds context fields (seen ++ groups.flatMap (·.2.rows)) := by
  induction groups generalizing state seen with
  | nil =>
    obtain rfl := foldlM_nil_eq_ok.mp run
    rwa [List.flatMap_nil, List.append_nil]
  | cons group groups ih =>
    obtain ⟨next, first, later⟩ := foldlM_cons_eq_ok.mp run
    have sent := holds.afterGroup fresh first (owned group List.mem_cons_self)
    have rest := ih sent later fun other member => owned other (List.mem_cons_of_mem _ member)
    rwa [List.append_assoc] at rest

/-- One batch of the stream: its rows go to files of their partitions. -/
theorem Demuxed.Holds.afterBatch (holds : state.Holds context fields seen) (fresh : Fresh context)
    {item : Except DataFusionError Arrow.RecordBatch}
    (stepped : demuxBatch context fields properties tableLocation state item = .ok after) :
    ∃ batch, item = .ok batch ∧ after.Holds context fields (seen ++ batch.rows) := by
  obtain ⟨batch, here, stepped⟩ := bind_eq_ok.mp stepped
  obtain ⟨results, divided, stepped⟩ := bind_eq_ok.mp stepped
  refine ⟨batch, mapError_eq_ok.mp here, ?_⟩
  obtain ⟨groups, rfl, partitioned⟩ := partitionRecordBatch_spec (mapError_eq_ok.mp divided)
  have sent := holds.evict.afterGroups fresh stepped partitioned.owned
  exact { sent with rows := sent.rows.trans (partitioned.conserved.append_left seen) }

/-- A run of `partitions_demuxer` has seen every batch of its stream. -/
theorem partitionsDemuxer_spec (fresh : Fresh context)
    {stream : List (Except DataFusionError Arrow.RecordBatch)}
    (run : partitionsDemuxer context fields properties tableLocation stream = .ok after) :
    ∃ batches, stream = batches.map .ok ∧
      after.Holds context fields (rowsOfBatches batches) := by
  refine foldlM_prefix_invariant (fun done (state : Demuxed P) => ∃ batches, done =
    batches.map .ok ∧ state.Holds context fields (rowsOfBatches batches)) ?_ run ?_
  · rintro _ item before next _ ⟨batches, rfl, holds⟩ stepped
    obtain ⟨batch, rfl, kept⟩ := holds.afterBatch fresh stepped
    refine ⟨batches ++ [batch], by rw [List.map_append, List.map_singleton], ?_⟩
    rwa [rowsOfBatches_append, rowsOfBatches_singleton]
  · exact ⟨[], rfl, holds_start⟩

end Partitions

/-! ### In turn: every step -/

section RowCount

variable {P : Type} {context : DemuxContext P} {tableLocation : String}

/-- What `row_count_demuxer` keeps. -/
structure RowCounted.Holds (context : DemuxContext P) (seen : List Row) (state : RowCounted P) :
    Prop where
  rows : (rowsOfBatches (contents state.files)).Perm seen
  named : Named context state.files

variable {seen : List Row} {state after : RowCounted P}

/-- A file that is opened has no rows yet. -/
theorem RowCounted.Holds.create (holds : state.Holds context seen) {files : OpenedFiles P}
    {gone : DemuxError}
    (created : createFile context state.files tableLocation none [] gone = .ok files) :
    (rowsOfBatches (contents files)).Perm seen ∧ Named context files := by
  refine ⟨?_, holds.named.create created⟩
  rw [createFile_eq_ok created, contents_append, contents_cons, contents_nil, List.append_nil,
    List.append_nil]
  exact holds.rows

theorem RowCounted.Holds.turn (holds : state.Holds context seen)
    (turned : state.turn context tableLocation = .ok after) : after.Holds context seen := by
  unfold RowCounted.turn at turned
  split at turned
  · obtain ⟨files, created, rfl⟩ := map_eq_ok.mp turned
    obtain ⟨rows, named⟩ := holds.create created
    exact ⟨rows, named⟩
  · split at turned
    · obtain ⟨files, created, rfl⟩ := map_eq_ok.mp turned
      obtain ⟨rows, named⟩ := holds.create created
      exact ⟨rows, named⟩
    · exact Except.ok.inj turned ▸ holds

/-- One batch of the stream goes to one file. -/
theorem RowCounted.Holds.step (holds : state.Holds context seen)
    {item : Except DataFusionError Arrow.RecordBatch}
    (stepped : state.step context tableLocation item = .ok after) :
    ∃ batch, item = .ok batch ∧ after.Holds context (seen ++ batch.rows) := by
  obtain ⟨batch, here, stepped⟩ := bind_eq_ok.mp stepped
  obtain ⟨next, turned, stepped⟩ := bind_eq_ok.mp stepped
  refine ⟨batch, mapError_eq_ok.mp here, ?_⟩
  have ready := holds.turn turned
  split at stepped
  · cases stepped
  · obtain ⟨files, sent, rfl⟩ := map_eq_ok.mp stepped
    refine ⟨(rowsOfBatches_perm (contents_send sent)).trans ?_, ready.named.send sent⟩
    rw [rowsOfBatches_append, rowsOfBatches_singleton]
    exact ready.rows.append_right _

/-- A run of `row_count_demuxer` has seen every batch of its stream. -/
theorem rowCountDemuxer_spec {stream : List (Except DataFusionError Arrow.RecordBatch)}
    (run : rowCountDemuxer context tableLocation stream = .ok after) :
    ∃ batches, stream = batches.map .ok ∧ after.Holds context (rowsOfBatches batches) := by
  refine foldlM_prefix_invariant (fun done (state : RowCounted P) => ∃ batches, done =
    batches.map .ok ∧ state.Holds context (rowsOfBatches batches)) ?_ run ?_
  · rintro _ item before next _ ⟨batches, rfl, holds⟩ stepped
    obtain ⟨batch, rfl, kept⟩ := holds.step stepped
    refine ⟨batches ++ [batch], by rw [List.map_append, List.map_singleton], ?_⟩
    rwa [rowsOfBatches_append, rowsOfBatches_singleton]
  · exact ⟨[], rfl, .nil, fun i file here => nomatch here⟩

end RowCount

/-! ### Runs that succeed -/

/-- All files and batches are received. -/
def Accepting {P : Type} (context : DemuxContext P) : Prop :=
  (∀ paths, context.receivers.acceptsFile paths = true) ∧
    ∀ path batches, context.receivers.acceptsBatch path batches = true

/-- A batch can be divided by its partition values. -/
def Divides {P : Type} (context : DemuxContext P) (fields : List BoundPartitionField)
    (batch : Arrow.RecordBatch) : Prop :=
  ∃ results, partitionRecordBatch context.kernels batch fields = .ok results

section Total

variable {P : Type} {context : DemuxContext P} {tableLocation : String} {files : OpenedFiles P}

theorem createFile_total (accepting : Accepting context) (files : OpenedFiles P)
    (tableLocation : String) (partitionPath : Option String)
    (first : List Arrow.RecordBatch) (gone : DemuxError) :
    ∃ after, createFile context files tableLocation partitionPath first gone = .ok after := by
  unfold createFile
  rw [if_pos (accepting.1 _)]
  exact ⟨_, rfl⟩

theorem sendBatch_total (accepting : Accepting context) {sender : Nat}
    (within : sender < files.length) (batch : Arrow.RecordBatch) (gone : DemuxError) :
    ∃ after, sendBatch context files sender batch gone = .ok after := by
  unfold sendBatch
  rw [List.getElem?_eq_getElem within, Option.any_some, if_pos (accepting.2 _ _)]
  exact ⟨_, rfl⟩

section Partitions

variable [DecidableEq P] {fields : List BoundPartitionField} {properties : HashMap String String}
  {seen : List Row} {state : Demuxed P}

/-- A sender leads to a file, so a group can be sent. -/
theorem sendGroup_total (holds : state.Holds context fields seen)
    (accepting : Accepting context) (values : List (Option Value)) (batch : Arrow.RecordBatch) :
    ∃ after, sendGroup context fields properties tableLocation state (.ok (values, batch)) =
      .ok after := by
  unfold sendGroup
  simp only [Except.mapError, ok_bind]
  cases found : state.senders.getMut values with
  | some held =>
    obtain ⟨file, here, -⟩ := holds.senders _ (LruCache.mem_getMut found).1
    obtain ⟨files, sent⟩ := sendBatch_total accepting (List.getElem?_eq_some_iff.mp here).1 batch
      (.panicked "called `Result::unwrap()` on an `Err` value")
    exact ⟨_, map_eq_ok.mpr ⟨files, sent, rfl⟩⟩
  | none =>
    obtain ⟨files, created⟩ := createFile_total accepting state.files tableLocation
      (partitionPath context fields properties values) [batch] .closed
    exact ⟨_, bind_eq_ok.mpr ⟨files, created, rfl⟩⟩

/-- A stream whose batches can be divided is demultiplexed to its end. -/
theorem partitionsDemuxer_total (fresh : Fresh context) (accepting : Accepting context)
    {batches : List Arrow.RecordBatch}
    (divides : ∀ batch ∈ batches, Divides context fields batch) :
    ∃ after, partitionsDemuxer context fields properties tableLocation (batches.map .ok) =
      .ok after := by
  have steps : ∀ item ∈ batches.map Except.ok, ∀ state : Demuxed P,
      (∃ seen, state.Holds context fields seen) →
      ∃ after, demuxBatch context fields properties tableLocation state item = .ok after ∧
        ∃ seen, after.Holds context fields seen := by
    rintro _ member state ⟨seen, holds⟩
    obtain ⟨batch, inside, rfl⟩ := List.mem_map.mp member
    obtain ⟨results, divided⟩ := divides batch inside
    obtain ⟨groups, rfl, partitioned⟩ := partitionRecordBatch_spec divided
    have sends : ∀ result ∈ groups.map Except.ok, ∀ state : Demuxed P,
        (∃ seen, state.Holds context fields seen) →
        ∃ after, sendGroup context fields properties tableLocation state result = .ok after ∧
          ∃ seen, after.Holds context fields seen := by
      rintro _ member state ⟨seen, holds⟩
      obtain ⟨group, inside, rfl⟩ := List.mem_map.mp member
      obtain ⟨after, sent⟩ := sendGroup_total holds accepting group.1 group.2
      exact ⟨after, sent, _, holds.afterGroup fresh sent (partitioned.owned group inside)⟩
    obtain ⟨after, sent, -⟩ := foldlM_total _ sends ⟨seen, holds.evict⟩
    have stepped : demuxBatch context fields properties tableLocation state (.ok batch) =
        .ok after := by
      refine bind_eq_ok.mpr ⟨batch, rfl, bind_eq_ok.mpr ⟨groups.map .ok, ?_, sent⟩⟩
      exact mapError_eq_ok.mpr divided
    obtain ⟨_, -, kept⟩ := holds.afterBatch fresh stepped
    exact ⟨after, stepped, _, kept⟩
  obtain ⟨after, run, -⟩ := foldlM_total _ steps ⟨[], holds_start⟩
  exact ⟨after, run⟩

end Partitions

section RowCount

/-- Where the turn is: at one of the streams, or at the next one to be opened. -/
structure RowCounted.Placed (context : DemuxContext P) (state : RowCounted P) : Prop where
  streams : ∀ sender ∈ state.openFileStreams, sender < state.files.length
  bound : state.openFileStreams.length ≤ context.minimumParallelOutputFiles
  turn : state.nextSendStream < state.openFileStreams.length ∨
    state.openFileStreams.length < context.minimumParallelOutputFiles ∧
      state.nextSendStream = state.openFileStreams.length

variable {state : RowCounted P}

/-- After the turn was taken there is a stream at it. -/
theorem RowCounted.Placed.turn_total (placed : state.Placed context)
    (accepting : Accepting context) (tableLocation : String) :
    ∃ after, state.turn context tableLocation = .ok after ∧
      (∀ sender ∈ after.openFileStreams, sender < after.files.length) ∧
      after.openFileStreams.length ≤ context.minimumParallelOutputFiles ∧
      after.nextSendStream < after.openFileStreams.length := by
  have grown : ∀ {files : OpenedFiles P} {gone : DemuxError},
      createFile context state.files tableLocation none [] gone = .ok files →
      files.length = state.files.length + 1 := by
    intro files gone created
    rw [createFile_eq_ok created, List.length_append, List.length_singleton]
  unfold RowCounted.turn
  obtain ⟨files, created⟩ := createFile_total accepting state.files tableLocation none []
    noStream
  split
  · rename_i few
    refine ⟨_, map_eq_ok.mpr ⟨files, created, rfl⟩, ?_, ?_, ?_⟩
    · intro sender member
      rw [grown created]
      rcases List.mem_append.mp member with old | new
      · exact Nat.lt_succ_of_lt (placed.streams sender old)
      · rw [List.mem_singleton.mp new]
        exact Nat.lt_succ_self _
    · rw [List.length_append, List.length_singleton]
      exact few
    · rw [List.length_append, List.length_singleton]
      rcases placed.turn with here | ⟨-, next⟩
      · exact Nat.lt_succ_of_lt here
      · exact next ▸ Nat.lt_succ_self _
  · rename_i full
    have here : state.nextSendStream < state.openFileStreams.length :=
      placed.turn.resolve_right fun next => full next.1
    split
    · refine ⟨_, map_eq_ok.mpr ⟨files, created, rfl⟩, ?_, ?_, ?_⟩
      · intro sender member
        rw [grown created]
        rcases List.mem_or_eq_of_mem_set member with old | rfl
        · exact Nat.lt_succ_of_lt (placed.streams sender old)
        · exact Nat.lt_succ_self _
      · rw [List.length_set]
        exact placed.bound
      · rw [List.length_set]
        exact here
    · exact ⟨state, rfl, placed.streams, placed.bound, here⟩

/-- Every batch finds a stream. -/
theorem rowCountDemuxer_total (accepting : Accepting context)
    (batches : List Arrow.RecordBatch) :
    ∃ after, rowCountDemuxer context tableLocation (batches.map .ok) = .ok after := by
  have steps : ∀ item ∈ batches.map Except.ok, ∀ state : RowCounted P, state.Placed context →
      ∃ after, state.step context tableLocation item = .ok after ∧ after.Placed context := by
    rintro _ member state placed
    obtain ⟨batch, -, rfl⟩ := List.mem_map.mp member
    obtain ⟨ready, turned, streams, bound, here⟩ :=
      placed.turn_total accepting tableLocation
    have within := streams _ (List.getElem_mem here)
    obtain ⟨files, sent⟩ := sendBatch_total accepting within batch noStream
    have length : files.length = ready.files.length := by
      rw [(sendBatch_eq_ok sent).2, List.length_modify]
    refine ⟨ready.sent context batch files,
      bind_eq_ok.mpr ⟨batch, rfl, bind_eq_ok.mpr ⟨ready, turned, ?_⟩⟩, ?_⟩
    · rw [List.getElem?_eq_getElem here]
      exact map_eq_ok.mpr ⟨files, sent, rfl⟩
    · refine ⟨fun sender member => length ▸ streams sender member, bound, ?_⟩
      unfold RowCounted.sent
      rcases Nat.lt_or_eq_of_le bound with few | full
      · dsimp only
        rw [Nat.mod_eq_of_lt (by omega)]
        omega
      · left
        exact full ▸ Nat.mod_lt _ (Nat.zero_lt_of_lt here)
  have start : RowCounted.Placed context (⟨[], [], 0, []⟩ : RowCounted P) :=
    ⟨fun _ member => (nomatch member), Nat.zero_le _, .inr ⟨context.parallel, rfl⟩⟩
  obtain ⟨after, run, -⟩ := foldlM_total _ steps start
  exact ⟨after, run⟩

end RowCount

end Total

/-! ### Whole runs -/

section Task

variable {P : Type} [DecidableEq P] {context : DemuxContext P}

/-- The default spec of a table partitions it by these fields. -/
def PartitionedBy (metadata : TableMetadata) (fields : List BoundPartitionField) : Prop :=
  ∃ spec schema, metadata.defaultPartitionSpec = .ok spec ∧ spec.fields.isEmpty = false ∧
    metadata.currentSchema = .ok schema ∧ partitionFields spec schema = .ok fields

/-- The files have the rows of the stream, each once, and under the partition values recorded for
their paths. -/
structure Conserves (context : DemuxContext P) (metadata : TableMetadata)
    (batches : List Arrow.RecordBatch)
    (out : OpenedFiles P × HashMap P (List (Option Value))) : Prop where
  paths : (out.1.map (·.1)).Nodup
  rows : (rowsOfBatches (contents out.1)).Perm (rowsOfBatches batches)
  owned : ∀ fields, PartitionedBy metadata fields → ∀ file ∈ out.1,
    OwnsRows context fields out.2 file

/-- The table is unpartitioned, or the batches can be divided by its partition fields. -/
def Demuxable (context : DemuxContext P) (metadata : TableMetadata)
    (batches : List Arrow.RecordBatch) : Prop :=
  (∃ spec, metadata.defaultPartitionSpec = .ok spec ∧ spec.fields.isEmpty = true) ∨
    ∃ fields, PartitionedBy metadata fields ∧ ∀ batch ∈ batches, Divides context fields batch

variable {metadata : TableMetadata}

theorem demux_unpartitioned {spec : PartitionSpec}
    (found : metadata.defaultPartitionSpec = .ok spec) (unpartitioned : spec.fields.isEmpty = true)
    (stream : List (Except DataFusionError Arrow.RecordBatch)) :
    demux context metadata stream =
      (rowCountDemuxer context metadata.location stream).map fun state => (state.files, ∅) := by
  simp only [demux, found, Except.mapError, ok_bind, unpartitioned, if_true]

theorem demux_partitioned {fields : List BoundPartitionField}
    (partitioned : PartitionedBy metadata fields)
    (stream : List (Except DataFusionError Arrow.RecordBatch)) :
    demux context metadata stream =
      (partitionsDemuxer context fields metadata.properties metadata.location stream).map
        fun state => (state.files, state.partitionValuesByPath) := by
  obtain ⟨spec, schema, found, some_, current, bound⟩ := partitioned
  simp only [demux, found, Except.mapError, ok_bind, some_, current, bound, if_false,
    Bool.false_eq_true]

/-- The fields a table is partitioned by are determined. -/
theorem PartitionedBy.unique {fields others : List BoundPartitionField}
    (first : PartitionedBy metadata fields) (second : PartitionedBy metadata others) :
    fields = others := by
  obtain ⟨spec, schema, found, -, current, bound⟩ := first
  obtain ⟨spec', schema', found', -, current', bound'⟩ := second
  obtain rfl := Except.ok.inj (found.symm.trans found')
  obtain rfl := Except.ok.inj (current.symm.trans current')
  exact Except.ok.inj (bound.symm.trans bound')

/-- Whichever demuxer a table gets, a run that ends has put every row of the stream into one file,
of its own partition; and a run ends when the batches can be divided and all is received. -/
theorem demux_conserves (fresh : Fresh context) (metadata : TableMetadata)
    (stream : List (Except DataFusionError Arrow.RecordBatch)) :
    (∀ out, demux context metadata stream = .ok out →
      ∃ batches, stream = batches.map .ok ∧ Conserves context metadata batches out) ∧
    ∀ batches, stream = batches.map .ok → Accepting context →
      Demuxable context metadata batches → ∃ out, demux context metadata stream = .ok out := by
  constructor
  · intro out run
    obtain ⟨spec, found, rest⟩ := bind_eq_ok.mp run
    have found := mapError_eq_ok.mp found
    cases empty : spec.fields.isEmpty with
    | true =>
      rw [demux_unpartitioned found empty] at run
      obtain ⟨state, ran, rfl⟩ := map_eq_ok.mp run
      obtain ⟨batches, rfl, holds⟩ := rowCountDemuxer_spec ran
      refine ⟨batches, rfl, holds.named.nodup fresh, holds.rows, fun fields partitioned => ?_⟩
      obtain ⟨spec', -, found', some_, -⟩ := partitioned
      obtain rfl := Except.ok.inj (found.symm.trans found')
      rw [empty] at some_
      cases some_
    | false =>
      rw [if_neg (by rw [empty]; exact Bool.false_ne_true)] at rest
      obtain ⟨schema, current, rest⟩ := bind_eq_ok.mp rest
      obtain ⟨fields, bound, -⟩ := bind_eq_ok.mp rest
      have partitioned : PartitionedBy metadata fields :=
        ⟨spec, schema, found, empty, mapError_eq_ok.mp current, mapError_eq_ok.mp bound⟩
      rw [demux_partitioned partitioned] at run
      obtain ⟨state, ran, rfl⟩ := map_eq_ok.mp run
      obtain ⟨batches, rfl, holds⟩ := partitionsDemuxer_spec fresh ran
      refine ⟨batches, rfl, holds.named.nodup fresh, holds.rows, fun others too => ?_⟩
      exact partitioned.unique too ▸ holds.owned
  · rintro batches rfl accepting (⟨spec, found, empty⟩ | ⟨fields, partitioned, divides⟩)
    · obtain ⟨after, ran⟩ := rowCountDemuxer_total accepting batches
      exact ⟨_, (demux_unpartitioned found empty _).trans (map_eq_ok.mpr ⟨after, ran, rfl⟩)⟩
    · obtain ⟨after, ran⟩ := partitionsDemuxer_total fresh accepting divides
      exact ⟨_, (demux_partitioned partitioned _).trans (map_eq_ok.mpr ⟨after, ran, rfl⟩)⟩

end Task

/-! ### A run -/

/-- Identifiers that end in different ways. -/
def unaryName (n : Nat) : String := String.ofList ('-' :: List.replicate n 'u')

theorem replicate_injective {m n : Nat} {first second : List Char}
    (same : List.replicate m 'u' ++ '-' :: first = List.replicate n 'u' ++ '-' :: second) :
    m = n := by
  induction m generalizing n with
  | zero =>
    cases n with
    | zero => rfl
    | succ n =>
      rw [List.replicate_succ] at same
      exact absurd (List.head_eq_of_cons_eq same) (by decide)
  | succ m ih =>
    cases n with
    | zero =>
      rw [List.replicate_succ] at same
      exact absurd (List.head_eq_of_cons_eq same) (by decide)
    | succ n =>
      rw [List.replicate_succ, List.replicate_succ] at same
      exact congrArg (· + 1) (ih (List.tail_eq_of_cons_eq same))

/-- A context with two parallel writers whose receivers take everything. -/
def openContext : DemuxContext String where
  kernels := { murmur3 := fun _ => 0, yearMonth := fun _ => none, zone := fun _ => none }
  naming := ⟨fun _ => none, fun _ => "", fun _ => "abc", unaryName⟩
  path := id
  receivers := ⟨fun _ => true, fun _ _ => true⟩
  parallelism := 0
  softMaxRowsPerOutputFile := 2
  minimumParallelOutputFiles := 2
  parallel := Nat.zero_lt_two

theorem fresh_openContext : Fresh openContext := by
  intro m n first second same
  have texts := congrArg String.toList same
  simp only [openContext, id, unaryName, String.toList_append, String.toList_ofList] at texts
  have endings := congrArg List.reverse (List.append_cancel_right texts)
  rw [List.reverse_append, List.reverse_append, List.reverse_cons, List.reverse_cons,
    List.reverse_replicate, List.reverse_replicate, List.append_assoc, List.append_assoc] at endings
  exact replicate_injective endings

/-- A batch of one `long` column. -/
def longBatch (values : List (Option (BitVec 64))) : Arrow.RecordBatch where
  columns := [("x", ⟨.int64, values⟩)]
  numRows := values.length
  sameLength := by
    intro column member
    cases List.mem_singleton.mp member
    rfl

/-- A table that is partitioned by its column. -/
def partitionedTable : TableMetadata :=
  { longTable .v2 with partitionSpecs := AList.singleton 0 ⟨0, [⟨1, 1000, "x", .identity⟩]⟩ }

/-- The column of the table as a partition field. -/
def longField : BoundPartitionField :=
  ⟨⟨1, 1000, "x", .identity⟩, ⟨1, "x", true, .primitive .long, none, none, none⟩⟩

/-- The writer of the first partition is evicted before the second batch, which reopens it. -/
theorem demux_conserves_evicted :
    ∃ out, demux openContext partitionedTable
        [.ok (longBatch [some 1, some 2, none]), .ok (longBatch [some 2])] = .ok out ∧
      out.1.length = 4 ∧ Conserves openContext partitionedTable
        [longBatch [some 1, some 2, none], longBatch [some 2]] out := by
  obtain ⟨sound, total⟩ := demux_conserves fresh_openContext partitionedTable
    [.ok (longBatch [some 1, some 2, none]), .ok (longBatch [some 2])]
  have partitioned : PartitionedBy partitionedTable [longField] :=
    ⟨_, _, rfl, rfl, rfl, rfl⟩
  have divides : ∀ batch ∈ [longBatch [some 1, some 2, none], longBatch [some 2]],
      Divides openContext [longField] batch := by
    intro batch member
    rcases List.mem_cons.mp member with rfl | member
    · exact ⟨_, rfl⟩
    · cases List.mem_singleton.mp member
      exact ⟨_, rfl⟩
  obtain ⟨out, run⟩ := total _ rfl ⟨fun _ => rfl, fun _ _ => rfl⟩
    (.inr ⟨[longField], partitioned, divides⟩)
  obtain ⟨batches, same, conserves⟩ := sound out run
  refine ⟨out, run, ?_, ?_⟩
  · have opened : (demux openContext partitionedTable
        [.ok (longBatch [some 1, some 2, none]), .ok (longBatch [some 2])]).toOption.map
          (·.1.length) = some 4 := by rfl
    rw [run] at opened
    exact Option.some.inj opened
  · have read : batches = [longBatch [some 1, some 2, none], longBatch [some 2]] :=
      List.map_injective_iff.mpr (fun _ _ => Except.ok.inj) same.symm
    exact read ▸ conserves

end IcebergRust

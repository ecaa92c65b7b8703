import IcebergRust.Table.ManifestList
import IcebergRust.Util

/-!
# Splitting data files and selecting a manifest to append to

`iceberg-rust/src/table/transaction/append.rs`.  The four selection functions of the
source (two here, two for overwrites) run one pass over the old list and differ in what
they compare and in what they do with a row they pass on; `offer` is that pass's step.

* `selectManifestUnpartitioned` takes, per content, the compatible manifest with the
  fewest added rows; a manifest without a row count is taken as soon as it is seen.
* `selectManifestPartitioned` takes the one with the smallest bounding rectangle.
-/

namespace IcebergRust

variable {V : Type}

/-! ### Splitting -/

section Splitting

/-- The two halves of a split and their bounding rectangles. -/
structure Halves (V : Type) where
  smaller : List (ManifestEntry V)
  smallerRect : Option (Rectangle V)
  larger : List (ManifestEntry V)
  largerRect : Option (Rectangle V)

variable [PartitionValue V]

/-- A half's rectangle after one more position. -/
def growRect (position : List V) : Option (Rectangle V) → Except Error (Rectangle V)
  | none => .ok ⟨position, position⟩
  | some rectangle => rectangle.expandWithNode position

/-- One entry of the loop of `split_datafiles_once`.  An entry with a null partition column
goes to the smaller half, which then counts as unbounded. -/
def splitStep (rect : Rectangle V) (names : List String) (halves : Halves V)
    (entry : ManifestEntry V) : Except Error (Halves V) := do
  match ← partitionStructToVec entry.dataFile.partition names with
  | none =>
    .ok { halves with smaller := halves.smaller ++ [entry], smallerRect := some .unbounded }
  | some position =>
    let fromLower ← trySubAll position rect.min
    let toUpper ← trySubAll rect.max position
    match ← cmpWithPriority fromLower toUpper with
    | .gt =>
      let grown ← growRect position halves.largerRect
      .ok { halves with larger := halves.larger ++ [entry], largerRect := some grown }
    | _ =>
      let grown ← growRect position halves.smallerRect
      .ok { halves with smaller := halves.smaller ++ [entry], smallerRect := some grown }

/-- `split_datafiles_once`: a degenerate rectangle splits the list in the middle. -/
def splitDatafilesOnce (files : List (ManifestEntry V)) (rect : Rectangle V)
    (names : List String) :
    Except Error ((List (ManifestEntry V) × Rectangle V) × (List (ManifestEntry V) × Rectangle V)) := do
  match ← cmpWithPriority rect.min rect.max with
  | .eq =>
    let half := files.length / 2
    .ok ((files.take half, .unbounded), (files.drop half, .unbounded))
  | _ =>
    let halves ← files.foldlM (splitStep rect names) ⟨[], none, [], none⟩
    .ok ((halves.smaller, halves.smallerRect.getD .unbounded),
      (halves.larger, halves.largerRect.getD .unbounded))

/-- `split_datafiles`: `n_split` halvings, empty parts left out.  A count of zero underflows. -/
def splitDatafiles (files : List (ManifestEntry V)) (rect : Rectangle V) (names : List String) :
    Nat → Except Error (List (List (ManifestEntry V)))
  | 0 => .error (.panicked "attempt to subtract with overflow")
  | n + 1 => do
    let (smaller, larger) ← splitDatafilesOnce files rect names
    if n = 0 then .ok ([smaller.1, larger.1].filter fun part => !part.isEmpty)
    else do
      let first ← splitDatafiles smaller.1 smaller.2 names n
      let second ← splitDatafiles larger.1 larger.2 names n
      .ok (first ++ second)

end Splitting

/-! ### Selection -/

/-- What becomes of the candidate when a further row is compared with it. -/
inductive Choice where
  /-- The candidate stays, the row is passed on. -/
  | keep
  /-- The row becomes the candidate, the old one is passed on. -/
  | replace
  /-- The row becomes the candidate, the old one is not passed on. -/
  | overwrite
deriving DecidableEq, Repr

/-- One compatible row in the pass of a selection function: the state is what has been passed
on so far and the candidate with its key. -/
def offer {σ κ : Type} (emit : σ → ManifestListEntry V → Except Error σ)
    (choose : κ → κ → Except Error Choice) (state : σ × Option (κ × ManifestListEntry V))
    (key : κ) (row : ManifestListEntry V) :
    Except Error (σ × Option (κ × ManifestListEntry V)) :=
  match state.2 with
  | none => .ok (state.1, some (key, row))
  | some (selectedKey, selected) => do
    match ← choose selectedKey key with
    | .keep =>
      let passed ← emit state.1 row
      .ok (passed, some (selectedKey, selected))
    | .replace =>
      let passed ← emit state.1 selected
      .ok (passed, some (key, row))
    | .overwrite => .ok (state.1, some (key, row))

/-- The comparison of the unpartitioned selection, on the counts of added rows.  A row without
a count is selected in the place of the candidate. -/
def chooseByRows (selectedRowCount rowCount : Option Int) : Choice :=
  match rowCount with
  | none => .overwrite
  | some count => if selectedRowCount.any fun selected => selected > count then .replace else .keep

/-- The comparison of the partitioned selection, on bounding rectangles. -/
def chooseByBounds [PartitionValue V] (selectedBounds bounds : Rectangle V) :
    Except Error Choice := do
  match ← selectedBounds.cmpWithPriority bounds with
  | .gt => .ok .replace
  | _ => .ok .keep

/-- The rectangle of a manifest after the new values have been added to it. -/
def expandedBounds [PartitionValue V] (bounding : Rectangle V) (manifest : ManifestListEntry V) :
    Except Error (Rectangle V) :=
  match manifest.partitions with
  | none => .error (.notFound ("Partition struct in manifest " ++ manifest.manifestPath))
  | some summaries => (summaryToRectangle summaries).expand bounding

/-- `as usize` of an `i32` count: negative counts wrap around. -/
def asUsize (count : Int) : Nat := (count % 18446744073709551616).toNat

/-- Unchecked addition of `usize`s. -/
def addUsize (a b : Nat) : Nat := (a + b) % 18446744073709551616

/-- The running count of added files of the selection functions. -/
def countFiles (total : Nat) (manifest : ManifestListEntry V) : Nat :=
  addUsize total (asUsize (manifest.addedFilesCount.getD 0))

/-- The state of the two selection functions for appends: one candidate per content. -/
structure SelectState (V κ : Type) where
  output : ListOutput V
  data : Option (κ × ManifestListEntry V)
  deletes : Option (κ × ManifestListEntry V)
  fileCountAllEntries : Nat

/-- `SelectedManifest`, with the list written so far. -/
structure SelectedManifest (V : Type) where
  output : ListOutput V
  dataManifest : Option (ManifestListEntry V)
  deleteManifest : Option (ManifestListEntry V)
  fileCountAllEntries : Nat

/-- One row of the selection for an append: incompatible rows are copied, the others compete
with the candidate of their content. -/
def selectStep {κ : Type} (allows : ManifestListEntry V → Bool)
    (keyOf : ManifestListEntry V → Except Error κ) (choose : κ → κ → Except Error Choice)
    (state : SelectState V κ) (manifest : ManifestListEntry V) :
    Except Error (SelectState V κ) :=
  let fileCountAllEntries := countFiles state.fileCountAllEntries manifest
  if allows manifest then do
    let key ← keyOf manifest
    match manifest.content with
    | .data =>
      let (output, data) ← offer appendManifest choose (state.output, state.data) key manifest
      .ok { state with output, data, fileCountAllEntries }
    | .deletes =>
      let (output, deletes) ← offer appendManifest choose (state.output, state.deletes) key manifest
      .ok { state with output, deletes, fileCountAllEntries }
  else do
    let output ← appendManifest state.output manifest
    .ok { state with output, fileCountAllEntries }

/-- The pass of a selection function for appends. -/
def selectManifest {κ : Type} (keyOf : ManifestListEntry V → Except Error κ)
    (choose : κ → κ → Except Error Choice) (rows : List (ManifestListEntry V))
    (output : ListOutput V) (metadata : TableMetadata) : Except Error (SelectedManifest V) := do
  let partitionTypes ← rewritePartitionTypes metadata
  let state ← rows.foldlM (selectStep (rewriteAllows metadata partitionTypes) keyOf choose)
    ⟨output, none, none, 0⟩
  .ok ⟨state.output, state.data.map (·.2), state.deletes.map (·.2), state.fileCountAllEntries⟩

/-- `select_manifest_partitioned`. -/
def selectManifestPartitioned [PartitionValue V] (rows : List (ManifestListEntry V))
    (output : ListOutput V) (bounding : Rectangle V) (metadata : TableMetadata) :
    Except Error (SelectedManifest V) :=
  selectManifest (expandedBounds bounding) chooseByBounds rows output metadata

/-- `select_manifest_unpartitioned`. -/
def selectManifestUnpartitioned (rows : List (ManifestListEntry V)) (output : ListOutput V)
    (metadata : TableMetadata) : Except Error (SelectedManifest V) :=
  selectManifest (fun manifest => .ok manifest.addedRowsCount)
    (fun selected count => .ok (chooseByRows selected count)) rows output metadata

/-! ### Summary -/

/-- The data files among the files of an append. -/
def dataContent (files : List (DataFile V)) : List (DataFile V) :=
  files.filter fun file => file.content = .data

/-- The files that are not data files. -/
def deleteContent (files : List (DataFile V)) : List (DataFile V) :=
  files.filter fun file => file.content ≠ .data

/-- `append_summary`. -/
def appendSummary (files : List (DataFile V)) : Option (HashMap String String) :=
  if files.isEmpty then none
  else
    let dataFiles := dataContent files
    some (HashMap.fromIter [
      ("added-files-size", toString (wrapI64 (dataFiles.map (·.fileSizeInBytes)).sum)),
      ("added-records", toString (wrapI64 (dataFiles.map (·.recordCount)).sum)),
      ("added-data-files", toString dataFiles.length)])

end IcebergRust

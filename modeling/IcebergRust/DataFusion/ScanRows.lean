import IcebergRust.DataFusion.TableScan

/-!
# The rows of a scan

What the columns of a scan hold: `table_scan` describes the partition columns in one place and
fills them by position in another.

* `scanColumns_names` and `partitionedFile_values` are the two, piece by piece.
* `cells_of_path_name` is the cell in the first column called like one of the paths: the path, or
  the value of a partition field of that name.
* `rowLineageProjection_spec` is where the projection of a scan has a requested column.
-/

namespace IcebergRust

open Fallible

variable {V : Type}

/-! ### The first column of a name -/

/-- The value in the first column of a name. -/
def firstNamed {α : Type} (columns : List (String × α)) (name : String) : Option α :=
  (columns.find? fun column => column.1 = name).map (·.2)

variable {α : Type} {name : String} {scanSchema : List String}

theorem firstNamed_append (columns others : List (String × α)) (name : String) :
    firstNamed (columns ++ others) name = (firstNamed columns name).or (firstNamed others name) := by
  rw [firstNamed, List.find?_append, Option.map_or]
  rfl

theorem firstNamed_eq_none {names : List String} (values : List α) (absent : name ∉ names) :
    firstNamed (names.zip values) name = none := by
  rw [firstNamed, Option.map_eq_none_iff, List.find?_eq_none]
  intro column member same
  have named : column.1 ∈ names := (List.of_mem_zip member).1
  rw [of_decide_eq_true same] at named
  exact absent named

/-- The first index of a name, in the values under the names. -/
theorem getElem?_findIdx? {names : List String} {values : List α}
    (enough : names.length ≤ values.length) {index : Nat}
    (found : names.findIdx? (fun column => column = name) = some index) :
    values[index]? = firstNamed (names.zip values) name := by
  induction names generalizing values index with
  | nil => cases found
  | cons first names ih =>
    cases values with
    | nil => exact absurd enough (Nat.not_succ_le_zero _)
    | cons value values =>
      rw [List.findIdx?_cons] at found
      by_cases here : first = name
      · rw [if_pos (decide_eq_true here)] at found
        obtain rfl := Option.some.inj found
        have first : ((first, value) :: names.zip values).find? (fun column => column.1 = name) =
            some (first, value) := List.find?_cons_of_pos (decide_eq_true here)
        rw [firstNamed, List.zip_cons_cons, first]
        rfl
      · rw [if_neg (by simpa using here), Option.map_eq_some_iff] at found
        obtain ⟨before, found, rfl⟩ := found
        have later : ((first, value) :: names.zip values).find? (fun column => column.1 = name) =
            (names.zip values).find? fun column => column.1 = name :=
          List.find?_cons_of_neg (by simpa using here)
        rw [List.getElem?_cons_succ, ih (Nat.le_of_succ_le_succ enough) found, firstNamed,
          firstNamed, List.zip_cons_cons, later]

/-! ### Columns and values -/

@[simp] theorem onlyIf_true (a : α) : onlyIf true a = [a] := rfl

@[simp] theorem onlyIf_false (a : α) : onlyIf false a = [] := rfl

@[simp] theorem length_onlyIf (asked : Bool) (a : α) : (onlyIf asked a).length = asked.toNat := by
  cases asked <;> rfl

@[simp] theorem length_toList (value : Option α) : value.toList.length = value.isSome.toNat := by
  cases value <;> rfl

theorem insertIdx_length_append (columns others : List α) (column : α) :
    (columns ++ others).insertIdx columns.length column = columns ++ column :: others := by
  induction columns with
  | nil => rfl
  | cons first columns ih => exact congrArg (first :: ·) ih

/-- The path columns, with the data-file path before the manifest path. -/
theorem pathColumns_names (config : DataFusionTableConfig)
    (fileColumns partitionFields : List String) (hasPositionDeletes : Bool) :
    ∃ internal, (pathColumns config fileColumns partitionFields hasPositionDeletes).1 =
      partitionFields ++
        onlyIf (config.enableDataFilePathColumn || hasPositionDeletes)
          (if config.enableDataFilePathColumn then dataFilePathColumn else internal) ++
        onlyIf config.enableManifestFilePathColumn manifestFilePathColumn := by
  refine ⟨uniqueInternalColumnName fileColumns (partitionFields ++
    onlyIf config.enableManifestFilePathColumn manifestFilePathColumn) dataFilePathColumn, ?_⟩
  unfold pathColumns
  cases hasPositionDeletes <;> cases config.enableDataFilePathColumn <;>
    cases config.enableManifestFilePathColumn <;> simp [insertIdx_length_append]

/-- The index that position deletes are joined on is that of the data-file path. -/
theorem pathColumns_index (config : DataFusionTableConfig)
    (fileColumns partitionFields : List String) :
    (pathColumns config fileColumns partitionFields true).2 =
      some (fileColumns.length + partitionFields.length) := by
  unfold pathColumns
  cases config.enableDataFilePathColumn <;> cases config.enableManifestFilePathColumn <;> simp

/-- The partition columns of a scan. -/
theorem scanColumns_names (config : DataFusionTableConfig)
    (fileColumns partitionFields : List String) (hasPositionDeletes : Bool) :
    ∃ internal sequenceName,
      (scanColumns config fileColumns partitionFields hasPositionDeletes).partitionCols =
        partitionFields ++
          onlyIf (config.enableDataFilePathColumn || hasPositionDeletes)
            (if config.enableDataFilePathColumn then dataFilePathColumn else internal) ++
          onlyIf config.enableManifestFilePathColumn manifestFilePathColumn ++
          onlyIf config.enableRowLineage firstRowIdColumn ++
          onlyIf (hasPositionDeletes || config.enableLastUpdatedSequenceNumberColumn)
            sequenceName ++
          onlyIf config.scanChangedDataFiles changeFileStatusColumn ++
          onlyIf config.scanChangedDataFiles changeSnapshotSequenceNumberColumn := by
  obtain ⟨internal, names⟩ :=
    pathColumns_names config fileColumns partitionFields hasPositionDeletes
  unfold scanColumns
  dsimp only
  rw [names]
  exact ⟨internal, _, rfl⟩

section Values

variable {valueToScalarvalue : V → Except DataFusionError (ScalarValue V)}
  {fileColumns : List String} {context : ScanContext V} {file : ContentFile V}
  {manifestPath : String} {made : PartitionedFile V}

theorem sequenceScalar_length {asked : Bool} {values : List (ScalarValue V)}
    (run : sequenceScalar file asked = .ok values) :
    values.length = asked.toNat := by
  unfold sequenceScalar at run
  cases asked with
  | false =>
    cases run
    rfl
  | true =>
    rw [if_neg (fun absent => absent rfl)] at run
    cases found : file.entry.sequenceNumber with
    | none =>
      rw [found] at run
      cases run
    | some sequence =>
      rw [found] at run
      cases run
      rfl

/-- The partition values of a file. -/
theorem partitionedFile_values
    (run : context.partitionedFile valueToScalarvalue file manifestPath = .ok made) :
    made.source = file ∧ ∃ tuple sequence,
      includedScalars valueToScalarvalue file context.includePartitionValues = .ok tuple ∧
      sequenceScalar file (context.hasPositionDeletes ||
        context.config.enableLastUpdatedSequenceNumberColumn) = .ok sequence ∧
      made.partitionValues = tuple ++
        onlyIf context.includeDataFilePathColumn (.utf8 file.entry.dataFile.filePath) ++
        onlyIf context.config.enableManifestFilePathColumn (.utf8 manifestPath) ++
        onlyIf context.config.enableRowLineage
          ((file.entry.dataFile.firstRowId.map .int64).getD .null) ++
        sequence ++
        onlyIf context.config.scanChangedDataFiles (.utf8 file.entry.status.change) ++
        ((context.changeSequences.bind fun sequences =>
          sequences.lookup file.manifestPath).map .int64).toList := by
  unfold ScanContext.partitionedFile generatePartitionedFile at run
  obtain ⟨tuple, included, run⟩ := bind_eq_ok.mp run
  obtain ⟨sequence, numbered, run⟩ := bind_eq_ok.mp run
  cases run
  refine ⟨rfl, tuple, sequence, included, numbered, ?_⟩
  cases context.config.enableManifestFilePathColumn <;> rfl

variable {partitionFields : List String}

/-- A file has a value for every partition column. -/
theorem partitionedFile_aligned
    (columns : context.columns = scanColumns context.config fileColumns partitionFields
      context.hasPositionDeletes) (changes : (context.changeSequences.bind fun sequences =>
      sequences.lookup file.manifestPath).isSome = context.config.scanChangedDataFiles)
    (tuples : ∀ tuple, includedScalars valueToScalarvalue file context.includePartitionValues =
      .ok tuple → tuple.length = partitionFields.length)
    (run : context.partitionedFile valueToScalarvalue file manifestPath = .ok made) :
    made.partitionValues.length = context.columns.partitionCols.length := by
  obtain ⟨-, tuple, sequence, included, numbered, values⟩ := partitionedFile_values run
  obtain ⟨internal, sequenceName, names⟩ := scanColumns_names context.config fileColumns
    partitionFields context.hasPositionDeletes
  rw [columns, names, values]
  simp only [List.length_append, length_onlyIf, length_toList, Option.isSome_map, changes,
    tuples tuple included, sequenceScalar_length numbered, ScanContext.includeDataFilePathColumn]

/-- The path columns come after the partition fields, with the paths under them. -/
theorem zip_cells (enabled : context.config.enableDataFilePathColumn)
    (alsoEnabled : context.config.enableManifestFilePathColumn)
    (columns : context.columns = scanColumns context.config fileColumns partitionFields
      context.hasPositionDeletes) {tuple : List (ScalarValue V)}
    (included : includedScalars valueToScalarvalue file context.includePartitionValues = .ok tuple)
    (length : tuple.length = partitionFields.length)
    (run : context.partitionedFile valueToScalarvalue file manifestPath = .ok made)
    (cells : String → ScalarValue V) (position : Nat) :
    ∃ others, (context.columns.names fileColumns).zip (made.cells fileColumns cells position) =
      fileColumns.zip (fileColumns.map cells) ++ (partitionFields.zip tuple ++
        ([(dataFilePathColumn, .utf8 file.entry.dataFile.filePath),
          (manifestFilePathColumn, .utf8 manifestPath)] ++ others)) := by
  obtain ⟨-, own, sequence, same, -, values⟩ := partitionedFile_values run
  obtain rfl : own = tuple := Except.ok.inj (same.symm.trans included)
  obtain ⟨internal, sequenceName, names⟩ := scanColumns_names context.config fileColumns
    partitionFields context.hasPositionDeletes
  rw [ScanColumns.names, PartitionedFile.cells, columns, names, values,
    ScanContext.includeDataFilePathColumn, enabled, alsoEnabled]
  simp only [Bool.true_or, onlyIf_true, if_true, List.append_assoc]
  rw [List.zip_append (List.length_map _).symm, List.zip_append length.symm,
    List.zip_append (by rfl), List.zip_append (by rfl)]
  exact ⟨_, rfl⟩

/-- The cell in the first column called like one of the paths. -/
theorem cells_of_path_name (enabled : context.config.enableDataFilePathColumn)
    (alsoEnabled : context.config.enableManifestFilePathColumn)
    (columns : context.columns = scanColumns context.config fileColumns partitionFields
      context.hasPositionDeletes) (changes : (context.changeSequences.bind fun sequences =>
      sequences.lookup file.manifestPath).isSome = context.config.scanChangedDataFiles)
    {tuple : List (ScalarValue V)}
    (included : includedScalars valueToScalarvalue file context.includePartitionValues = .ok tuple)
    (length : tuple.length = partitionFields.length)
    (run : context.partitionedFile valueToScalarvalue file manifestPath = .ok made) {name : String}
    (path : name = dataFilePathColumn ∨ name = manifestFilePathColumn) (fresh : name ∉ fileColumns)
    {index : Nat}
    (found : (context.columns.names fileColumns).findIdx? (fun column => column = name) =
      some index) (cells : String → ScalarValue V) (position : Nat) :
    (made.cells fileColumns cells position)[index]? =
      (firstNamed (partitionFields.zip tuple) name).or
        (firstNamed [(dataFilePathColumn, .utf8 file.entry.dataFile.filePath),
          (manifestFilePathColumn, .utf8 manifestPath)] name) := by
  have aligned := partitionedFile_aligned columns changes (fun other same => by
    rwa [← Except.ok.inj (included.symm.trans same)]) run
  have enough : (context.columns.names fileColumns).length ≤
      (made.cells fileColumns cells position).length := by
    simp only [ScanColumns.names, PartitionedFile.cells, List.length_append, List.length_map,
      aligned, length_toList, List.length_singleton]
    have few := Bool.toNat_le (context.columns.rowPosition.map (·.1)).isSome
    omega
  obtain ⟨others, zipped⟩ :=
    zip_cells enabled alsoEnabled columns included length run cells position
  have isPath : ∃ value, firstNamed [(dataFilePathColumn, .utf8 file.entry.dataFile.filePath),
      (manifestFilePathColumn, (.utf8 manifestPath : ScalarValue V))] name = some value := by
    rcases path with rfl | rfl
    · exact ⟨_, rfl⟩
    · exact ⟨_, rfl⟩
  obtain ⟨value, here⟩ := isPath
  rw [getElem?_findIdx? enough found, zipped, firstNamed_append, firstNamed_append,
    firstNamed_append, firstNamed_eq_none _ fresh, here]
  rfl

/-- The cell that position deletes are joined on is the path of the file. -/
theorem cells_at_filePath (hasPositionDeletes : context.hasPositionDeletes = true)
    (columns : context.columns = scanColumns context.config fileColumns partitionFields
      context.hasPositionDeletes)
    (tuples : ∀ tuple, includedScalars valueToScalarvalue file context.includePartitionValues =
      .ok tuple → tuple.length = partitionFields.length)
    (run : context.partitionedFile valueToScalarvalue file manifestPath = .ok made) {index : Nat}
    (at_ : context.columns.filePath = some index) (cells : String → ScalarValue V) (position : Nat) :
    (made.cells fileColumns cells position)[index]? = some (.utf8 file.entry.dataFile.filePath) := by
  obtain ⟨-, tuple, sequence, included, -, values⟩ := partitionedFile_values run
  have own : (scanColumns context.config fileColumns partitionFields true).filePath =
      some (fileColumns.length + partitionFields.length) := pathColumns_index ..
  rw [columns, hasPositionDeletes, own] at at_
  obtain rfl := Option.some.inj at_
  have before : (fileColumns.map cells ++ tuple).length =
      fileColumns.length + partitionFields.length := by
    rw [List.length_append, List.length_map, tuples tuple included]
  rw [PartitionedFile.cells, values, ScanContext.includeDataFilePathColumn, hasPositionDeletes,
    Bool.or_true, onlyIf_true]
  simp only [List.append_assoc, List.singleton_append]
  rw [← List.append_assoc, List.getElem?_append_right (by omega), ← before, Nat.sub_self]
  rfl

/-- The virtual column is the position in the file. -/
theorem cells_at_rowPosition
    (columns : context.columns = scanColumns context.config fileColumns partitionFields
      context.hasPositionDeletes) (changes : (context.changeSequences.bind fun sequences =>
      sequences.lookup file.manifestPath).isSome = context.config.scanChangedDataFiles)
    (tuples : ∀ tuple, includedScalars valueToScalarvalue file context.includePartitionValues =
      .ok tuple → tuple.length = partitionFields.length)
    (run : context.partitionedFile valueToScalarvalue file manifestPath = .ok made) {name : String}
    {index : Nat} (at_ : context.columns.rowPosition = some (name, index))
    (cells : String → ScalarValue V) (position : Nat) :
    (made.cells fileColumns cells position)[index]? = some (.int64 position) := by
  have aligned := partitionedFile_aligned columns changes tuples run
  have own : index = fileColumns.length + context.columns.partitionCols.length := by
    rw [columns] at at_ ⊢
    unfold scanColumns at at_ ⊢
    dsimp only at at_ ⊢
    split at at_
    · exact (Prod.mk.inj (Option.some.inj at_)).2.symm
    · cases at_
  have before : (fileColumns.map cells ++ made.partitionValues).length = index := by
    rw [List.length_append, List.length_map, aligned, own]
  rw [PartitionedFile.cells, List.getElem?_append_right (by omega), before, Nat.sub_self]
  rfl

end Values

/-! ### Projections -/

/-- The projection holds first columns of names. -/
def FirstColumns (scanSchema : List String) (scanProjection : List Nat) : Prop :=
  ∀ index ∈ scanProjection, ∃ name, scanSchema[index]? = some name ∧
    scanSchema.findIdx? (fun column => column = name) = some index

/-- Where a projection has a column. -/
theorem projectedColumn_spec {before after : List Nat} {index : Nat}
    (firsts : FirstColumns scanSchema before)
    (run : projectedColumn scanSchema before name = .ok (after, index)) :
    before <+: after ∧ FirstColumns scanSchema after ∧ ∃ scanIndex,
      after[index]? = some scanIndex ∧
      scanSchema.findIdx? (fun column => column = name) = some scanIndex := by
  unfold projectedColumn at run
  split at run
  · cases run
  · rename_i scanIndex found
    split at run
    · rename_i own there
      cases run
      obtain ⟨within, same, -⟩ := List.findIdx?_eq_some_iff_getElem.mp there
      refine ⟨List.prefix_refl _, firsts, scanIndex, ?_, found⟩
      rw [List.getElem?_eq_getElem within, of_decide_eq_true same]
    · cases run
      refine ⟨List.prefix_append _ _, ?_, scanIndex, List.getElem?_concat_length, found⟩
      intro index member
      rcases List.mem_append.mp member with earlier | last
      · exact firsts index earlier
      · obtain rfl := List.mem_singleton.mp last
        obtain ⟨within, same, -⟩ := List.findIdx?_eq_some_iff_getElem.mp found
        refine ⟨name, ?_, found⟩
        rw [List.getElem?_eq_getElem within, of_decide_eq_true same]

/-- What the loop of `row_lineage_projection` has made of the names before. -/
structure Projects (config : DataFusionTableConfig) (scanSchema : List String)
    (done : List String) (projections : List Nat × List (OutputExpr × String)) : Prop where
  names : projections.2.map (·.2) = done
  firsts : FirstColumns scanSchema projections.1
  plain : ∀ output ∈ projections.2, output.2 ≠ rowIdColumn →
    output.2 ≠ lastUpdatedSequenceNumberColumn → ∃ index scanIndex, output.1 = .column index ∧
      projections.1[index]? = some scanIndex ∧
      scanSchema.findIdx? (fun column => column = output.2) = some scanIndex

theorem getElem?_of_extends {before after : List α} (extends_ : before <+: after) {index : Nat}
    {a : α} (here : before[index]? = some a) : after[index]? = some a := by
  obtain ⟨added, rfl⟩ := extends_
  rw [List.getElem?_append_left (List.getElem?_eq_some_iff.mp here).1, here]

theorem projectedLineage_spec {kind : RowLineageKind} {physical firstRowId fallback : String}
    {before after : List Nat} {expression : OutputExpr} (firsts : FirstColumns scanSchema before)
    (run : projectedLineage scanSchema kind physical firstRowId fallback before =
      .ok (after, expression)) : before <+: after ∧ FirstColumns scanSchema after := by
  obtain ⟨⟨one, first⟩, step, run⟩ := bind_eq_ok.mp run
  obtain ⟨⟨two, second⟩, next, run⟩ := bind_eq_ok.mp run
  obtain ⟨⟨three, third⟩, last, run⟩ := bind_eq_ok.mp run
  cases run
  obtain ⟨grown, firsts, -⟩ := projectedColumn_spec firsts step
  obtain ⟨again, firsts, -⟩ := projectedColumn_spec firsts next
  obtain ⟨once, firsts, -⟩ := projectedColumn_spec firsts last
  exact ⟨(grown.trans again).trans once, firsts⟩

theorem projectionStep_projects {config : DataFusionTableConfig}
    {rowPositionName sequenceName : String} {done : List String}
    {before after : List Nat × List (OutputExpr × String)}
    (projects : Projects config scanSchema done before)
    (run : projectionStep scanSchema config rowPositionName sequenceName before name = .ok after) :
    Projects config scanSchema (done ++ [name]) after := by
  obtain ⟨⟨scanProjection, expression⟩, step, run⟩ := bind_eq_ok.mp run
  cases run
  have grown : before.1 <+: scanProjection ∧ FirstColumns scanSchema scanProjection ∧
      (name ≠ rowIdColumn → name ≠ lastUpdatedSequenceNumberColumn →
        ∃ index scanIndex, expression = .column index ∧ scanProjection[index]? = some scanIndex ∧
          scanSchema.findIdx? (fun column => column = name) = some scanIndex) := by
    unfold projectedExpression at step
    split at step
    · rename_i lineage
      obtain ⟨grown, firsts⟩ := projectedLineage_spec projects.firsts step
      exact ⟨grown, firsts, fun differs => absurd lineage.2 differs⟩
    · split at step
      · rename_i lineage
        obtain ⟨grown, firsts⟩ := projectedLineage_spec projects.firsts step
        exact ⟨grown, firsts, fun _ differs => absurd lineage.2 differs⟩
      · obtain ⟨⟨projection, index⟩, projected, same⟩ := map_eq_ok.mp step
        cases same
        obtain ⟨grown, firsts, scanIndex, here, found⟩ :=
          projectedColumn_spec projects.firsts projected
        exact ⟨grown, firsts, fun _ _ => ⟨index, scanIndex, rfl, here, found⟩⟩
  obtain ⟨extends_, firsts, own⟩ := grown
  refine ⟨?_, firsts, ?_⟩
  · rw [List.map_append, projects.names]
    rfl
  · intro output member notRowId notSequence
    rcases List.mem_append.mp member with earlier | last
    · obtain ⟨index, scanIndex, column, here, found⟩ :=
        projects.plain output earlier notRowId notSequence
      exact ⟨index, scanIndex, column, getElem?_of_extends extends_ here, found⟩
    · obtain rfl := List.mem_singleton.mp last
      exact own notRowId notSequence

/-- Where the projection of a scan has a requested column. -/
theorem rowLineageProjection_spec {config : DataFusionTableConfig} {fileColumns : List String}
    {columns : ScanColumns} {requested : List String}
    {projections : List Nat × List (OutputExpr × String)}
    (run : rowLineageProjection config fileColumns columns requested = .ok projections) :
    Projects config (columns.names fileColumns) requested projections := by
  refine foldlM_prefix_invariant (Projects config (columns.names fileColumns)) ?_ run ?_
  · exact fun _ _ _ _ _ projects step => projectionStep_projects projects step
  · exact ⟨rfl, (fun _ absent => nomatch absent), fun _ absent => nomatch absent⟩

theorem foldl_addIndex_extends (projection added : List Nat) :
    projection <+: added.foldl addIndex projection := by
  induction added generalizing projection with
  | nil => exact List.prefix_refl _
  | cons index added ih =>
    refine List.IsPrefix.trans ?_ (ih (addIndex projection index))
    unfold addIndex
    split
    · exact List.prefix_refl _
    · exact List.prefix_append _ _

/-! ### Rows of a plan -/

namespace ScanPlan

/-- All scans of a plan have one projection, and files of a kind. -/
def Over (indices : List Nat) (kind : PartitionedFile V → Prop) : ScanPlan V → Prop
  | .source files own => own = indices ∧ ∀ file ∈ files, kind file
  | .union left right => left.Over indices kind ∧ right.Over indices kind
  | .equalityAnti _ _ right => right.Over indices kind
  | .vectorFilter _ _ input => input.Over indices kind
  | .positionAnti _ _ right => right.Over indices kind
  | .projection _ _ => False

/-- A file is scanned by a plan. -/
def Scans (file : PartitionedFile V) : ScanPlan V → Prop
  | .source files _ => file ∈ files
  | .union left right => left.Scans file ∨ right.Scans file
  | .equalityAnti _ _ right => right.Scans file
  | .vectorFilter _ _ input => input.Scans file
  | .positionAnti _ _ right => right.Scans file
  | .projection _ input => input.Scans file

/-- The deletion vectors of a plan have a size, and the filters find their columns. -/
def Filters (fits : PositionDeleteDataColumns → Prop) : ScanPlan V → Prop
  | .source _ _ => True
  | .union left right => left.Filters fits ∧ right.Filters fits
  | .equalityAnti _ _ right => right.Filters fits
  | .vectorFilter vectors columns input =>
    fits columns ∧ (∀ delete ∈ vectors, 0 ≤ delete.entry.dataFile.recordCount) ∧
      input.Filters fits
  | .positionAnti _ _ right => right.Filters fits
  | .projection _ input => input.Filters fits

theorem Over.mono {indices : List Nat} {kind other : PartitionedFile V → Prop}
    (weaker : ∀ file, kind file → other file) {plan : ScanPlan V}
    (over_ : plan.Over indices kind) : plan.Over indices other := by
  induction plan with
  | source files own => exact ⟨over_.1, fun file member => weaker file (over_.2 file member)⟩
  | union left right left_ih right_ih => exact ⟨left_ih over_.1, right_ih over_.2⟩
  | equalityAnti _ _ right ih => exact ih over_
  | vectorFilter _ _ input ih => exact ih over_
  | positionAnti _ _ right ih => exact ih over_
  | projection _ input _ => exact over_

theorem Over.scans {indices : List Nat} {kind : PartitionedFile V → Prop} {plan : ScanPlan V}
    (over_ : plan.Over indices kind) {file : PartitionedFile V} (scans : plan.Scans file) :
    kind file := by
  induction plan with
  | source files own => exact over_.2 file scans
  | union left right left_ih right_ih =>
    exact scans.elim (fun scans => left_ih over_.1 scans) fun scans => right_ih over_.2 scans
  | equalityAnti _ _ right ih => exact ih over_ scans
  | vectorFilter _ _ input ih => exact ih over_ scans
  | positionAnti _ _ right ih => exact ih over_ scans
  | projection _ input _ => exact over_.elim

/-- A row of a plan is a projected row of one of its files. -/
theorem Over.outputs {fileColumns : List String} {stored : StoredRows V} {indices : List Nat}
    {kind : PartitionedFile V → Prop} {plan : ScanPlan V} (over_ : plan.Over indices kind)
    {origin : ContentFile V} {row : List (ScalarValue V)}
    (outputs : plan.Outputs fileColumns stored origin row) :
    ∃ file, kind file ∧ file.source = origin ∧ ∃ cells position,
      row = indices.map fun index => (file.cells fileColumns cells position).getD index .null := by
  induction plan with
  | source files own =>
    obtain ⟨rfl, every⟩ := over_
    obtain ⟨file, member, source, position, cells, -, same⟩ := outputs
    exact ⟨file, every file member, source, cells, position, same⟩
  | union left right left_ih right_ih =>
    rcases outputs with outputs | outputs
    · exact left_ih over_.1 outputs
    · exact right_ih over_.2 outputs
  | equalityAnti _ _ right ih => exact ih over_ outputs.1
  | vectorFilter _ _ input ih => exact ih over_ outputs.2.1
  | positionAnti _ _ right ih => exact ih over_ outputs.1
  | projection _ input _ => exact over_.elim

end ScanPlan

/-- Every data file holds one row, no delete file holds any, and the deletion vectors leave out the
first position. -/
def firstRows : StoredRows V where
  rows content _ := match content with
    | .data => [fun _ => .null]
    | _ => []
  vector delete := ⟨Finset.Icc 1 delete.entry.dataFile.recordCount.toNat⟩

/-- The row of a file that `firstRows` gives it. -/
def PartitionedFile.firstRow (file : PartitionedFile V) (fileColumns : List String)
    (indices : List Nat) : List (ScalarValue V) :=
  indices.map fun index => (file.cells fileColumns (fun _ => .null) 0).getD index .null

/-- No vector deletes the first position. -/
theorem loadDeletionVectors_firstRows (deletes : List (ContentFile V)) (path : String) :
    ((loadDeletionVectors firstRows deletes).lookup path).any (·.contains 0) = false := by
  have invariant : ∀ (deletes : List (ContentFile V)) (vectors : HashMap String DeletionVector),
      (∀ path vector, vectors.lookup path = some vector → 0 ∉ vector.positions) →
      ∀ path vector, (deletes.foldl (fun vectors delete =>
        let path := delete.entry.dataFile.referencedDataFile.getD ""
        let before := ((vectors.lookup path).map (·.positions)).getD ∅
        vectors.insert path ⟨before ∪ (firstRows.vector delete).positions⟩) vectors).lookup path =
          some vector → 0 ∉ vector.positions := by
    intro deletes
    induction deletes with
    | nil => exact fun _ before => before
    | cons delete deletes ih =>
      intro vectors before
      refine ih _ fun path vector found => ?_
      by_cases here : path = delete.entry.dataFile.referencedDataFile.getD ""
      · rw [here, AList.lookup_insert] at found
        obtain rfl := Option.some.inj found
        rw [Finset.mem_union, not_or]
        refine ⟨?_, fun own => ?_⟩
        · cases there : vectors.lookup (delete.entry.dataFile.referencedDataFile.getD "") with
          | none => exact Finset.notMem_empty 0
          | some vector => exact before _ vector there
        · exact absurd (Finset.mem_Icc.mp own).1 (by decide)
      · rw [AList.lookup_insert_ne here] at found
        exact before path vector found
  cases found : (loadDeletionVectors firstRows deletes).lookup path with
  | none => rfl
  | some vector =>
    have outside := invariant deletes ∅ (fun _ _ absent => nomatch absent) path vector found
    exact decide_eq_false outside

/-- The filter keeps the row, in a batch of its own. -/
theorem evaluate_firstRow (vectors : List (ContentFile V)) {columns : PositionDeleteDataColumns}
    {row : List (ScalarValue V)} {path : String}
    (filePath : row.getD columns.filePath .null = .utf8 path)
    (rowPosition : row.getD columns.rowPosition .null = .int64 0) :
    ∃ value, (DeletionVectorPredicate.scanned (loadDeletionVectors firstRows vectors)).evaluate
      (vectorBatch columns [row]) = .ok value ∧ value.keeps 0 = true := by
  have reads : (DeletionVectorPredicate.scanned (loadDeletionVectors firstRows vectors)).Reads
      (vectorBatch columns [row]) [(path, 0)] := by
    refine ⟨rfl, ?_, ?_⟩
    · exact congrArg (fun cell => Except.ok (ArrowArray.utf8 [ScalarValue.text cell])) filePath
    · exact congrArg (fun cell => Except.ok (ArrowArray.int64 [ScalarValue.integer cell])) rowPosition
  obtain ⟨value, evaluated, kept⟩ := DeletionVectorPredicate.evaluate_located reads
  refine ⟨value, evaluated, ?_⟩
  rw [kept 0 (path, 0) rfl, Bool.not_eq_true']
  exact loadDeletionVectors_firstRows vectors path

/-- The plan outputs the row of a file that it scans. -/
theorem ScanPlan.outputs_firstRow {fileColumns : List String} {indices : List Nat}
    {kind : PartitionedFile V → Prop} {plan : ScanPlan V} (over_ : plan.Over indices kind)
    {file : PartitionedFile V} (scans : plan.Scans file)
    (filters : plan.Filters fun columns =>
      (file.firstRow fileColumns indices).getD columns.filePath .null =
        .utf8 file.source.entry.dataFile.filePath ∧
      (file.firstRow fileColumns indices).getD columns.rowPosition .null = .int64 0) :
    plan.Outputs fileColumns firstRows file.source (file.firstRow fileColumns indices) := by
  induction plan with
  | source files own =>
    obtain ⟨rfl, -⟩ := over_
    exact ⟨file, scans, rfl, 0, fun _ => .null, rfl, rfl⟩
  | union left right left_ih right_ih =>
    rcases scans with scans | scans
    · exact .inl (left_ih over_.1 scans filters.1)
    · exact .inr (right_ih over_.2 scans filters.2)
  | equalityAnti delete _ right ih =>
    exact ⟨ih over_ scans filters, fun ⟨_, absent, _⟩ => nomatch absent⟩
  | vectorFilter vectors columns input ih =>
    obtain ⟨⟨filePath, rowPosition⟩, sizes, filters⟩ := filters
    have outputs := ih over_ scans filters
    obtain ⟨value, evaluated, kept⟩ := evaluate_firstRow vectors filePath rowPosition
    refine ⟨?_, outputs, [file.firstRow fileColumns indices], 0, value, rfl, ?_, evaluated, kept⟩
    · intro delete member
      have size := sizes delete member
      change ((Finset.Icc 1 delete.entry.dataFile.recordCount.toNat).card : Int) = _
      rw [Nat.card_Icc]
      omega
    · intro other member
      rw [List.mem_singleton.mp member]
      exact ⟨file.source, outputs⟩
  | positionAnti deletes _ right ih =>
    exact ⟨ih over_ scans filters, fun ⟨_, _, _, absent, _⟩ => nomatch absent⟩
  | projection _ input _ => exact over_.elim

end IcebergRust

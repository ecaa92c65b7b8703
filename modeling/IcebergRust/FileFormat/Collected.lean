import IcebergRust.FileFormat.Parquet
import IcebergRust.Lib.Fallible

/-!
# What is collected of a column

The fold over row groups and columns, seen from one field of the schema: every column chunk
adds to the counts and the bounds of its own field and leaves the others alone.

* `collectColumn_spec` is what one chunk does; `boundOf` is the value it merges into a bound.
* `collected_bounds` gives the bounds of a field before they are cut, as a fold over the values
  its chunks have.
-/

namespace IcebergRust

open Fallible

/-- The context in which the columns of a file are collected. -/
def collectContext (libraries : FileLibraries) (schema : Schema)
    (partitionFields : List BoundPartitionField) (tableProperties : HashMap String String)
    (partitionValues : Option (List (Option Value))) : CollectContext where
  libraries := libraries
  schema := schema
  config := .fromTableProperties tableProperties
  partitionFields := if partitionValues.isNone then
      some (HashMap.fromIter (partitionFields.map fun field =>
        (field.sourceName, field.partitionField)))
    else none

/-- The field of a leaf column, and its type. -/
def fieldOf (schema : Schema) (column : ColumnDescriptor) : Option (Int × IcebergType) :=
  if column.isRowLineage then none
  else (schema.fields.getName column.dotted).bind fun named =>
    (schema.fields.get named.id).map fun field => (named.id, field.fieldType)

/-- The mode of a leaf column. -/
def modeOf (context : CollectContext) (column : ColumnDescriptor) : MetricsMode :=
  context.config.modeFor column.dotted (topLevelIndex context.schema column.dotted)

/-- A type with several leaves. -/
def IcebergType.multiLeaf : IcebergType → Bool
  | .primitive .variant => true
  | .primitive _ => false
  | _ => true

/-- A value that a column chunk merges into a bound of its field. -/
def boundOf (context : CollectContext) (pick : ColumnStatistics → Option (List UInt8))
    (chunk : ColumnChunkMetaData) : Option Value :=
  match fieldOf context.schema chunk.column, chunk.statistics.bind pick with
  | some (_, type), some bytes =>
    if (modeOf context chunk.column).recordsBounds && !type.multiLeaf then
      (Value.tryFromBytesWithHint context.libraries.parseUuid bytes type chunk.column.hint).toOption
    else none
  | _, _ => none

/-- The chunk is one of a column of the field. -/
def isOf (context : CollectContext) (id : Int) (column : ColumnDescriptor) : Bool :=
  ((fieldOf context.schema column).map (·.1)) = some id

theorem resolveColumn_spec {schema : Schema} {config : MetricsConfig} {column : ColumnDescriptor}
    {resolved : ResolvedColumn} (tracked : column.isRowLineage = false)
    (run : resolveColumn schema config column = .ok resolved) :
    fieldOf schema column = some (resolved.id, resolved.dataType) ∧
      resolved.mode = config.modeFor column.dotted (topLevelIndex schema column.dotted) ∧
      resolved.hint = column.hint ∧ resolved.name = column.name := by
  unfold resolveColumn at run
  unfold fieldOf
  rw [tracked]
  cases named : schema.fields.getName column.dotted with
  | none =>
    rw [named] at run
    cases run
  | some field =>
    rw [named] at run
    dsimp only at run
    cases typed : schema.fields.get field.id with
    | none =>
      rw [typed] at run
      cases run
    | some column =>
      rw [typed] at run
      cases run
      simp [typed]

theorem hasBounds_eq (column : ResolvedColumn) : column.hasBounds = !column.dataType.multiLeaf := by
  obtain ⟨id, type, mode, hint, name⟩ := column
  unfold ResolvedColumn.hasBounds ResolvedColumn.isContainer ResolvedColumn.isVariant
  cases type with
  | primitive type => cases type <;> simp [IcebergType.multiLeaf]
  | struct => rfl
  | list => rfl
  | map => rfl

/-- Inserting what a chunk merges into one of the bounds. -/
def mergeInto (merge : Option Value → Value → Value) (bounds : HashMap Int Value) (id : Int)
    (new : Option Value) : HashMap Int Value :=
  match new with
  | some new => bounds.insert id (merge (bounds.lookup id) new)
  | none => bounds

variable {context : CollectContext} {column : ResolvedColumn} {before after : GroupCollected}
  {chunk : ColumnChunkMetaData} {group : RowGroupMetaData} {chunks : List ColumnChunkMetaData}

theorem mergeBound_spec {merge : Option Value → Value → Value} {bytes : Option (List UInt8)}
    {bounds after : HashMap Int Value}
    (run : mergeBound context.libraries column merge bytes bounds = .ok after) :
    after = mergeInto merge bounds column.id
      (bytes.bind fun bytes => if column.mode.recordsBounds && column.hasBounds then
        (decode context.libraries column bytes).toOption else none) := by
  unfold mergeBound at run
  cases bytes with
  | none =>
    cases run
    rfl
  | some bytes =>
    dsimp only at run
    rw [Option.bind_some]
    split at run
    · rename_i bounded
      obtain ⟨new, decoded, run⟩ := bind_eq_ok.mp run
      cases run
      rw [if_pos bounded, decoded]
      rfl
    · rename_i unbounded
      cases run
      rw [if_neg unbounded]
      rfl

/-- The null count a column chunk states, where counts are recorded. -/
def nullsOf (context : CollectContext) (chunk : ColumnChunkMetaData) : Option (BitVec 64) :=
  (chunk.statistics.bind (·.nullCount)).filter fun _ => (modeOf context chunk.column).recordsCounts

/-- A bound of a field after one more value. -/
def stepBound (merge : Option Value → Value → Value) (bound new : Option Value) : Option Value :=
  match new with
  | some new => some (merge bound new)
  | none => bound

/-- A count of a field after one more addend. -/
def stepCount (count : Option Int) (addend : Int) : Option Int :=
  some (match count with
    | some old => wrapI64 (old + addend)
    | none => addend)

/-- The null count of a variant after one more leaf. -/
def stepMax (count : Option Int) (leaf : Int) : Option Int :=
  some (match count with
    | some old => max old leaf
    | none => leaf)

/-- A count after a null count that may be unknown. -/
def stepKnown (step : Option Int → Int → Option Int) (before : Option Int)
    (count : Option (BitVec 64)) : Option Int :=
  match count with
  | some count => step before count.toInt
  | none => before

/-- What a column chunk does to what is collected of a field. -/
structure Collects (context : CollectContext) (group : RowGroupMetaData)
    (chunk : ColumnChunkMetaData) (id : Int) (before after : GroupCollected) : Prop where
  lower : after.collected.lowerBounds.lookup id =
    if isOf context id chunk.column then
      stepBound mergeLower (before.collected.lowerBounds.lookup id)
        (boundOf context (·.minBytes) chunk)
    else before.collected.lowerBounds.lookup id
  upper : after.collected.upperBounds.lookup id =
    if isOf context id chunk.column then
      stepBound mergeUpper (before.collected.upperBounds.lookup id)
        (boundOf context (·.maxBytes) chunk)
    else before.collected.upperBounds.lookup id
  modes : after.collected.columnMetricsModes.lookup id =
    if isOf context id chunk.column then some (modeOf context chunk.column)
    else before.collected.columnMetricsModes.lookup id
  values : after.collected.valueCounts.lookup id =
    if isOf context id chunk.column ∧ (modeOf context chunk.column).recordsCounts ∧
        ¬ (((context.schema.fields.get id).any (·.fieldType.multiLeaf)) ∧
          id ∈ before.countedLogicalValues) then
      stepCount (before.collected.valueCounts.lookup id) group.numRows.toInt
    else before.collected.valueCounts.lookup id
  counted : id ∈ after.countedLogicalValues ↔ id ∈ before.countedLogicalValues ∨
    (isOf context id chunk.column ∧ (modeOf context chunk.column).recordsCounts ∧
      (context.schema.fields.get id).any (·.fieldType.multiLeaf))
  nulls : after.collected.nullValueCounts.lookup id =
    if isOf context id chunk.column ∧
        ¬ (context.schema.fields.get id).any (·.fieldType.multiLeaf) then
      stepKnown stepCount (before.collected.nullValueCounts.lookup id) (nullsOf context chunk)
    else before.collected.nullValueCounts.lookup id
  variants : after.variantNullCounts.lookup id =
    if isOf context id chunk.column ∧
        (context.schema.fields.get id).any (·.fieldType = .primitive .variant) then
      stepKnown stepMax (before.variantNullCounts.lookup id) (nullsOf context chunk)
    else before.variantNullCounts.lookup id

/-! ### One column chunk -/

theorem lookup_insert_eq {β : Type} (m : HashMap Int β) (key id : Int) (value : β) :
    (m.insert key value).lookup id = if key = id then some value else m.lookup id := by
  by_cases here : key = id
  · rw [if_pos here, here, AList.lookup_insert]
  · rw [if_neg here, AList.lookup_insert_ne (Ne.symm here)]

theorem lookup_addCount (counts : HashMap Int Int) (key count id : Int) :
    (addCount counts key count).lookup id =
      if key = id then stepCount (counts.lookup id) count else counts.lookup id := by
  rw [addCount, lookup_insert_eq]
  by_cases here : key = id
  · rw [if_pos here, if_pos here, here]
    rfl
  · rw [if_neg here, if_neg here]

theorem lookup_mergeInto (merge : Option Value → Value → Value) (bounds : HashMap Int Value)
    (key id : Int) (new : Option Value) :
    (mergeInto merge bounds key new).lookup id =
      if key = id then stepBound merge (bounds.lookup id) new else bounds.lookup id := by
  cases new with
  | none => simp [mergeInto, stepBound]
  | some new =>
    rw [mergeInto, lookup_insert_eq]
    by_cases here : key = id
    · rw [if_pos here, if_pos here, here]
      rfl
    · rw [if_neg here, if_neg here]

/-- Counting the rows of a chunk. -/
structure CountsRowsOf (group : RowGroupMetaData) (column : ResolvedColumn) (id : Int)
    (before after : GroupCollected) : Prop where
  lower : after.collected.lowerBounds = before.collected.lowerBounds
  upper : after.collected.upperBounds = before.collected.upperBounds
  nulls : after.collected.nullValueCounts = before.collected.nullValueCounts
  variants : after.variantNullCounts = before.variantNullCounts
  partition : after.collected.partition = before.collected.partition
  modes : after.collected.columnMetricsModes.lookup id =
    if column.id = id then some column.mode else before.collected.columnMetricsModes.lookup id
  values : after.collected.valueCounts.lookup id =
    if column.id = id ∧ column.mode.recordsCounts ∧
        ¬ (column.dataType.multiLeaf ∧ id ∈ before.countedLogicalValues) then
      stepCount (before.collected.valueCounts.lookup id) group.numRows.toInt
    else before.collected.valueCounts.lookup id
  counted : id ∈ after.countedLogicalValues ↔ id ∈ before.countedLogicalValues ∨
    (column.id = id ∧ column.mode.recordsCounts ∧ column.dataType.multiLeaf)

theorem multiLeaf_eq (column : ResolvedColumn) :
    (column.isVariant || column.isContainer) = column.dataType.multiLeaf := by
  have bounds := hasBounds_eq column
  unfold ResolvedColumn.hasBounds at bounds
  rw [Bool.or_comm, ← Bool.not_not (column.isContainer || column.isVariant), Bool.not_or, bounds,
    Bool.not_not]

theorem countRows_spec (group : RowGroupMetaData) (column : ResolvedColumn) (size : BitVec 64)
    (state : GroupCollected) (id : Int) :
    CountsRowsOf group column id state (countRows group column size state) := by
  unfold countRows
  rw [multiLeaf_eq]
  split
  · rename_i counts
    split
    · rename_i multi
      split
      · rename_i already
        refine ⟨rfl, rfl, rfl, rfl, rfl, lookup_insert_eq _ _ _ _, ?_, ?_⟩
        · rw [if_neg]
          rintro ⟨rfl, -, new⟩
          exact new ⟨multi, already⟩
        · constructor
          · exact .inl
          · rintro (old | ⟨rfl, -⟩)
            · exact old
            · exact already
      · rename_i new
        refine ⟨rfl, rfl, rfl, rfl, rfl, lookup_insert_eq _ _ _ _, ?_, ?_⟩
        · dsimp only
          rw [lookup_addCount]
          by_cases here : column.id = id
          · rw [if_pos here, if_pos ⟨here, counts, fun both => new (here ▸ both.2)⟩]
          · rw [if_neg here, if_neg fun both => here both.1]
        · simp [counts, multi, eq_comm, or_comm]
    · rename_i single
      refine ⟨rfl, rfl, rfl, rfl, rfl, lookup_insert_eq _ _ _ _, ?_, ?_⟩
      · dsimp only
        rw [lookup_addCount]
        by_cases here : column.id = id
        · rw [if_pos here, if_pos ⟨here, counts, fun both => single both.1⟩]
        · rw [if_neg here, if_neg fun both => here both.1]
      · simp [single]
  · rename_i uncounted
    refine ⟨rfl, rfl, rfl, rfl, rfl, lookup_insert_eq _ _ _ _, ?_, ?_⟩
    · rw [if_neg fun both => uncounted both.2.1]
    · simp [uncounted]

/-- Counting the nulls of a chunk. -/
structure CountsNullsOf (column : ResolvedColumn) (count : Option (BitVec 64)) (id : Int)
    (before after : GroupCollected) : Prop where
  lower : after.collected.lowerBounds = before.collected.lowerBounds
  upper : after.collected.upperBounds = before.collected.upperBounds
  modes : after.collected.columnMetricsModes = before.collected.columnMetricsModes
  values : after.collected.valueCounts = before.collected.valueCounts
  counted : after.countedLogicalValues = before.countedLogicalValues
  partition : after.collected.partition = before.collected.partition
  nulls : after.collected.nullValueCounts.lookup id =
    if column.id = id ∧ ¬ column.dataType.multiLeaf then
      stepKnown stepCount (before.collected.nullValueCounts.lookup id) count
    else before.collected.nullValueCounts.lookup id
  variants : after.variantNullCounts.lookup id =
    if column.id = id ∧ column.dataType = .primitive .variant then
      stepKnown stepMax (before.variantNullCounts.lookup id) count
    else before.variantNullCounts.lookup id

theorem countNulls_spec (column : ResolvedColumn) (statistics : ColumnStatistics)
    (state : GroupCollected) (id : Int) :
    CountsNullsOf column (statistics.nullCount.filter fun _ => column.mode.recordsCounts) id state
      (countNulls column statistics state) := by
  unfold countNulls
  cases statistics.nullCount.filter fun _ => column.mode.recordsCounts with
  | none => exact ⟨rfl, rfl, rfl, rfl, rfl, rfl, by simp [stepKnown], by simp [stepKnown]⟩
  | some count =>
    dsimp only
    have multi := multiLeaf_eq column
    split
    · rename_i variant
      have is : column.dataType = .primitive .variant := of_decide_eq_true variant
      refine ⟨rfl, rfl, rfl, rfl, rfl, rfl, ?_, ?_⟩
      · rw [if_neg]
        rw [is]
        exact fun both => both.2 rfl
      · dsimp only
        rw [lookup_insert_eq]
        by_cases here : column.id = id
        · rw [if_pos here, if_pos ⟨here, is⟩, here]
          rfl
        · rw [if_neg here, if_neg fun both => here both.1]
    · rename_i other
      have isNot : ¬ column.dataType = .primitive .variant := fun is => other (decide_eq_true is)
      rw [(Bool.not_eq_true _).mp other, Bool.false_or] at multi
      split
      · rename_i container
        refine ⟨rfl, rfl, rfl, rfl, rfl, rfl, ?_, ?_⟩
        · rw [if_neg]
          exact fun both => both.2 (multi ▸ container)
        · rw [if_neg fun both => isNot both.2]
      · rename_i single
        refine ⟨rfl, rfl, rfl, rfl, rfl, rfl, ?_, ?_⟩
        · dsimp only
          rw [lookup_addCount]
          by_cases here : column.id = id
          · rw [if_pos here, if_pos ⟨here, multi ▸ single⟩, stepKnown]
          · rw [if_neg here, if_neg fun both => here both.1]
        · rw [if_neg fun both => isNot both.2]

/-- The distinct counts are all that counting distinct values changes. -/
theorem countDistinct_spec {libraries : FileLibraries} {statistics : ColumnStatistics}
    {before after : Collected} (run : countDistinct libraries column statistics before = .ok after) :
    after = { before with distinctCounts := after.distinctCounts } := by
  unfold countDistinct at run
  split at run
  · cases run
    rfl
  · split at run
    · split at run
      · obtain ⟨min, -, run⟩ := bind_eq_ok.mp run
        obtain ⟨max, -, run⟩ := bind_eq_ok.mp run
        cases run
        rfl
      · cases run
        rfl
    · cases run
      rfl

theorem collectStatistics_spec {statistics : ColumnStatistics}
    (run : collectStatistics context column statistics before = .ok after) :
    ∃ distinct lower upper partition,
      mergeBound context.libraries column mergeLower statistics.minBytes
        before.collected.lowerBounds = .ok lower ∧
      mergeBound context.libraries column mergeUpper statistics.maxBytes
        before.collected.upperBounds = .ok upper ∧
      inferred context column statistics before.collected.partition = .ok partition ∧
      after = { countNulls column statistics before with
        collected := { (countNulls column statistics before).collected with
          distinctCounts := distinct, lowerBounds := lower, upperBounds := upper, partition } } := by
  have nulls := countNulls_spec column statistics before 0
  unfold collectStatistics at run
  obtain ⟨collected, counts, run⟩ := bind_eq_ok.mp run
  obtain ⟨lower, below, run⟩ := bind_eq_ok.mp run
  obtain ⟨upper, above, run⟩ := bind_eq_ok.mp run
  obtain ⟨partition, infers, run⟩ := bind_eq_ok.mp run
  cases run
  rw [countDistinct_spec counts] at below above infers ⊢
  dsimp only at below above infers
  rw [nulls.lower] at below
  rw [nulls.upper] at above
  rw [nulls.partition] at infers
  exact ⟨collected.distinctCounts, lower, upper, partition, below, above, infers, rfl⟩

/-- What resolving a tracked column says of its field. -/
structure Resolves (context : CollectContext) (chunk : ColumnChunkMetaData)
    (column : ResolvedColumn) : Prop where
  field : fieldOf context.schema chunk.column = some (column.id, column.dataType)
  type : (context.schema.fields.get column.id).map (·.fieldType) = some column.dataType
  mode : column.mode = modeOf context chunk.column
  hint : column.hint = chunk.column.hint
  name : column.name = chunk.column.name

theorem Resolves.isOf (resolves : Resolves context chunk column) (id : Int) :
    isOf context id chunk.column = true ↔ column.id = id := by
  unfold IcebergRust.isOf
  rw [resolves.field]
  simp

theorem fieldOf_type {schema : Schema} {column : ColumnDescriptor} {id : Int} {type : IcebergType}
    (field : fieldOf schema column = some (id, type)) :
    (schema.fields.get id).map (·.fieldType) = some type := by
  unfold fieldOf at field
  split at field
  · cases field
  · obtain ⟨named, -, typed⟩ := Option.bind_eq_some_iff.mp field
    obtain ⟨found, present, same⟩ := Option.map_eq_some_iff.mp typed
    obtain ⟨rfl, rfl⟩ := Prod.mk.inj same
    rw [present]
    rfl

theorem Resolves.any (resolves : Resolves context chunk column) (p : IcebergType → Bool) :
    (context.schema.fields.get column.id).any (fun field => p field.fieldType) =
      p column.dataType := by
  obtain ⟨field, present, type⟩ := Option.map_eq_some_iff.mp resolves.type
  rw [present, ← type]
  rfl

theorem Resolves.boundOf (resolves : Resolves context chunk column)
    (pick : ColumnStatistics → Option (List UInt8)) :
    boundOf context pick chunk = (chunk.statistics.bind pick).bind fun bytes =>
      if column.mode.recordsBounds && column.hasBounds then
        (decode context.libraries column bytes).toOption else none := by
  unfold IcebergRust.boundOf
  rw [resolves.field, hasBounds_eq, resolves.mode]
  cases chunk.statistics.bind pick with
  | none => rfl
  | some bytes =>
    rw [Option.bind_some, decode, resolves.hint]

/-- A chunk of a tracked column resolves, and is counted before its statistics are read. -/
theorem collectColumn_cases (run : collectColumn context group before chunk = .ok after) :
    (fieldOf context.schema chunk.column = none ∧ after = before) ∨
      ∃ column, Resolves context chunk column ∧
        match chunk.statistics with
        | none => after = countRows group column chunk.compressedSize before
        | some statistics => collectStatistics context column statistics
            (countRows group column chunk.compressedSize before) = .ok after := by
  unfold collectColumn at run
  split at run
  · rename_i untracked
    cases run
    refine .inl ⟨?_, rfl⟩
    rw [fieldOf, if_pos untracked]
  · rename_i tracked
    obtain ⟨column, resolved, run⟩ := bind_eq_ok.mp run
    obtain ⟨field, mode, hint, name⟩ := resolveColumn_spec ((Bool.not_eq_true _).mp tracked) resolved
    refine .inr ⟨column, ⟨field, fieldOf_type field, mode, hint, name⟩, ?_⟩
    dsimp only at run
    cases statistics : chunk.statistics with
    | none =>
      rw [statistics] at run
      cases run
      rfl
    | some statistics' =>
      rw [statistics] at run
      exact run

/-- What one column chunk does to what is collected of a field. -/
theorem collectColumn_spec (run : collectColumn context group before chunk = .ok after) (id : Int) :
    Collects context group chunk id before after := by
  rcases collectColumn_cases run with ⟨untracked, rfl⟩ | ⟨column, resolves, run⟩
  · have other : isOf context id chunk.column = false := by
      rw [isOf, untracked]
      rfl
    constructor <;> simp [other]
  · have here : isOf context id chunk.column = decide (column.id = id) :=
      Bool.eq_iff_iff.mpr ((resolves.isOf id).trans decide_eq_true_iff.symm)
    have rows := countRows_spec group column chunk.compressedSize before id
    have multi : column.id = id →
        (context.schema.fields.get id).any (·.fieldType.multiLeaf) = column.dataType.multiLeaf :=
      fun same => same ▸ resolves.any IcebergType.multiLeaf
    have variant : column.id = id →
        ((context.schema.fields.get id).any (·.fieldType = .primitive .variant) ↔
          column.dataType = .primitive .variant) := by
      rintro rfl
      rw [resolves.any fun type => type = .primitive .variant]
      exact decide_eq_true_iff
    have nulls : nullsOf context chunk =
        (chunk.statistics.bind (·.nullCount)).filter fun _ => column.mode.recordsCounts := by
      rw [nullsOf, resolves.mode]
    cases statistics : chunk.statistics with
    | none =>
      rw [statistics] at run nulls
      dsimp only at run
      subst run
      constructor
      · rw [resolves.boundOf, statistics, rows.lower]
        simp [stepBound]
      · rw [resolves.boundOf, statistics, rows.upper]
        simp [stepBound]
      · rw [rows.modes, here, resolves.mode]
        simp
      · rw [rows.values, here, ← resolves.mode]
        by_cases same : column.id = id
        · simp [same, multi same]
        · simp [same]
      · rw [rows.counted, here, ← resolves.mode]
        by_cases same : column.id = id
        · simp [same, multi same]
        · simp [same]
      · rw [rows.nulls, nulls]
        simp [stepKnown]
      · rw [rows.variants, nulls]
        simp [stepKnown]
    | some statistics' =>
      rw [statistics] at run nulls
      obtain ⟨distinct, lower, upper, partition, below, above, -, rfl⟩ := collectStatistics_spec run
      have counts := countNulls_spec column statistics'
        (countRows group column chunk.compressedSize before) id
      constructor
      · dsimp only
        rw [mergeBound_spec below, lookup_mergeInto, resolves.boundOf, statistics, here, rows.lower]
        simp
      · dsimp only
        rw [mergeBound_spec above, lookup_mergeInto, resolves.boundOf, statistics, here, rows.upper]
        simp
      · dsimp only
        rw [counts.modes, rows.modes, here, resolves.mode]
        simp
      · dsimp only
        rw [counts.values, rows.values, here, ← resolves.mode]
        by_cases same : column.id = id
        · simp [same, multi same]
        · simp [same]
      · dsimp only
        rw [counts.counted, rows.counted, here, ← resolves.mode]
        by_cases same : column.id = id
        · simp [same, multi same]
        · simp [same]
      · dsimp only
        rw [counts.nulls, nulls, here, rows.nulls, Option.bind_some]
        by_cases same : column.id = id
        · simp [same, multi same]
        · simp [same]
      · dsimp only
        rw [counts.variants, nulls, here, rows.variants, Option.bind_some]
        by_cases same : column.id = id
        · by_cases is : column.dataType = .primitive .variant
          · rw [if_pos ⟨same, is⟩, if_pos ⟨decide_eq_true same, (variant same).mpr is⟩]
          · rw [if_neg fun both => is both.2, if_neg fun both => is ((variant same).mp both.2)]
        · simp [same]

/-! ### The bounds of a field -/

/-- The value a column chunk merges into a bound of a field. -/
def chunkBound (context : CollectContext) (pick : ColumnStatistics → Option (List UInt8)) (id : Int)
    (chunk : ColumnChunkMetaData) : Option Value :=
  if isOf context id chunk.column then boundOf context pick chunk else none

/-- The column chunks of a file, in the order they are read. -/
def chunksOf (file : ParquetMetaData) : List ColumnChunkMetaData :=
  file.rowGroups.flatMap (·.columns)

/-- Merging values into a bound. -/
def merged (merge : Option Value → Value → Value) (bound : Option Value) (values : List Value) :
    Option Value :=
  values.foldl (fun bound value => some (merge bound value)) bound

theorem merged_filterMap (merge : Option Value → Value → Value) (bound : Option Value)
    (context : CollectContext) (pick : ColumnStatistics → Option (List UInt8)) (id : Int)
    (chunk : ColumnChunkMetaData) (chunks : List ColumnChunkMetaData) :
    merged merge bound ((chunk :: chunks).filterMap (chunkBound context pick id)) =
      merged merge (if isOf context id chunk.column then
          stepBound merge bound (boundOf context pick chunk) else bound)
        (chunks.filterMap (chunkBound context pick id)) := by
  rw [List.filterMap_cons, chunkBound]
  split_ifs with here
  · cases boundOf context pick chunk <;> rfl
  · rfl

/-- The bounds and the mode of a field after column chunks. -/
structure BoundsAfter (context : CollectContext) (chunks : List ColumnChunkMetaData) (id : Int)
    (before after : Collected) : Prop where
  lower : after.lowerBounds.lookup id = merged mergeLower (before.lowerBounds.lookup id)
    (chunks.filterMap (chunkBound context (·.minBytes) id))
  upper : after.upperBounds.lookup id = merged mergeUpper (before.upperBounds.lookup id)
    (chunks.filterMap (chunkBound context (·.maxBytes) id))
  mode : ∀ mode, (∀ chunk ∈ chunks, isOf context id chunk.column →
      modeOf context chunk.column = mode) →
    after.columnMetricsModes.lookup id =
      if chunks.any fun chunk => isOf context id chunk.column then some mode
      else before.columnMetricsModes.lookup id

theorem BoundsAfter.trans {first second : List ColumnChunkMetaData} {id : Int} {a b c : Collected}
    (one : BoundsAfter context first id a b) (two : BoundsAfter context second id b c) :
    BoundsAfter context (first ++ second) id a c := by
  refine ⟨?_, ?_, fun mode same => ?_⟩
  · rw [two.lower, one.lower, List.filterMap_append, merged, merged, merged, List.foldl_append]
  · rw [two.upper, one.upper, List.filterMap_append, merged, merged, merged, List.foldl_append]
  · rw [two.mode mode fun chunk member => same chunk (List.mem_append_right _ member),
      one.mode mode fun chunk member => same chunk (List.mem_append_left _ member), List.any_append]
    cases first.any fun chunk => isOf context id chunk.column <;> simp

theorem columns_bounds (run : chunks.foldlM (collectColumn context group) before = .ok after)
    (id : Int) : BoundsAfter context chunks id before.collected after.collected := by
  induction chunks generalizing before with
  | nil =>
    cases foldlM_nil_eq_ok.mp run
    exact ⟨rfl, rfl, fun _ _ => rfl⟩
  | cons chunk chunks ih =>
    obtain ⟨middle, first, rest⟩ := foldlM_cons_eq_ok.mp run
    have step := collectColumn_spec first id
    have later := ih rest
    refine ⟨?_, ?_, fun mode same => ?_⟩
    · rw [later.lower, step.lower, merged_filterMap]
    · rw [later.upper, step.upper, merged_filterMap]
    · rw [later.mode mode fun other member => same other (List.mem_cons_of_mem _ member), step.modes,
        List.any_cons]
      by_cases here : isOf context id chunk.column = true
      · rw [if_pos here, same chunk List.mem_cons_self here, here]
        simp
      · rw [if_neg here, (Bool.not_eq_true _).mp here, Bool.false_or]

variable {groups : List RowGroupMetaData}

theorem groups_bounds {before after : Collected}
    (run : groups.foldlM (collectGroup context) before = .ok after) (id : Int) :
    BoundsAfter context (groups.flatMap (·.columns)) id before after := by
  induction groups generalizing before with
  | nil =>
    cases foldlM_nil_eq_ok.mp run
    exact ⟨rfl, rfl, fun _ _ => rfl⟩
  | cons group groups ih =>
    obtain ⟨middle, first, rest⟩ := foldlM_cons_eq_ok.mp run
    obtain ⟨state, columns, made⟩ := bind_eq_ok.mp first
    have here := columns_bounds columns id
    have step : BoundsAfter context group.columns id before middle := by
      cases made
      exact ⟨here.lower, here.upper, here.mode⟩
    exact step.trans (ih rest)

/-! ### The counts of a field -/

/-- The chunks of a field with one leaf are one in every row group. -/
def SingleLeaf (context : CollectContext) (columns : List ColumnDescriptor) : Prop :=
  columns.Pairwise fun a b => ∀ id, isOf context id a → isOf context id b →
    (context.schema.fields.get id).any (·.fieldType.multiLeaf)

/-- The field is counted in a row group of the columns. -/
def countsRows (context : CollectContext) (id : Int) (columns : List ColumnDescriptor) : Bool :=
  columns.any fun column => isOf context id column && (modeOf context column).recordsCounts

theorem columns_values (run : chunks.foldlM (collectColumn context group) before = .ok after)
    (id : Int) (single : SingleLeaf context (chunks.map (·.column))) :
    after.collected.valueCounts.lookup id =
      if countsRows context id (chunks.map (·.column)) ∧
          ¬ ((context.schema.fields.get id).any (·.fieldType.multiLeaf) ∧
            id ∈ before.countedLogicalValues) then
        stepCount (before.collected.valueCounts.lookup id) group.numRows.toInt
      else before.collected.valueCounts.lookup id := by
  induction chunks generalizing before with
  | nil =>
    cases foldlM_nil_eq_ok.mp run
    simp [countsRows]
  | cons chunk chunks ih =>
    obtain ⟨middle, first, rest⟩ := foldlM_cons_eq_ok.mp run
    have step := collectColumn_spec first id
    obtain ⟨apart, others⟩ := List.pairwise_cons.mp single
    have later := ih rest others
    have split : countsRows context id ((chunk :: chunks).map (·.column)) =
        (isOf context id chunk.column && (modeOf context chunk.column).recordsCounts ||
          countsRows context id (chunks.map (·.column))) := rfl
    -- the other chunks of a field with one leaf are those of other fields
    have none : isOf context id chunk.column = true →
        ¬ (context.schema.fields.get id).any (·.fieldType.multiLeaf) →
        countsRows context id (chunks.map (·.column)) = false := by
      intro here one
      rw [countsRows, List.any_eq_false]
      intro column member
      rw [Bool.and_eq_true, not_and]
      exact fun there => absurd (apart column member id here there) one
    rw [later, split, step.values]
    have counted := step.counted
    by_cases here : isOf context id chunk.column = true
    · by_cases multi : (context.schema.fields.get id).any (·.fieldType.multiLeaf)
      · by_cases counts : (modeOf context chunk.column).recordsCounts = true
        · simp [here, multi, counts, counted]
        · simp [here, multi, counts, counted]
      · simp [here, multi, none here multi]
    · simp [here, counted]

/-- The null counts that the chunks of a field state. -/
def knownNulls (context : CollectContext) (id : Int) (chunks : List ColumnChunkMetaData) :
    List (BitVec 64) :=
  chunks.filterMap fun chunk => if isOf context id chunk.column then nullsOf context chunk else none

theorem knownNulls_cons (context : CollectContext) (id : Int) (chunk : ColumnChunkMetaData)
    (chunks : List ColumnChunkMetaData) (step : Option Int → Int → Option Int)
    (before : Option Int) :
    (knownNulls context id (chunk :: chunks)).foldl (fun count leaf => step count leaf.toInt)
        before =
      (knownNulls context id chunks).foldl (fun count leaf => step count leaf.toInt)
        (if isOf context id chunk.column then stepKnown step before (nullsOf context chunk)
          else before) := by
  rw [knownNulls, List.filterMap_cons]
  split_ifs with here
  · cases nullsOf context chunk <;> rfl
  · rfl

theorem columns_nulls (run : chunks.foldlM (collectColumn context group) before = .ok after)
    (id : Int) :
    after.collected.nullValueCounts.lookup id =
      if (context.schema.fields.get id).any (·.fieldType.multiLeaf) then
        before.collected.nullValueCounts.lookup id
      else (knownNulls context id chunks).foldl (fun count leaf => stepCount count leaf.toInt)
        (before.collected.nullValueCounts.lookup id) := by
  induction chunks generalizing before with
  | nil =>
    cases foldlM_nil_eq_ok.mp run
    simp [knownNulls]
  | cons chunk chunks ih =>
    obtain ⟨middle, first, rest⟩ := foldlM_cons_eq_ok.mp run
    rw [ih rest, (collectColumn_spec first id).nulls, knownNulls_cons]
    by_cases multi : (context.schema.fields.get id).any (·.fieldType.multiLeaf)
    · simp [multi]
    · simp [multi]

theorem columns_variants (run : chunks.foldlM (collectColumn context group) before = .ok after)
    (id : Int) :
    after.variantNullCounts.lookup id =
      if (context.schema.fields.get id).any (·.fieldType = .primitive .variant) then
        (knownNulls context id chunks).foldl (fun count leaf => stepMax count leaf.toInt)
          (before.variantNullCounts.lookup id)
      else before.variantNullCounts.lookup id := by
  induction chunks generalizing before with
  | nil =>
    cases foldlM_nil_eq_ok.mp run
    simp [knownNulls]
  | cons chunk chunks ih =>
    obtain ⟨middle, first, rest⟩ := foldlM_cons_eq_ok.mp run
    rw [ih rest, (collectColumn_spec first id).variants, knownNulls_cons]
    by_cases variant : (context.schema.fields.get id).any (·.fieldType = .primitive .variant)
    · simp [variant]
    · simp [variant]

/-- Adding the counts of another map. -/
theorem lookup_foldl_addCount (counts others : HashMap Int Int) (id : Int) :
    (others.iter.foldl (fun counts entry => addCount counts entry.1 entry.2) counts).lookup id =
      match others.lookup id with
      | some count => stepCount (counts.lookup id) count
      | none => counts.lookup id := by
  have general : ∀ (entries : List (Int × Int)) (counts : HashMap Int Int),
      (entries.map (·.1)).Nodup →
      (entries.foldl (fun counts entry => addCount counts entry.1 entry.2) counts).lookup id =
        match (entries.find? fun entry => entry.1 = id).map (·.2) with
        | some count => stepCount (counts.lookup id) count
        | none => counts.lookup id := by
    intro entries
    induction entries with
    | nil => exact fun _ _ => rfl
    | cons entry entries ih =>
      intro counts distinct
      obtain ⟨absent, rest⟩ := List.nodup_cons.mp distinct
      rw [List.foldl_cons, ih _ rest, lookup_addCount]
      by_cases here : entry.1 = id
      · have missing : entries.find? (fun other => other.1 = id) = none := by
          rw [List.find?_eq_none]
          intro other member same
          exact absent (List.mem_map.mpr ⟨other, member, (of_decide_eq_true same).trans here.symm⟩)
        rw [missing, List.find?_cons, decide_eq_true here, if_pos here]
        rfl
      · rw [List.find?_cons_of_neg (by simpa using here), if_neg here]
  have distinct : (others.iter.map (·.1)).Nodup := by
    have keys := others.nodupKeys
    simpa [HashMap.iter, List.map_map, Function.comp_def, List.NodupKeys, List.keys] using keys
  rw [general _ _ distinct]
  cases bound : others.lookup id with
  | none =>
    have missing : others.iter.find? (fun entry => entry.1 = id) = none := by
      rw [List.find?_eq_none]
      rintro ⟨key, count⟩ member same
      have found := HashMap.mem_iter_iff.mp member
      have here : key = id := of_decide_eq_true same
      rw [here, bound] at found
      cases found
    rw [missing]
    rfl
  | some count =>
    have member := HashMap.mem_iter_iff.mpr bound
    cases found : others.iter.find? (fun entry => entry.1 = id) with
    | none => exact absurd (List.find?_eq_none.mp found _ member) (by simp)
    | some entry =>
      have key : entry.1 = id := by simpa using List.find?_some found
      have value := HashMap.mem_iter_iff.mp (List.mem_of_find?_eq_some found)
      rw [key, bound] at value
      rw [Option.map_some, ← Option.some.inj value]

/-! ### The counts of a file -/

/-- The null count of a field in a row group: a variant has as many nulls as the leaf with most, and
containers have no count. -/
def groupNulls (context : CollectContext) (id : Int) (group : RowGroupMetaData) : Option Int :=
  if (context.schema.fields.get id).any (fun field => field.fieldType.multiLeaf ∧
      field.fieldType ≠ .primitive .variant) then none
  else (knownNulls context id group.columns).foldl (fun count leaf => stepMax count leaf.toInt) none

/-- A field with one leaf has at most one null count in a row group. -/
theorem knownNulls_single {id : Int} (single : SingleLeaf context (chunks.map (·.column)))
    (one : ¬ (context.schema.fields.get id).any (·.fieldType.multiLeaf)) :
    knownNulls context id chunks = [] ∨ ∃ count, knownNulls context id chunks = [count] := by
  induction chunks with
  | nil => exact .inl rfl
  | cons chunk chunks ih =>
    obtain ⟨apart, others⟩ := List.pairwise_cons.mp single
    rw [knownNulls, List.filterMap_cons]
    by_cases here : isOf context id chunk.column = true
    · have rest : chunks.filterMap (fun chunk =>
          if isOf context id chunk.column then nullsOf context chunk else none) = [] := by
        rw [List.filterMap_eq_nil_iff]
        intro other member
        rw [if_neg]
        exact fun there => one (apart other.column (List.mem_map_of_mem member) id here there)
      rw [if_pos here, rest]
      cases nullsOf context chunk with
      | none => exact .inl rfl
      | some count => exact .inr ⟨count, rfl⟩
    · rw [if_neg here]
      exact ih others

theorem group_nulls {before after : Collected} (run : collectGroup context before group = .ok after)
    (id : Int) (single : SingleLeaf context (group.columns.map (·.column))) :
    after.nullValueCounts.lookup id =
      match groupNulls context id group with
      | some count => stepCount (before.nullValueCounts.lookup id) count
      | none => before.nullValueCounts.lookup id := by
  obtain ⟨state, columns, made⟩ := bind_eq_ok.mp run
  cases made
  dsimp only
  rw [lookup_foldl_addCount, columns_variants columns, columns_nulls columns]
  unfold groupNulls
  cases found : context.schema.fields.get id with
  | none =>
    have few : knownNulls context id group.columns = [] ∨
        ∃ count, knownNulls context id group.columns = [count] :=
      knownNulls_single single (by rw [found]; simp)
    rcases few with none | ⟨count, some⟩
    · simp [none]
    · simp [some, stepMax]
  | some field =>
    by_cases variant : field.fieldType = .primitive .variant
    · simp [variant, IcebergType.multiLeaf]
    · by_cases multi : field.fieldType.multiLeaf = true
      · simp [variant, multi]
      · have few : knownNulls context id group.columns = [] ∨
            ∃ count, knownNulls context id group.columns = [count] :=
          knownNulls_single single (by rw [found]; simpa using multi)
        rcases few with none | ⟨count, some⟩
        · simp [none, variant, multi]
        · simp [some, variant, multi, stepMax]

theorem groups_nulls {before after : Collected}
    (run : groups.foldlM (collectGroup context) before = .ok after) (id : Int)
    (single : ∀ group ∈ groups, SingleLeaf context (group.columns.map (·.column))) :
    after.nullValueCounts.lookup id =
      (groups.filterMap (groupNulls context id)).foldl stepCount
        (before.nullValueCounts.lookup id) := by
  induction groups generalizing before with
  | nil =>
    cases foldlM_nil_eq_ok.mp run
    rfl
  | cons group groups ih =>
    obtain ⟨middle, first, rest⟩ := foldlM_cons_eq_ok.mp run
    rw [ih rest fun other member => single other (List.mem_cons_of_mem _ member),
      group_nulls first id (single group List.mem_cons_self), List.filterMap_cons]
    cases groupNulls context id group <;> rfl

theorem group_values {before after : Collected}
    (run : collectGroup context before group = .ok after) (id : Int)
    (single : SingleLeaf context (group.columns.map (·.column))) :
    after.valueCounts.lookup id =
      if countsRows context id (group.columns.map (·.column)) then
        stepCount (before.valueCounts.lookup id) group.numRows.toInt
      else before.valueCounts.lookup id := by
  obtain ⟨state, columns, made⟩ := bind_eq_ok.mp run
  cases made
  dsimp only
  rw [columns_values columns id single]
  simp

theorem groups_values {columns : List ColumnDescriptor} {before after : Collected}
    (run : groups.foldlM (collectGroup context) before = .ok after) (id : Int)
    (aligned : ∀ group ∈ groups, group.columns.map (·.column) = columns)
    (single : SingleLeaf context columns) :
    after.valueCounts.lookup id =
      if countsRows context id columns then
        (groups.map (·.numRows.toInt)).foldl stepCount (before.valueCounts.lookup id)
      else before.valueCounts.lookup id := by
  induction groups generalizing before with
  | nil =>
    cases foldlM_nil_eq_ok.mp run
    exact (ite_self _).symm
  | cons group groups ih =>
    obtain ⟨middle, first, rest⟩ := foldlM_cons_eq_ok.mp run
    have here := aligned group List.mem_cons_self
    have step := group_values first id (here.symm ▸ single)
    rw [here] at step
    rw [ih rest fun other member => aligned other (List.mem_cons_of_mem _ member), step]
    split_ifs <;> rfl

/-- Counts are added modulo `2 ^ 64`. -/
theorem foldl_stepCount (first : Int) (rest : List Int) (fits : wrapI64 first = first) :
    (first :: rest).foldl stepCount none = some (wrapI64 (first :: rest).sum) := by
  have general : ∀ (rest : List Int) (count : Int), wrapI64 count = count →
      rest.foldl stepCount (some count) = some (wrapI64 (count + rest.sum)) := by
    intro rest
    induction rest with
    | nil =>
      intro count fits
      rw [List.foldl_nil, List.sum_nil, Int.add_zero, fits]
    | cons addend rest ih =>
      intro count _
      rw [List.foldl_cons, stepCount, ih _ (by simp [wrapI64]), List.sum_cons]
      unfold wrapI64
      rw [Int.bmod_add_bmod, Int.add_assoc]
  rw [List.foldl_cons, List.sum_cons]
  exact general rest first fits

/-- A sum of counts is what is recorded, or the recorded count is no sum. -/
theorem foldl_stepCount_eq_some {counts : List Int} (fit : ∀ count ∈ counts, wrapI64 count = count)
    {total : Int} :
    counts.foldl stepCount none = some total ↔ counts ≠ [] ∧ wrapI64 counts.sum = total := by
  cases counts with
  | nil => simp
  | cons first rest =>
    rw [foldl_stepCount first rest (fit first List.mem_cons_self), Option.some.injEq]
    simp

theorem wrapI64_toInt (count : BitVec 64) : wrapI64 count.toInt = count.toInt := by
  rw [wrapI64, ← BitVec.toInt_ofInt (n := 64)]
  rw [BitVec.ofInt_toInt]

theorem wrapI64_groupNulls {id : Int} {count : Int}
    (known : groupNulls context id group = some count) : wrapI64 count = count := by
  have general : ∀ (leaves : List (BitVec 64)) (before : Option Int),
      (∀ count, before = some count → ∃ leaf : BitVec 64, leaf.toInt = count) →
      ∀ count, leaves.foldl (fun count leaf => stepMax count leaf.toInt) before = some count →
        ∃ leaf : BitVec 64, leaf.toInt = count := by
    intro leaves
    induction leaves with
    | nil => exact fun _ leaf => leaf
    | cons leaf leaves ih =>
      intro before stated
      refine ih _ fun count step => ?_
      cases before with
      | none => exact ⟨leaf, Option.some.inj step⟩
      | some old =>
        obtain ⟨other, rfl⟩ := stated old rfl
        rcases max_choice other.toInt leaf.toInt with same | same
        · exact ⟨other, same.symm.trans (Option.some.inj step)⟩
        · exact ⟨leaf, same.symm.trans (Option.some.inj step)⟩
  unfold groupNulls at known
  split at known
  · cases known
  · obtain ⟨leaf, rfl⟩ := general _ none (fun _ absent => by cases absent) count known
    exact wrapI64_toInt leaf

end IcebergRust

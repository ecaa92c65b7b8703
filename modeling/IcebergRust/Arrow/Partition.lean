import IcebergRust.Arrow.Transform
import IcebergRust.Lib.Cover
import Mathlib.Data.List.Induction

/-!
# Partitioning a record batch

`partition_record_batch` of `iceberg-rust/src/arrow/partition.rs`: a batch is divided by the
partition values of its rows, with one mask for each combination of distinct values, or by a map
from row keys to row indices where there would be too many masks.

* `distinctValues` reads the values off the places where consecutive slots differ.
* `Split` is what the fold over the partition columns keeps of the masks.
* `partitionRecordBatch_spec`: either way the rows of the batch are divided among the groups, and
  the rows of a group have the partition values it is given under.
-/

namespace IcebergRust.Arrow

open Fallible

/-! ### Partition values -/

/-- The value of a partition for a slot, for the types a partition column may have. -/
def DataType.partitionValue : (type : DataType) → Option (type.Native → Value)
  | .int32 => some Value.int
  | .int64 => some Value.longInt
  | .timestampMicrosecond timezone =>
    some (if timezone.isSome then Value.timestampTZ else Value.timestamp)
  | .timestampNanosecond timezone =>
    some (if timezone.isSome then Value.timestampTZNano else Value.timestampNano)
  | .utf8 => some Value.string
  | _ => none

/-- `partition_value_at`. -/
def Cell.partitionValue : Cell → Except ArrowError (Option Value)
  | ⟨_, none⟩ => .ok none
  | ⟨type, some value⟩ =>
    match type.partitionValue with
    | some wrap => .ok (some (wrap value))
    | none => .error (.computeError "Datatype not supported for partitioning")

/-- The partition values of a row: each field transforms the cell of its source column. -/
def partitionTuple (kernels : Kernels) (fields : List BoundPartitionField) (row : Row) :
    Except ArrowError (List (Option Value)) :=
  fields.mapM fun field =>
    match row.lookup field.sourceName with
    | none => .error (.schemaError "Column doesn't exist")
    | some cell => do
      let cell ← transformCell kernels cell field.transform
      cell.partitionValue

/-- The transformed source column of a partition field. -/
def partitionColumn (kernels : Kernels) (batch : RecordBatch) (field : BoundPartitionField) :
    Except ArrowError ArrayRef :=
  match batch.columnByName field.sourceName with
  | none => .error (.schemaError "Column doesn't exist")
  | some array => transformArrow kernels array field.transform

/-! ### Distinct values -/

/-- `DistinctValues`: a set of the values of an array, and the kind of partition value it has. -/
structure DistinctValues (type : DataType) where
  wrap : type.Native → Value
  set : List type.Native

/-- `distinct_values_primitive` and `distinct_values_string`: the first value, and each one that
differs from the one before it. -/
def distinctOf {α : Type} [DecidableEq α] : List α → List α
  | [] => []
  | first :: rest => ((first :: rest).zip rest).foldl
      (fun set pair => if pair.1 ≠ pair.2 then set.insert pair.2 else set) [first]

/-- `distinct_values`, without the nulls. -/
def distinctValues (array : ArrayRef) : Except ArrowError (DistinctValues array.dataType) :=
  match array.dataType.partitionValue with
  | none => .error (.computeError "Datatype not supported for transform.")
  | some wrap => .ok ⟨wrap, distinctOf (array.values.filterMap id)⟩

section Distinct

variable {α : Type} [DecidableEq α]

/-- Where a value repeats the one before it, it is in the set already. -/
theorem mem_foldl_distinct (first : α) (rest set : List α) (start : first ∈ set) (x : α) :
    x ∈ ((first :: rest).zip rest).foldl
      (fun set pair => if pair.1 ≠ pair.2 then set.insert pair.2 else set) set ↔
      x ∈ set ∨ x ∈ rest := by
  induction rest generalizing first set with
  | nil => simp
  | cons next rest ih =>
    rw [List.zip_cons_cons, List.foldl_cons]
    by_cases same : first = next
    · subst same
      rw [if_neg (fun differ => differ rfl), ih first set start]
      constructor
      · rintro (old | new)
        · exact .inl old
        · exact .inr (List.mem_cons_of_mem _ new)
      · rintro (old | new)
        · exact .inl old
        · rcases List.mem_cons.mp new with rfl | new
          · exact .inl start
          · exact .inr new
    · rw [if_pos same, ih next _ (List.mem_insert_self), List.mem_insert_iff, List.mem_cons]
      tauto

theorem nodup_foldl_distinct (pairs : List (α × α)) (set : List α) (nodup : set.Nodup) :
    (pairs.foldl (fun set pair => if pair.1 ≠ pair.2 then set.insert pair.2 else set)
      set).Nodup := by
  induction pairs generalizing set with
  | nil => exact nodup
  | cons pair pairs ih =>
    rw [List.foldl_cons]
    apply ih
    split
    · exact nodup.insert
    · exact nodup

/-- The changes of a list and its first value are all of its values. -/
theorem mem_distinctOf (values : List α) (x : α) : x ∈ distinctOf values ↔ x ∈ values := by
  cases values with
  | nil => exact Iff.rfl
  | cons first rest =>
    rw [distinctOf, mem_foldl_distinct first rest [first] List.mem_cons_self, List.mem_singleton,
      List.mem_cons]

theorem nodup_distinctOf (values : List α) : (distinctOf values).Nodup := by
  cases values with
  | nil => exact List.nodup_nil
  | cons first rest => exact nodup_foldl_distinct _ _ (List.nodup_singleton _)

end Distinct

/-- A partition column with its distinct values. -/
structure PartitionColumn where
  array : ArrayRef
  distinct : DistinctValues array.dataType

namespace PartitionColumn

/-- The partition value at an index. -/
def value (column : PartitionColumn) (index : Nat) : Option Value :=
  (column.array.values.getD index none).map column.distinct.wrap

/-- The distinct values of a column, and the kind of them, come from the column. -/
def of (array : ArrayRef) : Except ArrowError PartitionColumn :=
  (distinctValues array).map (PartitionColumn.mk array)

variable {column : PartitionColumn} {array : ArrayRef}

/-- A column of a supported type has a partition value in every row. -/
theorem of_eq_ok (made : of array = .ok column) :
    column.array = array ∧
      column.distinct.set = distinctOf (column.array.values.filterMap id) ∧
      ∀ index, (column.array.cell index).partitionValue = .ok (column.value index) := by
  obtain ⟨distinct, found, rfl⟩ := map_eq_ok.mp made
  unfold distinctValues at found
  split at found
  · cases found
  · rename_i wrap supported
    obtain rfl := Except.ok.inj found
    refine ⟨rfl, rfl, fun index => ?_⟩
    unfold ArrayRef.cell value
    cases array.values.getD index none with
    | none => rfl
    | some slot => simp only [Cell.partitionValue, supported, Option.map_some]

end PartitionColumn

/-! ### One mask for each combination of values -/

/-- `BooleanArray`. -/
abbrev BooleanArray := List (Option Bool)

/-- Whether a mask selects an index. -/
def selects (mask : BooleanArray) (index : Nat) : Bool := mask.getD index none = some true

/-- The kernel `and`: null where one side is. -/
def and (first second : BooleanArray) : BooleanArray :=
  List.zipWith (fun a b => match a, b with
    | some a, some b => some (a && b)
    | _, _ => none) first second

/-- `true_count`. -/
def trueCount (mask : BooleanArray) : Nat := mask.count (some true)

/-- `filter_record_batch`. -/
def filterRecordBatch (batch : RecordBatch) (mask : BooleanArray) : RecordBatch :=
  batch.take ((List.range batch.numRows).filter (selects mask))

/-- The masks of a column: one for each distinct value, and one for the nulls if there are any. -/
def PartitionColumn.predicates (column : PartitionColumn) : List (Option Value × BooleanArray) :=
  (column.distinct.set.map fun x => (some (column.distinct.wrap x),
    column.array.values.map (·.map fun value => decide (x = value)))) ++
  if column.array.nullCount ≠ 0 then
    [(none, column.array.values.map fun value => some value.isNone)]
  else []

/-- One step of the fold over the columns: every group is divided by the masks of the column. -/
def divide (groups : List (List (Option Value) × BooleanArray)) (column : PartitionColumn) :
    List (List (Option Value) × BooleanArray) :=
  ((groups ×ˢ column.predicates).map fun pair =>
    (pair.1.1 ++ [pair.2.1], and pair.1.2 pair.2.2)).filter fun group => trueCount group.2 ≠ 0

/-- The groups of the fold over the columns. -/
def bitmapGroups (numRows : Nat) (columns : List PartitionColumn) :
    List (List (Option Value) × BooleanArray) :=
  columns.foldl divide [([], List.replicate numRows (some true))]

theorem selects_and {first second : BooleanArray} (same : first.length = second.length)
    (index : Nat) : selects (and first second) index = (selects first index && selects second index)
    := by
  induction first generalizing second index with
  | nil =>
    cases List.eq_nil_of_length_eq_zero same.symm
    rfl
  | cons a first ih =>
    cases second with
    | nil => cases same
    | cons b second =>
      cases index with
      | zero => cases a <;> cases b <;> simp [selects, and]
      | succ index => exact ih (Nat.succ.inj same) index

theorem length_and {first second : BooleanArray} (same : first.length = second.length) :
    (and first second).length = first.length := by
  rw [and, List.length_zipWith, same, Nat.min_self]

/-- A mask that selects nothing is counted as one. -/
theorem trueCount_eq_zero {mask : BooleanArray} (none_ : trueCount mask = 0) (index : Nat) :
    selects mask index = false := by
  apply decide_eq_false
  intro here
  apply List.count_eq_zero.mp none_
  rw [List.getD_eq_getElem?_getD] at here
  cases found : mask[index]? with
  | none =>
    rw [found] at here
    cases here
  | some slot =>
    rw [found, Option.getD_some] at here
    exact here ▸ List.mem_of_getElem? found

/-- A mask computed slot by slot. -/
theorem selects_map {α : Type} (values : List (Option α)) (f : Option α → Option Bool)
    {index : Nat} (within : index < values.length) :
    selects (values.map f) index = decide (f (values.getD index none) = some true) := by
  rw [selects, List.getD_eq_getElem?_getD, List.getElem?_map, List.getD_eq_getElem?_getD,
    List.getElem?_eq_getElem within]
  rfl

namespace PartitionColumn

/-- The set of a column lists its values without repetition. -/
structure Listed (column : PartitionColumn) : Prop where
  nodup : column.distinct.set.Nodup
  complete : ∀ {index value}, column.array.values.getD index none = some value →
    value ∈ column.distinct.set

theorem of_listed {array : ArrayRef} {column : PartitionColumn} (made : of array = .ok column) :
    column.Listed := by
  obtain ⟨-, set, -⟩ := of_eq_ok made
  constructor
  · rw [set]
    exact nodup_distinctOf _
  · intro index value here
    rw [set, mem_distinctOf]
    refine List.mem_filterMap.mpr ⟨some value, ?_, rfl⟩
    rw [List.getD_eq_getElem?_getD] at here
    cases found : column.array.values[index]? with
    | none =>
      rw [found] at here
      cases here
    | some slot =>
      rw [found, Option.getD_some] at here
      exact here ▸ List.mem_of_getElem? found

variable {column : PartitionColumn} {numRows : Nat}

variable {predicate : Option Value × BooleanArray}

/-- The masks of a column are as long as it is. -/
theorem length_predicates (member : predicate ∈ column.predicates) :
    predicate.2.length = column.array.values.length := by
  rcases List.mem_append.mp member with valued | null
  · obtain ⟨x, -, rfl⟩ := List.mem_map.mp valued
    exact List.length_map _
  · split at null
    · cases List.mem_singleton.mp null
      exact List.length_map _
    · cases null

/-- The mask of a value selects the rows that have it, and the mask of the nulls the others. -/
theorem selects_predicate (member : predicate ∈ column.predicates) {index : Nat}
    (within : index < column.array.values.length) (here : selects predicate.2 index = true) :
    predicate.1 = column.value index := by
  rcases List.mem_append.mp member with valued | null
  · obtain ⟨x, -, rfl⟩ := List.mem_map.mp valued
    rw [selects_map _ _ within] at here
    obtain ⟨value, found, same⟩ := Option.map_eq_some_iff.mp (of_decide_eq_true here)
    rw [PartitionColumn.value, found, Option.map_some, of_decide_eq_true same]
  · split at null
    · cases List.mem_singleton.mp null
      rw [selects_map _ _ within] at here
      have absent := Option.some.inj (of_decide_eq_true here)
      rw [PartitionColumn.value, Option.isNone_iff_eq_none.mp absent, Option.map_none]
    · cases null

/-- The masks of the values that select a row without a null: the one of its value. -/
theorem countP_valued (listed : column.Listed) {index : Nat}
    (within : index < column.array.values.length) {value : column.array.dataType.Native}
    (found : column.array.values.getD index none = some value) :
    (column.distinct.set.map fun x => (some (column.distinct.wrap x),
      column.array.values.map (·.map fun value => decide (x = value)))).countP
      (fun predicate => selects predicate.2 index) = 1 := by
  rw [List.countP_map, ← List.count_eq_one_of_mem listed.nodup (listed.complete found),
    List.count_eq_countP]
  apply List.countP_congr
  intro x _
  rw [Function.comp_apply, selects_map _ _ within, found]
  simp

/-- Every row is selected by one of the masks. -/
theorem once_predicates (listed : column.Listed) :
    Cover.Once (fun predicate : Option Value × BooleanArray => selects predicate.2)
      column.predicates column.array.values.length := by
  intro index within
  rw [predicates, List.countP_append]
  cases found : column.array.values.getD index none with
  | some value =>
    rw [countP_valued listed within found, Nat.add_eq_left]
    apply List.countP_eq_zero.mpr
    intro predicate null
    split at null
    · cases List.mem_singleton.mp null
      refine Bool.not_eq_true _ ▸ (selects_map _ _ within).trans ?_
      rw [found]
      rfl
    · cases null
  | none =>
    have nulls : column.array.nullCount ≠ 0 := by
      intro empty
      apply List.count_eq_zero.mp empty
      rw [List.getD_eq_getElem?_getD, List.getElem?_eq_getElem within, Option.getD_some] at found
      exact found ▸ List.getElem_mem within
    have selected : selects (column.array.values.map fun value => some value.isNone) index =
        true := by
      rw [selects_map _ _ within, found]
      rfl
    rw [if_pos nulls, List.countP_singleton, if_pos selected, Nat.add_eq_right]
    apply List.countP_eq_zero.mpr
    intro predicate valued
    obtain ⟨x, -, rfl⟩ := List.mem_map.mp valued
    refine Bool.not_eq_true _ ▸ (selects_map _ _ within).trans ?_
    rw [found]
    rfl

end PartitionColumn

/-- What the groups are after some of the columns: their masks split the rows, and the rows of a
group have its values in these columns. -/
structure Split (numRows : Nat) (columns : List PartitionColumn)
    (groups : List (List (Option Value) × BooleanArray)) : Prop where
  once : Cover.Once (fun group : List (Option Value) × BooleanArray => selects group.2) groups
    numRows
  valued : ∀ group ∈ groups, ∀ index < numRows, selects group.2 index = true →
    group.1 = columns.map (·.value index)
  length : ∀ group ∈ groups, group.2.length = numRows

variable {numRows : Nat} {columns : List PartitionColumn}
  {groups : List (List (Option Value) × BooleanArray)}

/-- At first all rows are in one group. -/
theorem split_nil (numRows : Nat) :
    Split numRows [] [([], List.replicate numRows (some true))] where
  once := by
    intro index within
    rw [List.countP_singleton, if_pos]
    simp [selects, within]
  valued := by
    intro group member index _ _
    cases List.mem_singleton.mp member
    rfl
  length := by
    intro group member
    cases List.mem_singleton.mp member
    exact List.length_replicate

/-- A column divides the groups further. -/
theorem Split.divide (split : Split numRows columns groups) {column : PartitionColumn}
    (listed : column.Listed) (rows : column.array.values.length = numRows) :
    Split numRows (columns ++ [column]) (divide groups column) := by
  have same : ∀ pair ∈ groups ×ˢ column.predicates, pair.1.2.length = pair.2.2.length := by
    intro pair member
    obtain ⟨left, right⟩ := List.mem_product.mp member
    rw [split.length _ left, PartitionColumn.length_predicates right, rows]
  constructor
  · refine Cover.Once.filter ?_ _ fun group _ empty index _ => ?_
    · intro index within
      rw [List.countP_map,
        ← split.once.product (rows ▸ PartitionColumn.once_predicates listed) index within]
      apply List.countP_congr
      intro pair member
      exact iff_of_eq (congrArg (· = true) (selects_and (same pair member) index))
    · exact trueCount_eq_zero (by simpa using empty) index
  · intro group member index within here
    obtain ⟨pair, inside, rfl⟩ := List.mem_map.mp (List.mem_filter.mp member).1
    obtain ⟨left, right⟩ := List.mem_product.mp inside
    rw [selects_and (same pair inside), Bool.and_eq_true] at here
    rw [split.valued _ left index within here.1, List.map_append, List.map_singleton,
      PartitionColumn.selects_predicate right (rows ▸ within) here.2]
  · intro group member
    obtain ⟨pair, inside, rfl⟩ := List.mem_map.mp (List.mem_filter.mp member).1
    rw [length_and (same pair inside), split.length _ (List.mem_product.mp inside).1]

/-- The fold divides the rows by their values in all columns. -/
theorem split_bitmapGroups (ready : ∀ column ∈ columns,
    column.Listed ∧ column.array.values.length = numRows) :
    Split numRows columns (bitmapGroups numRows columns) := by
  induction columns using List.reverseRecOn with
  | nil => exact split_nil numRows
  | append_singleton columns column ih =>
    rw [bitmapGroups, List.foldl_concat]
    have last := ready column (List.mem_append_right _ List.mem_cons_self)
    exact (ih fun column member => ready column (List.mem_append_left _ member)).divide last.1
      last.2

/-! ### A map from row keys to row indices -/

/-- The key of a row: its cells in the partition columns. -/
def rowKey (columns : List PartitionColumn) (index : Nat) : List Cell :=
  columns.map (·.array.cell index)

/-- The map of `partition_record_batch_indexed`: the first row of a key and its rows. -/
abbrev RowGroups := HashMap (List Cell) (Nat × List Nat)

/-- A row is pushed to the group of its key. -/
def pushRow (columns : List PartitionColumn) (groups : RowGroups) (index : Nat) :
    Except ArrowError RowGroups :=
  if 2 ^ 32 ≤ index then
    .error (.computeError "Record batch exceeds u32 row-index range")
  else
    let key := rowKey columns index
    let group := (groups.lookup key).getD (index, [])
    .ok (groups.insert key (group.1, group.2 ++ [index]))

/-- `partition_record_batch_indexed`. -/
def partitionRecordBatchIndexed (batch : RecordBatch) (columns : List PartitionColumn) :
    Except ArrowError (List (Except ArrowError (List (Option Value) × RecordBatch))) := do
  let groups ← (List.range batch.numRows).foldlM (pushRow columns) ∅
  .ok (groups.values.map fun group => do
    let values ← columns.mapM fun column => (column.array.cell group.1).partitionValue
    .ok (values, batch.take group.2))

/-- The rows that have a key, and the first of them. -/
def rowsOf (columns : List PartitionColumn) (count : Nat) (key : List Cell) :
    Option (Nat × List Nat) :=
  match (List.range count).filter fun index => rowKey columns index = key with
  | [] => none
  | first :: rest => some (first, first :: rest)

/-- A row joins the rows of its key, or is the first of them. -/
theorem rowsOf_succ (columns : List PartitionColumn) (count : Nat) (key : List Cell) :
    rowsOf columns (count + 1) key = if rowKey columns count = key then
      let group := (rowsOf columns count key).getD (count, [])
      some (group.1, group.2 ++ [count])
    else rowsOf columns count key := by
  unfold rowsOf
  rw [List.range_succ, List.filter_append]
  by_cases here : rowKey columns count = key
  · have last : [count].filter (fun index => rowKey columns index = key) = [count] := by
      simp [here]
    rw [if_pos here, last]
    cases (List.range count).filter fun index => rowKey columns index = key <;> rfl
  · have last : [count].filter (fun index => rowKey columns index = key) = [] := by
      simp [here]
    rw [if_neg here, last, List.append_nil]

/-- After some rows a key has the group of those that have it. -/
theorem lookup_pushRows {columns : List PartitionColumn} {count : Nat} {groups : RowGroups}
    (run : (List.range count).foldlM (pushRow columns) ∅ = .ok groups) (key : List Cell) :
    groups.lookup key = rowsOf columns count key := by
  induction count generalizing groups key with
  | zero =>
    obtain rfl := foldlM_nil_eq_ok.mp run
    rfl
  | succ count ih =>
    rw [List.range_succ, List.foldlM_append, bind_eq_ok] at run
    obtain ⟨before, earlier, last⟩ := run
    obtain ⟨after, pushed, done⟩ := foldlM_cons_eq_ok.mp last
    obtain rfl := foldlM_nil_eq_ok.mp done
    obtain ⟨-, made⟩ := guard_eq_ok.mp pushed
    obtain rfl := Except.ok.inj made
    rw [rowsOf_succ]
    by_cases here : rowKey columns count = key
    · rw [if_pos here, here, AList.lookup_insert, ih earlier]
    · rw [if_neg here, AList.lookup_insert_ne (Ne.symm here), ih earlier]

/-- A group of the map holds the rows of one key. -/
theorem group_of_lookup {columns : List PartitionColumn} {count : Nat} {key : List Cell}
    {group : Nat × List Nat} (found : rowsOf columns count key = some group) :
    group.2 = (List.range count).filter (fun index => rowKey columns index = key) ∧
      group.1 < count ∧ rowKey columns group.1 = key := by
  unfold rowsOf at found
  split at found
  · cases found
  · rename_i first rest rows
    obtain rfl := Option.some.inj found
    have member : first ∈ (List.range count).filter fun index => rowKey columns index = key := by
      rw [rows]
      exact List.mem_cons_self
    obtain ⟨inside, same⟩ := List.mem_filter.mp member
    exact ⟨rows.symm, List.mem_range.mp inside, of_decide_eq_true same⟩

/-- Every row has the key of one group of the map. -/
theorem once_keys {columns : List PartitionColumn} {count : Nat} {groups : RowGroups}
    (looked : ∀ key, groups.lookup key = rowsOf columns count key) :
    Cover.Once (fun entry : List Cell × Nat × List Nat => fun index =>
      decide (rowKey columns index = entry.1)) groups.iter count := by
  intro index within
  have present : rowKey columns index ∈ groups := by
    apply AList.lookup_isSome.mp
    rw [looked]
    have member : index ∈ (List.range count).filter
        fun other => rowKey columns other = rowKey columns index :=
      List.mem_filter.mpr ⟨List.mem_range.mpr within, decide_eq_true rfl⟩
    unfold rowsOf
    split
    · rename_i empty
      rw [empty] at member
      cases member
    · rfl
  have once : (groups.entries.map (·.1)).count (rowKey columns index) = 1 :=
    List.count_eq_one_of_mem groups.nodupKeys present
  rw [HashMap.iter, List.countP_map, ← once, List.count_eq_countP, List.countP_map]
  apply List.countP_congr
  intro entry _
  constructor
  · exact fun same => beq_iff_eq.mpr (of_decide_eq_true same).symm
  · exact fun same => decide_eq_true (beq_iff_eq.mp same).symm

/-! ### The whole -/

/-- `usize::saturating_mul`. -/
def saturatingMul (a b : Nat) : Nat := min (a * b) (2 ^ 64 - 1)

/-- How many combinations of distinct values there are. -/
def candidateGroups (columns : List PartitionColumn) : Nat :=
  columns.foldl (fun product column => saturatingMul product
    (column.distinct.set.length + if 0 < column.array.nullCount then 1 else 0)) 1

/-- `partition_record_batch`. -/
def partitionRecordBatch (kernels : Kernels) (batch : RecordBatch)
    (fields : List BoundPartitionField) :
    Except ArrowError (List (Except ArrowError (List (Option Value) × RecordBatch))) := do
  let arrays ← fields.mapM (partitionColumn kernels batch)
  let columns ← arrays.mapM PartitionColumn.of
  if 16 < candidateGroups columns ∧
      1000000 < saturatingMul (candidateGroups columns) batch.numRows then
    partitionRecordBatchIndexed batch columns
  else
    .ok ((bitmapGroups batch.numRows columns).map fun group =>
      .ok (group.1, filterRecordBatch batch group.2))

/-- The rows of a batch are divided among groups by their partition values. -/
structure Partitioned (kernels : Kernels) (fields : List BoundPartitionField) (batch : RecordBatch)
    (groups : List (List (Option Value) × RecordBatch)) : Prop where
  conserved : (groups.flatMap (·.2.rows)).Perm batch.rows
  owned : ∀ group ∈ groups, ∀ row ∈ group.2.rows, partitionTuple kernels fields row = .ok group.1

/-- Parts that cover every row once make a partition, when the rows of a part have its values. -/
theorem Partitioned.of_once {kernels : Kernels} {fields : List BoundPartitionField}
    {batch : RecordBatch} {ι : Type} {parts : List ι} {holds : ι → Nat → Bool}
    (once : Cover.Once holds parts batch.numRows) (values : ι → List (Option Value))
    (valued : ∀ part ∈ parts, ∀ index < batch.numRows, holds part index = true →
      partitionTuple kernels fields (batch.row index) = .ok (values part)) :
    Partitioned kernels fields batch (parts.map fun part =>
      (values part, batch.take ((List.range batch.numRows).filter (holds part)))) := by
  constructor
  · have rows : ∀ part, (batch.take ((List.range batch.numRows).filter (holds part))).rows =
        ((List.range batch.numRows).filter (holds part)).map batch.row :=
      fun part => batch.rows_take _
    rw [List.flatMap_map]
    simp only [rows]
    rw [← List.map_flatMap]
    exact once.perm.map batch.row
  · rintro group member row inside
    obtain ⟨part, here, rfl⟩ := List.mem_map.mp member
    rw [batch.rows_take] at inside
    obtain ⟨index, selected, rfl⟩ := List.mem_map.mp inside
    obtain ⟨within, held⟩ := List.mem_filter.mp selected
    exact valued part here index (List.mem_range.mp within) held

section Spec

variable {kernels : Kernels} {batch : RecordBatch} {fields : List BoundPartitionField}
  {arrays : List ArrayRef} {columns : List PartitionColumn}

/-- The transformed column of a field has in every row what the field makes of the row. -/
theorem partitionColumn_spec {field : BoundPartitionField} {array : ArrayRef}
    (made : partitionColumn kernels batch field = .ok array) :
    array.values.length = batch.numRows ∧ ∀ index < batch.numRows, ∃ source,
      (batch.row index).lookup field.sourceName = some source ∧
      transformCell kernels source field.transform = .ok (array.cell index) := by
  unfold partitionColumn at made
  split at made
  · cases made
  · rename_i source found
    obtain ⟨length, cells⟩ := transformArrow_spec made
    have rows := RecordBatch.length_column found
    refine ⟨length.trans rows, fun index within => ⟨source.cell index, ?_, ?_⟩⟩
    · rw [RecordBatch.lookup_row, found]
      rfl
    · exact cells index (rows.symm ▸ within)

/-- The columns of the fields are ready to be divided by. -/
theorem columns_ready (arrays_ : fields.mapM (partitionColumn kernels batch) = .ok arrays)
    (columns_ : arrays.mapM PartitionColumn.of = .ok columns) :
    ∀ column ∈ columns, column.Listed ∧ column.array.values.length = batch.numRows := by
  intro column member
  obtain ⟨array, from_, made⟩ := exists_of_mem_forall₂ (mapM_eq_ok.mp columns_) member
  obtain ⟨field, -, transformed⟩ := exists_of_mem_forall₂ (mapM_eq_ok.mp arrays_) from_
  obtain ⟨same, -, -⟩ := PartitionColumn.of_eq_ok made
  refine ⟨PartitionColumn.of_listed made, ?_⟩
  rw [same]
  exact (partitionColumn_spec transformed).1

/-- The value of a column at a row comes from its cell there. -/
theorem columns_valued (columns_ : arrays.mapM PartitionColumn.of = .ok columns) :
    ∀ column ∈ columns, ∀ index,
      (column.array.cell index).partitionValue = .ok (column.value index) := by
  intro column member
  obtain ⟨array, -, made⟩ := exists_of_mem_forall₂ (mapM_eq_ok.mp columns_) member
  exact (PartitionColumn.of_eq_ok made).2.2

/-- Rows of one key have the same partition values. -/
theorem values_of_rowKey (columns_ : arrays.mapM PartitionColumn.of = .ok columns)
    {index other : Nat} (same : rowKey columns index = rowKey columns other) :
    columns.map (·.value index) = columns.map (·.value other) := by
  apply List.map_congr_left
  intro column member
  have cell : column.array.cell index = column.array.cell other :=
    List.map_inj_left.mp same column member
  have valued := columns_valued columns_ column member
  apply Except.ok.inj
  rw [← valued index, ← valued other, cell]

/-- The values of the columns at a row are its partition values. -/
theorem partitionTuple_row (arrays_ : fields.mapM (partitionColumn kernels batch) = .ok arrays)
    (columns_ : arrays.mapM PartitionColumn.of = .ok columns) {index : Nat}
    (within : index < batch.numRows) :
    partitionTuple kernels fields (batch.row index) = .ok (columns.map (·.value index)) := by
  apply mapM_eq_ok.mpr
  have transformed := mapM_eq_ok.mp arrays_
  clear arrays_
  induction transformed generalizing columns with
  | nil =>
    obtain rfl := Except.ok.inj columns_
    exact .nil
  | cons made _ ih =>
    rw [List.mapM_cons, bind_eq_ok] at columns_
    obtain ⟨column, first, columns_⟩ := columns_
    obtain ⟨columns, later, columns_⟩ := bind_eq_ok.mp columns_
    obtain rfl := Except.ok.inj columns_
    refine .cons ?_ (ih later)
    obtain ⟨-, cells⟩ := partitionColumn_spec made
    obtain ⟨source, named, cell⟩ := cells index within
    obtain ⟨same, -, valued⟩ := PartitionColumn.of_eq_ok first
    simp only [named, cell, ok_bind, ← same, valued]

/-- A group of the map holds the rows of its key, of which it knows the first. -/
theorem group_held {groups : RowGroups}
    (looked : ∀ key, groups.lookup key = rowsOf columns batch.numRows key)
    {entry : List Cell × Nat × List Nat} (member : entry ∈ groups.iter) :
    entry.2.2 = (List.range batch.numRows).filter (fun index => rowKey columns index = entry.1) ∧
      entry.2.1 < batch.numRows ∧ rowKey columns entry.2.1 = entry.1 :=
  group_of_lookup ((looked _).symm.trans (HashMap.mem_iter_iff.mp member))

/-- The partition values of a key are those of each of its rows. -/
theorem group_valued (arrays_ : fields.mapM (partitionColumn kernels batch) = .ok arrays)
    (columns_ : arrays.mapM PartitionColumn.of = .ok columns) {groups : RowGroups}
    (looked : ∀ key, groups.lookup key = rowsOf columns batch.numRows key)
    {entry : List Cell × Nat × List Nat} (member : entry ∈ groups.iter) {index : Nat}
    (within : index < batch.numRows) (here : decide (rowKey columns index = entry.1) = true) :
    partitionTuple kernels fields (batch.row index) =
      .ok (columns.map (·.value entry.2.1)) := by
  obtain ⟨-, -, key⟩ := group_held looked member
  rw [partitionTuple_row arrays_ columns_ within]
  exact congrArg _ (values_of_rowKey columns_ ((of_decide_eq_true here).trans key.symm))

variable {results : List (Except ArrowError (List (Option Value) × RecordBatch))}

/-- The results are those of the keys of the map, and none of them fails. -/
theorem partitionRecordBatchIndexed_eq_ok (columns_ : arrays.mapM PartitionColumn.of = .ok columns)
    (run : partitionRecordBatchIndexed batch columns = .ok results) :
    ∃ groups : RowGroups, (∀ key, groups.lookup key = rowsOf columns batch.numRows key) ∧
      results = (groups.iter.map fun entry => (columns.map (·.value entry.2.1),
        batch.take ((List.range batch.numRows).filter
          fun index => decide (rowKey columns index = entry.1)))).map .ok := by
  obtain ⟨groups, collected, made⟩ := bind_eq_ok.mp run
  obtain rfl := Except.ok.inj made
  have looked := lookup_pushRows collected
  refine ⟨groups, looked, ?_⟩
  rw [HashMap.values, HashMap.iter, List.map_map, List.map_map, List.map_map]
  apply List.map_congr_left
  intro entry inside
  obtain ⟨rows, -, -⟩ := group_held looked (List.mem_map_of_mem inside)
  have values : (columns.mapM fun column => (column.array.cell entry.2.1).partitionValue) =
      .ok (columns.map (·.value entry.2.1)) := by
    apply mapM_eq_ok.mpr
    refine List.forall₂_map_right_iff.mpr (List.forall₂_same.mpr ?_)
    exact fun column member => columns_valued columns_ column member _
  rw [Function.comp_apply, values, ok_bind, rows]
  rfl

/-- The groups of the map are divided by the partition values. -/
theorem partitionRecordBatchIndexed_spec
    (arrays_ : fields.mapM (partitionColumn kernels batch) = .ok arrays)
    (columns_ : arrays.mapM PartitionColumn.of = .ok columns)
    (run : partitionRecordBatchIndexed batch columns = .ok results) :
    ∃ groups, results = groups.map .ok ∧ Partitioned kernels fields batch groups := by
  obtain ⟨groups, looked, rfl⟩ := partitionRecordBatchIndexed_eq_ok columns_ run
  refine ⟨_, rfl, Partitioned.of_once (once_keys looked)
    (fun entry => columns.map (·.value entry.2.1)) ?_⟩
  intro entry member index within here
  exact group_valued arrays_ columns_ looked member within here

/-- Every row of a batch is in one of its groups, under the partition values it has. -/
theorem partitionRecordBatch_spec (run : partitionRecordBatch kernels batch fields = .ok results) :
    ∃ groups, results = groups.map .ok ∧ Partitioned kernels fields batch groups := by
  obtain ⟨arrays, arrays_, run⟩ := bind_eq_ok.mp run
  obtain ⟨columns, columns_, run⟩ := bind_eq_ok.mp run
  split at run
  · exact partitionRecordBatchIndexed_spec arrays_ columns_ run
  · obtain rfl := Except.ok.inj run
    have split := split_bitmapGroups (columns_ready arrays_ columns_)
    refine ⟨_, (List.map_map).symm, Partitioned.of_once split.once (·.1) ?_⟩
    intro group member index within here
    rw [partitionTuple_row arrays_ columns_ within, split.valued _ member index within here]

end Spec

end IcebergRust.Arrow

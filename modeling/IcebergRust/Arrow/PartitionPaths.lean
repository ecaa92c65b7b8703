import IcebergRust.Arrow.Partition
import IcebergRust.Arrow.Agreement

/-!
# Two ways to partition a record batch

The masks and the map of row keys of `partition_record_batch` lead to the same groups.

* `Exact` says which groups a partition has: one for each tuple of partition values that occurs,
  with its rows in the order of the batch.  `Exact.perm` is that there is one such partition only,
  up to the order of the groups.
* `exact_bitmap` and `exact_indexed` are the two ways.
-/

namespace IcebergRust.Arrow

open Fallible

/-! ### Exact partitions -/

/-- The groups of a batch: the tuples of its rows, with the rows of each in their order. -/
structure Exact (kernels : Kernels) (fields : List BoundPartitionField) (batch : RecordBatch)
    (groups : List (List (Option Value) × RecordBatch)) : Prop where
  /-- No two groups have the same tuple. -/
  distinct : (groups.map (·.1)).Nodup
  /-- A group has the rows of its tuple, in their relative order. -/
  rows : ∀ group ∈ groups, ∃ indices, group.2 = batch.take indices ∧
    indices.Pairwise (· < ·) ∧ ∀ index, index ∈ indices ↔ index < batch.numRows ∧
      partitionTuple kernels fields (batch.row index) = .ok group.1
  /-- Every row has a group. -/
  covered : ∀ index < batch.numRows, ∃ group ∈ groups,
    partitionTuple kernels fields (batch.row index) = .ok group.1
  /-- Without partition fields all rows are one group, which may be empty. -/
  occupied : fields ≠ [] → ∀ group ∈ groups, ∃ index < batch.numRows,
    partitionTuple kernels fields (batch.row index) = .ok group.1

variable {kernels : Kernels} {fields : List BoundPartitionField} {batch : RecordBatch}
  {groups others : List (List (Option Value) × RecordBatch)}

/-- Indices in order are determined by which they are. -/
theorem eq_of_increasing {first second : List Nat} (increases : first.Pairwise (· < ·))
    (increases' : second.Pairwise (· < ·)) (same : ∀ index, index ∈ first ↔ index ∈ second) :
    first = second := by
  have perm : first.Perm second :=
    (List.perm_ext_iff_of_nodup (increases.imp Nat.ne_of_lt) (increases'.imp Nat.ne_of_lt)).mpr same
  refine perm.eq_of_pairwise ?_ increases increases'
  intro a b _ _ less less'
  exact absurd less (Nat.lt_asymm less')

/-- A group of one exact partition is a group of every other. -/
theorem Exact.mem_of_mem (exact : Exact kernels fields batch groups)
    (exact' : Exact kernels fields batch others) (some_ : fields ≠ [])
    {group : List (Option Value) × RecordBatch} (member : group ∈ groups) : group ∈ others := by
  obtain ⟨index, within, tuple⟩ := exact.occupied some_ group member
  obtain ⟨other, member', tuple'⟩ := exact'.covered index within
  have sameTuple : group.1 = other.1 := Except.ok.inj (tuple.symm.trans tuple')
  obtain ⟨indices, taken, increases, here⟩ := exact.rows group member
  obtain ⟨indices', taken', increases', here'⟩ := exact'.rows other member'
  have sameIndices : indices = indices' := by
    apply eq_of_increasing increases increases'
    intro other
    rw [here, here', sameTuple]
  have same : group = other := by
    apply Prod.ext sameTuple
    rw [taken, taken', sameIndices]
  exact same ▸ member'

/-- There is one exact partition, up to the order of its groups. -/
theorem Exact.perm (exact : Exact kernels fields batch groups)
    (exact' : Exact kernels fields batch others) (some_ : fields ≠ []) : groups.Perm others := by
  apply (List.perm_ext_iff_of_nodup exact.distinct.of_map exact'.distinct.of_map).mpr
  intro group
  exact ⟨exact.mem_of_mem exact' some_, exact'.mem_of_mem exact some_⟩

/-- Parts with distinct tuples that cover every row once, each of them some row. -/
theorem Exact.of_once {ι : Type} {parts : List ι} {holds : ι → Nat → Bool}
    {values : ι → List (Option Value)} (distinct : (parts.map values).Nodup)
    (once : Cover.Once holds parts batch.numRows)
    (valued : ∀ part ∈ parts, ∀ index < batch.numRows, holds part index = true →
      partitionTuple kernels fields (batch.row index) = .ok (values part))
    (occupied : fields ≠ [] → ∀ part ∈ parts, ∃ index < batch.numRows, holds part index = true) :
    Exact kernels fields batch (parts.map fun part =>
      (values part, batch.take ((List.range batch.numRows).filter (holds part)))) := by
  have owner {index : Nat} (within : index < batch.numRows) :
      ∃ part ∈ parts, holds part index = true := by
    have positive : 0 < parts.countP (holds · index) := by
      rw [once index within]
      exact Nat.one_pos
    exact List.countP_pos_iff.mp positive
  constructor
  · rw [List.map_map]
    exact distinct
  · intro group member
    obtain ⟨part, here, rfl⟩ := List.mem_map.mp member
    refine ⟨_, rfl, List.pairwise_lt_range.filter _, fun index => ?_⟩
    rw [List.mem_filter, List.mem_range]
    refine and_congr_right fun within => ⟨valued part here index within, fun tuple => ?_⟩
    obtain ⟨other, here', held⟩ := owner within
    have same : values other = values part :=
      Except.ok.inj ((valued other here' index within held).symm.trans tuple)
    rwa [← List.inj_on_of_nodup_map distinct here' here same]
  · intro index within
    obtain ⟨part, here, held⟩ := owner within
    exact ⟨_, List.mem_map_of_mem here, valued part here index within held⟩
  · intro some_ group member
    obtain ⟨part, here, rfl⟩ := List.mem_map.mp member
    obtain ⟨index, within, held⟩ := occupied some_ part here
    exact ⟨index, within, valued part here index within held⟩

/-! ### Partition values are distinct -/

theorem partitionValue_injective {type : DataType} {wrap : type.Native → Value}
    (supported : type.partitionValue = some wrap) : Function.Injective wrap := by
  intro a b same
  cases type with
  | timestampMicrosecond timezone =>
    cases supported
    cases timezone <;> cases same <;> rfl
  | timestampNanosecond timezone =>
    cases supported
    cases timezone <;> cases same <;> rfl
  | int32 | int64 | utf8 =>
    cases supported
    cases same
    rfl
  | _ => cases supported

namespace PartitionColumn

variable {column : PartitionColumn}

theorem wrap_injective {array : ArrayRef} (made : of array = .ok column) :
    Function.Injective column.distinct.wrap := by
  obtain ⟨distinct, found, rfl⟩ := map_eq_ok.mp made
  unfold distinctValues at found
  split at found
  · cases found
  · rename_i wrap supported
    obtain rfl := Except.ok.inj found
    exact partitionValue_injective supported

/-- A column has the same value in two rows where it has the same cell. -/
theorem value_eq_iff (injective : Function.Injective column.distinct.wrap) {index other : Nat} :
    column.value index = column.value other ↔
      column.array.cell index = column.array.cell other := by
  constructor
  · intro same
    have slot := Option.map_injective injective same
    unfold ArrayRef.cell
    rw [slot]
  · intro same
    unfold ArrayRef.cell at same
    have slot := eq_of_heq (Sigma.mk.inj same).2
    unfold value
    rw [slot]

/-- The masks of a column have distinct values. -/
theorem nodup_predicates (listed : column.Listed)
    (injective : Function.Injective column.distinct.wrap) :
    (column.predicates.map (·.1)).Nodup := by
  have valued : (column.distinct.set.map fun x => some (column.distinct.wrap x)).Nodup :=
    listed.nodup.map fun x y same => injective (Option.some.inj same)
  unfold predicates
  rw [List.map_append, List.map_map]
  refine List.nodup_append'.mpr ⟨valued, ?_, ?_⟩
  · split
    · exact List.nodup_singleton _
    · exact List.nodup_nil
  · intro value wrapped null
    obtain ⟨x, -, rfl⟩ := List.mem_map.mp wrapped
    split at null
    · cases List.mem_singleton.mp null
    · cases null

end PartitionColumn

/-! ### The masks -/

section Masks

variable {column : PartitionColumn} {columns : List PartitionColumn} {numRows : Nat}
  {masks : List (List (Option Value) × BooleanArray)}

/-- A column adds its distinct values to distinct tuples. -/
theorem nodup_divide (distinct : (masks.map (·.1)).Nodup) (listed : column.Listed)
    (injective : Function.Injective column.distinct.wrap) :
    ((divide masks column).map (·.1)).Nodup := by
  have pairs := Cover.nodup_map_product distinct (column.nodup_predicates listed injective)
  have tuples := pairs.map (f := fun pair : List (Option Value) × Option Value =>
    pair.1 ++ [pair.2]) fun first second same => by
      obtain ⟨left, right⟩ := List.append_inj' same rfl
      exact Prod.ext left (List.cons.inj right).1
  unfold divide
  refine List.Nodup.sublist (List.filter_sublist.map _) ?_
  rw [List.map_map] at tuples ⊢
  exact tuples

/-- What the columns of a partition are. -/
structure Ready (numRows : Nat) (column : PartitionColumn) : Prop where
  listed : column.Listed
  length : column.array.values.length = numRows
  injective : Function.Injective column.distinct.wrap

/-- The masks have distinct tuples. -/
theorem nodup_bitmapGroups (ready : ∀ column ∈ columns, Ready numRows column) :
    ((bitmapGroups numRows columns).map (·.1)).Nodup := by
  induction columns using List.reverseRecOn with
  | nil => exact List.nodup_singleton _
  | append_singleton columns column ih =>
    rw [bitmapGroups, List.foldl_concat]
    have last := ready column (List.mem_append_right _ List.mem_cons_self)
    exact nodup_divide (ih fun column member => ready column (List.mem_append_left _ member))
      last.listed last.injective

/-- A mask that counts some rows selects one of them. -/
theorem exists_selects {mask : BooleanArray} (some_ : trueCount mask ≠ 0) :
    ∃ index < mask.length, selects mask index = true := by
  have member := List.count_pos_iff.mp (Nat.pos_of_ne_zero some_)
  obtain ⟨index, within, here⟩ := List.getElem_of_mem member
  refine ⟨index, within, decide_eq_true ?_⟩
  rw [List.getD_eq_getElem?_getD, List.getElem?_eq_getElem within, here]
  rfl

/-- With columns, every mask selects a row. -/
theorem occupied_bitmapGroups (ready : ∀ column ∈ columns, Ready numRows column)
    (some_ : columns ≠ []) {mask : List (Option Value) × BooleanArray}
    (member : mask ∈ bitmapGroups numRows columns) :
    ∃ index < numRows, selects mask.2 index = true := by
  have split := split_bitmapGroups fun column member =>
    ⟨(ready column member).listed, (ready column member).length⟩
  rw [← split.length mask member]
  obtain ⟨before, last, rfl⟩ := (List.eq_nil_or_concat columns).resolve_left some_
  rw [bitmapGroups, List.concat_eq_append, List.foldl_concat] at member
  apply exists_selects
  simpa using (List.mem_filter.mp member).2

end Masks

/-! ### The map of row keys -/

section RowKeys

variable {columns : List PartitionColumn} {numRows : Nat}

/-- What the map reports where a row has no index of 32 bits. -/
def rowIndexError : ArrowError := .computeError "Record batch exceeds u32 row-index range"

theorem pushRows_total (few : numRows ≤ 2 ^ 32) :
    ∃ groups, (List.range numRows).foldlM (pushRow columns) ∅ = .ok groups := by
  obtain ⟨groups, run, -⟩ := foldlM_total (fun _ => True)
    (fun index member groups _ => ⟨_, if_neg (Nat.not_le.mpr
      (Nat.lt_of_lt_of_le (List.mem_range.mp member) few)), trivial⟩) trivial
  exact ⟨groups, run⟩

/-- Past the range of the indices every run of the map fails. -/
theorem pushRows_many (many : 2 ^ 32 < numRows) :
    (List.range numRows).foldlM (pushRow columns) ∅ = .error rowIndexError := by
  induction numRows, many using Nat.le_induction with
  | base =>
    obtain ⟨groups, run⟩ := @pushRows_total columns _ (Nat.le_refl (2 ^ 32))
    rw [List.range_succ, List.foldlM_append, run, ok_bind, List.foldlM_cons]
    rw [show pushRow columns groups (2 ^ 32) = .error rowIndexError from if_pos (Nat.le_refl _),
      error_bind]
  | succ numRows many ih =>
    rw [List.range_succ, List.foldlM_append, ih, error_bind]

/-- Two keys of rows are the same where the values are. -/
theorem rowKey_eq_iff (injective : ∀ column ∈ columns, Function.Injective column.distinct.wrap)
    {index other : Nat} : rowKey columns index = rowKey columns other ↔
      columns.map (·.value index) = columns.map (·.value other) := by
  unfold rowKey
  rw [List.map_inj_left, List.map_inj_left]
  exact forall₂_congr fun column member => (column.value_eq_iff (injective column member)).symm

/-- The keys of the map have distinct partition values. -/
theorem nodup_keyed (injective : ∀ column ∈ columns, Function.Injective column.distinct.wrap)
    {groups : RowGroups} (looked : ∀ key, groups.lookup key = rowsOf columns batch.numRows key) :
    (groups.iter.map fun entry => columns.map (·.value entry.2.1)).Nodup := by
  have keys : (groups.iter.map (·.1)).Nodup := by
    rw [HashMap.iter, List.map_map]
    exact groups.nodupKeys
  refine List.Nodup.map_on ?_ keys.of_map
  intro entry member other member' same
  obtain ⟨-, -, key⟩ := group_held looked member
  obtain ⟨-, -, key'⟩ := group_held looked member'
  apply List.inj_on_of_nodup_map keys member member'
  rw [← key, ← key']
  exact (rowKey_eq_iff injective).mpr same

end RowKeys

/-! ### The two ways -/

/-- The transformed columns of the fields with their distinct values, which both ways start from. -/
def partitionColumns (kernels : Kernels) (batch : RecordBatch)
    (fields : List BoundPartitionField) : Except ArrowError (List PartitionColumn) :=
  fields.mapM (partitionColumn kernels batch) >>= fun arrays => arrays.mapM PartitionColumn.of

/-- What `partition_record_batch` does with the masks. -/
def partitionRecordBatchBitmap (batch : RecordBatch) (columns : List PartitionColumn) :
    Except ArrowError (List (Except ArrowError (List (Option Value) × RecordBatch))) :=
  .ok ((bitmapGroups batch.numRows columns).map fun group =>
    .ok (group.1, filterRecordBatch batch group.2))

/-- `partition_record_batch` takes one of the two ways. -/
theorem partitionRecordBatch_eq (kernels : Kernels) (batch : RecordBatch)
    (fields : List BoundPartitionField) : partitionRecordBatch kernels batch fields =
      partitionColumns kernels batch fields >>= fun columns =>
        if 16 < candidateGroups columns ∧
            1000000 < saturatingMul (candidateGroups columns) batch.numRows then
          partitionRecordBatchIndexed batch columns
        else partitionRecordBatchBitmap batch columns := by
  unfold partitionRecordBatch partitionColumns
  cases fields.mapM (partitionColumn kernels batch) with
  | error e => rfl
  | ok arrays => rfl

section Ways

variable {columns : List PartitionColumn}

theorem ready_of_columns (made : partitionColumns kernels batch fields = .ok columns) :
    ∀ column ∈ columns, Ready batch.numRows column := by
  obtain ⟨arrays, arrays_, columns_⟩ := bind_eq_ok.mp made
  intro column member
  obtain ⟨listed, length⟩ := columns_ready arrays_ columns_ column member
  obtain ⟨array, -, own⟩ := exists_of_mem_forall₂ (mapM_eq_ok.mp columns_) member
  exact ⟨listed, length, PartitionColumn.wrap_injective own⟩

theorem columns_ne_nil (made : partitionColumns kernels batch fields = .ok columns)
    (some_ : fields ≠ []) : columns ≠ [] := by
  obtain ⟨arrays, arrays_, columns_⟩ := bind_eq_ok.mp made
  have length := (length_mapM columns_).trans (length_mapM arrays_)
  rintro rfl
  exact some_ (List.length_eq_zero_iff.mp length.symm)

/-- The masks make an exact partition. -/
theorem exact_bitmap (made : partitionColumns kernels batch fields = .ok columns) :
    Exact kernels fields batch ((bitmapGroups batch.numRows columns).map fun group =>
      (group.1, filterRecordBatch batch group.2)) := by
  have ready := ready_of_columns made
  have split := split_bitmapGroups fun column member =>
    ⟨(ready column member).listed, (ready column member).length⟩
  obtain ⟨arrays, arrays_, columns_⟩ := bind_eq_ok.mp made
  refine Exact.of_once (nodup_bitmapGroups ready) split.once ?_ ?_
  · intro group member index within here
    rw [partitionTuple_row arrays_ columns_ within, split.valued _ member index within here]
  · intro some_ group member
    exact occupied_bitmapGroups ready (columns_ne_nil made some_) member

variable {results : List (Except ArrowError (List (Option Value) × RecordBatch))}

/-- The map of row keys makes an exact partition. -/
theorem exact_indexed (made : partitionColumns kernels batch fields = .ok columns)
    (run : partitionRecordBatchIndexed batch columns = .ok results) :
    ∃ groups, results = groups.map .ok ∧ Exact kernels fields batch groups := by
  have ready := ready_of_columns made
  obtain ⟨arrays, arrays_, columns_⟩ := bind_eq_ok.mp made
  obtain ⟨groups, looked, rfl⟩ := partitionRecordBatchIndexed_eq_ok columns_ run
  refine ⟨_, rfl, Exact.of_once ?_ (once_keys looked) ?_ ?_⟩
  · exact nodup_keyed (fun column member => (ready column member).injective) looked
  · intro entry member index within here
    exact group_valued arrays_ columns_ looked member within here
  · intro _ entry member
    obtain ⟨-, within, key⟩ := group_held looked member
    exact ⟨entry.2.1, within, decide_eq_true key⟩

/-- Up to 2^32 rows the map of row keys is built. -/
theorem partitionRecordBatchIndexed_total (few : batch.numRows ≤ 2 ^ 32) :
    ∃ results, partitionRecordBatchIndexed batch columns = .ok results := by
  obtain ⟨groups, run⟩ := @pushRows_total columns _ few
  unfold partitionRecordBatchIndexed
  rw [run, ok_bind]
  exact ⟨_, rfl⟩

theorem partitionRecordBatchIndexed_many (many : 2 ^ 32 < batch.numRows) :
    partitionRecordBatchIndexed batch columns = .error rowIndexError := by
  unfold partitionRecordBatchIndexed
  rw [pushRows_many many, error_bind]

/-- Whichever way is taken, the partition is exact. -/
theorem exact_of_partition (run : partitionRecordBatch kernels batch fields = .ok results) :
    ∃ groups, results = groups.map .ok ∧ Exact kernels fields batch groups := by
  rw [partitionRecordBatch_eq] at run
  obtain ⟨columns, made, run⟩ := bind_eq_ok.mp run
  by_cases many : 16 < candidateGroups columns ∧
      1000000 < saturatingMul (candidateGroups columns) batch.numRows
  · rw [if_pos many] at run
    exact exact_indexed made run
  · rw [if_neg many] at run
    obtain rfl := Except.ok.inj run
    exact ⟨_, List.map_map.symm, exact_bitmap made⟩

/-- The rows of a group are rows of the batch, in their order. -/
theorem Exact.sublist (exact : Exact kernels fields batch groups)
    {group : List (Option Value) × RecordBatch} (member : group ∈ groups) :
    group.2.rows.Sublist batch.rows := by
  obtain ⟨indices, taken, increases, here⟩ := exact.rows group member
  have selected : indices = (List.range batch.numRows).filter (· ∈ indices) := by
    apply eq_of_increasing increases (List.pairwise_lt_range.filter _)
    intro index
    rw [List.mem_filter, List.mem_range, decide_eq_true_iff]
    exact ⟨fun inside => ⟨((here index).mp inside).1, inside⟩, And.right⟩
  have sublist : indices.Sublist (List.range batch.numRows) := by
    rw [selected]
    exact List.filter_sublist
  rw [taken, batch.rows_take]
  exact sublist.map batch.row

end Ways

/-- **Partitioning a batch is exact.**  Every partition that is returned is the exact one, and the
two ways lead to the same groups, up to their order, as long as the indices of the rows fit 32 bits;
the map of row keys reports an error beyond. -/
theorem partition_exact (kernels : Kernels) (batch : RecordBatch)
    (fields : List BoundPartitionField) :
    (∀ results, partitionRecordBatch kernels batch fields = .ok results →
      ∃ groups, results = groups.map .ok ∧ Exact kernels fields batch groups) ∧
    ∀ columns, partitionColumns kernels batch fields = .ok columns → fields ≠ [] →
      ∃ bitmap, partitionRecordBatchBitmap batch columns = .ok (bitmap.map .ok) ∧
        Exact kernels fields batch bitmap ∧
        (batch.numRows ≤ 2 ^ 32 → ∃ indexed : List (List (Option Value) × RecordBatch),
          partitionRecordBatchIndexed batch columns = .ok (indexed.map .ok) ∧
          indexed.Perm bitmap) ∧
        (2 ^ 32 < batch.numRows →
          partitionRecordBatchIndexed batch columns = .error rowIndexError) := by
  constructor
  · exact fun results run => exact_of_partition run
  · intro columns made some_
    refine ⟨_, congrArg Except.ok List.map_map.symm, exact_bitmap made, fun few => ?_,
      partitionRecordBatchIndexed_many⟩
    obtain ⟨results, run⟩ := @partitionRecordBatchIndexed_total batch columns few
    obtain ⟨indexed, rfl, exact⟩ := exact_indexed made run
    exact ⟨indexed, run, exact.perm (exact_bitmap made) some_⟩

/-! ### A batch that is too long for one of them -/

/-- A batch of one column of nulls. -/
def nullBatch (count : Nat) : RecordBatch where
  columns := [("a", ⟨.int32, List.replicate count none⟩)]
  numRows := count
  sameLength := by
    intro column member
    cases List.mem_singleton.mp member
    exact List.length_replicate

/-- The field that keeps the values of this column. -/
def nullField : BoundPartitionField where
  partitionField := ⟨1, 1000, "a", .identity⟩
  structField := ⟨1, "a", false, .primitive .int, none, none, none⟩

theorem nullBatch_columns (kernels : Kernels) (count : Nat) :
    ∃ columns, partitionColumns kernels (nullBatch count) [nullField] = .ok columns := by
  let keep : Option (BitVec 32) → Except ArrowError (Option (BitVec 32)) := .ok
  obtain ⟨values, mapped⟩ := mapM_total fun (slot : Option (BitVec 32))
    (_ : slot ∈ List.replicate count none) => (⟨slot, rfl⟩ : ∃ kept, keep slot = .ok kept)
  have transformed : partitionColumn kernels (nullBatch count) nullField =
      ((List.replicate count none).mapM keep >>= fun values => .ok ⟨.int32, values⟩) := rfl
  unfold partitionColumns
  rw [List.mapM_cons, transformed, mapped]
  exact ⟨_, rfl⟩

/-- One row more than there are indices of 32 bits. -/
theorem ways_differ : ∃ columns bitmap,
    partitionColumns (utcKernels fun _ => 0) (nullBatch (2 ^ 32 + 1)) [nullField] = .ok columns ∧
    partitionRecordBatchBitmap (nullBatch (2 ^ 32 + 1)) columns = .ok bitmap ∧
    partitionRecordBatchIndexed (nullBatch (2 ^ 32 + 1)) columns = .error rowIndexError := by
  obtain ⟨columns, made⟩ := nullBatch_columns (utcKernels fun _ => 0) (2 ^ 32 + 1)
  exact ⟨columns, _, made, rfl, partitionRecordBatchIndexed_many (Nat.lt_succ_self _)⟩

end IcebergRust.Arrow

import IcebergRust.FileFormat.Collected
import IcebergRust.Spec.Order

/-!
# When the metrics of a data file cover its row groups

Readers drop a file whose bounds exclude what they look for, so a bound has to bound every row
group, those without statistics too.

* The merge compares numbers, dates and times only: of any other type the first row group with
  statistics decides (`Merging.first`, `Merging.extreme`).
* A row group without statistics is passed over, in the bounds as in the null counts.
* `metricsCover_iff` says on which statistics the metrics of a file describe all of it.
-/

namespace IcebergRust

open Fallible Value

/-! ### Merging the bounds of one type -/

/-- The types whose bounds are compared when they are merged. -/
def IcebergType.merges : IcebergType → Bool
  | .primitive .int | .primitive .long | .primitive .float | .primitive .double
  | .primitive .date | .primitive .time
  | .primitive .timestamp | .primitive .timestamptz
  | .primitive .timestampNs | .primitive .timestamptzNs => true
  | _ => false

/-- The merge compares the numbers of two values of one of these types, and no others. -/
theorem comparesAs_eq {a b : Value} (type : a.datatype = b.datatype) :
    comparesAs a b = if a.datatype.merges then some (a.number, b.number) else none := by
  cases a <;> cases b <;> first | rfl | cases type

variable {value : Value} {id : Int}

/-- Values of these types have no order but that of their numbers. -/
theorem text_eq_nil (merges : value.datatype.merges = true) : value.text = [] := by
  cases value <;> first | rfl | cases merges

theorem atMost_of_number {a b : Value} (type : a.datatype = b.datatype)
    (merges : a.datatype.merges = true) (less : a.number ≤ b.number) : AtMost a b := by
  refine ⟨type, (lt_or_eq_of_le less).imp_right fun same => ⟨same, ?_⟩⟩
  rw [text_eq_nil merges, text_eq_nil (type ▸ merges)]
  exact List.le_refl _

/-- A merge of bounds, and how one bound covers another. -/
structure Merging (merge : Option Value → Value → Value) (covers : Value → Value → Prop) :
    Prop where
  start : ∀ new, merge none new = new
  keeps : ∀ current new : Value, current.datatype = new.datatype →
    current.datatype.merges = false → merge (some current) new = current
  picks : ∀ current new : Value, current.datatype = new.datatype →
    current.datatype.merges = true →
    merge (some current) new = current ∧ covers current new ∨
      merge (some current) new = new ∧ covers new current
  refl : ∀ value, covers value value
  trans : ∀ {a b c}, covers a b → covers b c → covers a c

theorem merging_lower : Merging mergeLower AtMost where
  start := fun _ => rfl
  keeps := by
    intro current new type merges
    rw [mergeLower, comparesAs_eq type, merges]
    rfl
  picks := by
    intro current new type merges
    rw [mergeLower, comparesAs_eq type, if_pos merges]
    dsimp only
    split_ifs with more
    · exact .inr ⟨rfl, atMost_of_number type.symm (type ▸ merges) more.le⟩
    · exact .inl ⟨rfl, atMost_of_number type merges (Int.not_lt.mp more)⟩
  refl := AtMost.refl
  trans := AtMost.trans

theorem merging_upper : Merging mergeUpper fun a b => AtMost b a where
  start := fun _ => rfl
  keeps := by
    intro current new type merges
    rw [mergeUpper, comparesAs_eq type, merges]
    rfl
  picks := by
    intro current new type merges
    rw [mergeUpper, comparesAs_eq type, if_pos merges]
    dsimp only
    split_ifs with less
    · exact .inr ⟨rfl, atMost_of_number type merges less.le⟩
    · exact .inl ⟨rfl, atMost_of_number type.symm (type ▸ merges) (Int.not_lt.mp less)⟩
  refl := AtMost.refl
  trans := fun first second => second.trans first

namespace Merging

variable {merge : Option Value → Value → Value} {covers : Value → Value → Prop}

/-- Of a type that is not compared, the first value stays. -/
theorem first (merging : Merging merge covers) {current : Value} {values : List Value}
    (uniform : ∀ value ∈ values, current.datatype = value.datatype)
    (stays : current.datatype.merges = false) : merged merge (some current) values = current := by
  induction values with
  | nil => rfl
  | cons value values ih =>
    have kept := merging.keeps current value (uniform value List.mem_cons_self) stays
    rw [merged, List.foldl_cons, kept]
    exact ih fun other member => uniform other (List.mem_cons_of_mem _ member)

/-- Of a type that is compared, the value is left that covers all. -/
theorem extreme (merging : Merging merge covers) {current : Value} {values : List Value}
    (uniform : ∀ value ∈ values, current.datatype = value.datatype)
    (merges : current.datatype.merges = true) :
    ∃ value ∈ current :: values, merged merge (some current) values = some value ∧
      ∀ other ∈ current :: values, covers value other := by
  induction values generalizing current with
  | nil =>
    refine ⟨current, List.mem_cons_self, rfl, fun other member => ?_⟩
    rw [List.mem_singleton.mp member]
    exact merging.refl current
  | cons new values ih =>
    have type := uniform new List.mem_cons_self
    have others : ∀ value ∈ values, current.datatype = value.datatype :=
      fun value member => uniform value (List.mem_cons_of_mem _ member)
    rw [merged, List.foldl_cons]
    rcases merging.picks current new type merges with ⟨picked, beyond⟩ | ⟨picked, beyond⟩
    · obtain ⟨value, member, result, all⟩ := ih others merges
      rw [picked]
      refine ⟨value, ?_, result, fun other there => ?_⟩
      · rcases List.mem_cons.mp member with rfl | later
        · exact List.mem_cons_self
        · exact List.mem_cons_of_mem _ (List.mem_cons_of_mem _ later)
      · rcases List.mem_cons.mp there with rfl | there
        · exact all _ List.mem_cons_self
        · rcases List.mem_cons.mp there with rfl | later
          · exact merging.trans (all _ List.mem_cons_self) beyond
          · exact all other (List.mem_cons_of_mem _ later)
    · obtain ⟨value, member, result, all⟩ :=
        ih (fun value member => type.symm.trans (others value member)) (type ▸ merges)
      rw [picked]
      refine ⟨value, List.mem_cons_of_mem _ member, result, fun other there => ?_⟩
      rcases List.mem_cons.mp there with rfl | there
      · exact merging.trans (all _ List.mem_cons_self) beyond
      · exact all other there

end Merging

/-! ### The values of a column -/

/-- The type of the values that bytes of a type decode to. -/
def IcebergType.stored : IcebergType → IcebergType
  | .primitive (.decimal _ scale) => .primitive (.decimal 38 scale)
  | type => type

theorem datatype_tryFromBytes {parseUuid : String → Except Error (BitVec 128)} {bytes : List UInt8}
    {type : IcebergType} {hint : Option PhysicalTypeHint}
    (run : Value.tryFromBytesWithHint parseUuid bytes type hint = .ok value) :
    value.datatype = type.stored := by
  unfold Value.tryFromBytesWithHint at run
  cases type with
  | primitive primitive =>
    cases primitive with
    | uuid =>
      dsimp only at run
      split at run
      · obtain ⟨text, -, run⟩ := bind_eq_ok.mp run
        obtain ⟨uuid, -, rfl⟩ := map_eq_ok.mp run
        rfl
      · obtain ⟨uuid, -, rfl⟩ := map_eq_ok.mp run
        rfl
    | decimal precision scale =>
      dsimp only at run
      split at run
      · obtain ⟨mantissa, -, run⟩ := bind_eq_ok.mp run
        obtain ⟨decimal, made, rfl⟩ := map_eq_ok.mp run
        unfold decimalFromI128WithScale at made
        split at made
        · cases made
          rfl
        · cases made
      · cases run
    | boolean | fixed | binary =>
      cases run
      rfl
    | int | long | float | double | date | time | timestamp | timestamptz | timestampNs
      | timestamptzNs | string =>
      obtain ⟨decoded, -, rfl⟩ := map_eq_ok.mp run
      rfl
    | _ => cases run
  | _ => cases run

variable {context : CollectContext} {pick : ColumnStatistics → Option (List UInt8)}
  {file : ParquetMetaData}

/-- The bounds of a field have one type. -/
theorem datatype_chunkBound {chunk : ColumnChunkMetaData}
    (bound : chunkBound context pick id chunk = some value) :
    ((context.schema.fields.get id).map fun field => field.fieldType.stored) =
        some value.datatype ∧
      (context.schema.fields.get id).any (·.fieldType.multiLeaf) = false := by
  unfold chunkBound at bound
  split at bound
  · rename_i here
    unfold boundOf at bound
    cases field : fieldOf context.schema chunk.column with
    | none =>
      rw [field] at bound
      cases bound
    | some found =>
      obtain ⟨key, type⟩ := found
      obtain rfl : key = id := by simpa [isOf, field] using here
      obtain ⟨found, present, rfl⟩ := Option.map_eq_some_iff.mp (fieldOf_type field)
      rw [field] at bound
      cases bytes : chunk.statistics.bind pick with
      | none =>
        rw [bytes] at bound
        cases bound
      | some bytes' =>
        rw [bytes] at bound
        dsimp only at bound
        split at bound
        · rename_i bounded
          rw [present, Option.map_some, Option.any_some]
          refine ⟨congrArg some ?_, ?_⟩
          · cases decoded : Value.tryFromBytesWithHint context.libraries.parseUuid bytes'
                found.fieldType chunk.column.hint with
            | error error =>
              rw [decoded] at bound
              cases bound
            | ok decodes =>
              rw [decoded] at bound
              cases bound
              exact (datatype_tryFromBytes decoded).symm
          · exact Bool.not_eq_true' _ ▸ (Bool.and_eq_true_iff.mp bounded).2
        · cases bound
  · cases bound

/-- What a bound is cut to. -/
def cutLower (mode : Option MetricsMode) (bound : Value) : Option Value :=
  match mode with
  | some (.truncate length) => some (truncateLowerBound bound length)
  | _ => some bound

/-- What a bound is raised to; nothing where it is dropped. -/
def cutUpper (mode : Option MetricsMode) (bound : Value) : Option Value :=
  match mode with
  | some (.truncate length) => truncateUpperBound bound length
  | _ => some bound

theorem lookup_truncateLowerBounds (modes : HashMap Int MetricsMode) (bounds : HashMap Int Value)
    (id : Int) : (truncateLowerBounds modes bounds).lookup id =
      (bounds.lookup id).bind (cutLower (modes.lookup id)) := by
  refine Eq.trans ?_ (HashMap.lookup_fromIter_filterMap bounds
    (fun id bound => cutLower (modes.lookup id) bound) id)
  unfold truncateLowerBounds
  rw [← List.filterMap_eq_map]
  congr 2
  refine congrArg (List.filterMap · _) (funext fun entry => ?_)
  dsimp only [cutLower, Function.comp_apply]
  rcases modes.lookup entry.1 with _ | (_ | _ | _ | _) <;> rfl

theorem lookup_truncateUpperBounds (modes : HashMap Int MetricsMode) (bounds : HashMap Int Value)
    (id : Int) : (truncateUpperBounds modes bounds).lookup id =
      (bounds.lookup id).bind (cutUpper (modes.lookup id)) := by
  refine Eq.trans ?_ (HashMap.lookup_fromIter_filterMap bounds
    (fun id bound => cutUpper (modes.lookup id) bound) id)
  rfl

/-- Values that are compared are not cut. -/
theorem cutLower_eq (merges : value.datatype.merges = true) (mode : Option MetricsMode) :
    cutLower mode value = some value := by
  unfold cutLower
  split
  · cases value <;> first | rfl | cases merges
  · rfl

theorem cutUpper_eq (merges : value.datatype.merges = true) (mode : Option MetricsMode) :
    cutUpper mode value = some value := by
  unfold cutUpper
  split
  · cases value <;> first | rfl | cases merges
  · rfl

/-! ### What the statistics have to say -/

/-- The row group has no values of a column but nulls. -/
def OnlyNulls (group : RowGroupMetaData) (chunk : ColumnChunkMetaData) : Prop :=
  group.numRows = 0 ∨ chunk.statistics.bind (·.nullCount) = some group.numRows

/-- A value that a column can hold. -/
def OfColumn (context : CollectContext) (column : ColumnDescriptor) (value : Value) : Prop :=
  ∃ id type bytes, fieldOf context.schema column = some (id, type) ∧
    Value.tryFromBytesWithHint context.libraries.parseUuid bytes type column.hint = .ok value

/-- A bound covers a column chunk: its extreme value, or where that is not stated everything the
column can hold. -/
def CoversChunk (context : CollectContext) (pick : ColumnStatistics → Option (List UInt8))
    (covered : Value → Prop) (group : RowGroupMetaData) (chunk : ColumnChunkMetaData) : Prop :=
  match boundOf context pick chunk with
  | some extreme => covered extreme
  | none => OnlyNulls group chunk ∨ ∀ value, OfColumn context chunk.column value → covered value

/-- A bound covers a field in all row groups. -/
def CoversFile (context : CollectContext) (file : ParquetMetaData) (id : Int)
    (pick : ColumnStatistics → Option (List UInt8)) (covered : Value → Prop) : Prop :=
  ∀ group ∈ file.rowGroups, ∀ chunk ∈ group.columns, isOf context id chunk.column →
    CoversChunk context pick covered group chunk

/-- The metrics of a data file describe all row groups of the file. -/
structure MetricsCover (context : CollectContext) (file : ParquetMetaData)
    (dataFile : DataFile Value) : Prop where
  lower : ∀ id bound, (dataFile.lowerBounds.bind (·.lookup id)) = some bound →
    CoversFile context file id (·.minBytes) (AtMost bound ·)
  upper : ∀ id bound, (dataFile.upperBounds.bind (·.lookup id)) = some bound →
    CoversFile context file id (·.maxBytes) (AtMost · bound)
  values : ∀ id count, (dataFile.valueCounts.bind (·.lookup id)) = some count →
    count = (file.rowGroups.map (·.numRows.toInt)).sum
  nulls : ∀ id count, (dataFile.nullValueCounts.bind (·.lookup id)) = some count →
    ∃ counts, file.rowGroups.mapM (groupNulls context id) = some counts ∧ count = counts.sum

/-- The extreme values of a field that row groups state, in order. -/
def statedBounds (context : CollectContext) (file : ParquetMetaData) (id : Int)
    (pick : ColumnStatistics → Option (List UInt8)) : List Value :=
  (chunksOf file).filterMap (chunkBound context pick id)

/-- The extreme values that can become the bound: all of them where they are compared, else the
first. -/
def deciding (values : List Value) : List Value :=
  values.take (if values.head?.any (·.datatype.merges) then values.length else 1)

/-- The mode of a field. -/
def fieldMode (context : CollectContext) (file : ParquetMetaData) (id : Int) :
    Option MetricsMode :=
  ((chunksOf file).find? fun chunk => isOf context id chunk.column).map fun chunk =>
    modeOf context chunk.column

/-- One of the deciding values of a field bounds every row group once it is cut, or none is
stated. -/
def BoundStated (context : CollectContext) (file : ParquetMetaData) (id : Int)
    (pick : ColumnStatistics → Option (List UInt8))
    (cut : Option MetricsMode → Value → Option Value)
    (covers : Value → Value → Prop) : Prop :=
  statedBounds context file id pick = [] ∨
    ∃ source ∈ deciding (statedBounds context file id pick),
      ∀ bound, cut (fieldMode context file id) source = some bound →
        CoversFile context file id pick (covers bound)

/-- The statistics of a file are enough for its metrics. -/
structure StatisticsCover (context : CollectContext) (file : ParquetMetaData) : Prop where
  lower : ∀ id, BoundStated context file id (·.minBytes) cutLower AtMost
  upper : ∀ id, BoundStated context file id (·.maxBytes) cutUpper fun a b => AtMost b a
  values : ∀ id, countsRows context id file.columns → file.rowGroups ≠ [] →
    wrapI64 (file.rowGroups.map (·.numRows.toInt)).sum = (file.rowGroups.map (·.numRows.toInt)).sum
  nulls : ∀ id, (∀ group ∈ file.rowGroups, groupNulls context id group = none) ∨
    ∃ counts, file.rowGroups.mapM (groupNulls context id) = some counts ∧
      wrapI64 counts.sum = counts.sum

/-! ### One bound -/

theorem uniform_statedBounds {a b : Value} (first : a ∈ statedBounds context file id pick)
    (second : b ∈ statedBounds context file id pick) : a.datatype = b.datatype := by
  obtain ⟨_, -, one⟩ := List.mem_filterMap.mp first
  obtain ⟨_, -, two⟩ := List.mem_filterMap.mp second
  exact Option.some.inj ((datatype_chunkBound one).1.symm.trans (datatype_chunkBound two).1)

theorem CoversFile.mono {covered covered' : Value → Prop}
    (all : CoversFile context file id pick covered)
    (weaker : ∀ value, covered value → covered' value) :
    CoversFile context file id pick covered' := by
  intro group groups chunk columns here
  have covers := all group groups chunk columns here
  unfold CoversChunk at covers ⊢
  cases stated : boundOf context pick chunk with
  | some extreme =>
    rw [stated] at covers
    exact weaker extreme covers
  | none =>
    rw [stated] at covers
    exact Or.imp_right (fun every value held => weaker value (every value held)) covers

/-- What is left of the stated values of a field covers its row groups exactly when one of the
deciding values does. -/
theorem merged_covers_iff {merge : Option Value → Value → Value} {covers : Value → Value → Prop}
    (merging : Merging merge covers) {cut : Option MetricsMode → Value → Option Value}
    (uncut : ∀ {value : Value}, value.datatype.merges = true → ∀ mode, cut mode value = some value) :
    (∀ bound, (merged merge none (statedBounds context file id pick)).bind
        (cut (fieldMode context file id)) = some bound →
      CoversFile context file id pick (covers bound)) ↔
      BoundStated context file id pick cut covers := by
  have uniform : ∀ a ∈ statedBounds context file id pick, ∀ b ∈ statedBounds context file id pick,
      a.datatype = b.datatype := fun _ first _ second => uniform_statedBounds first second
  unfold BoundStated
  generalize statedBounds context file id pick = stated at uniform ⊢
  cases stated with
  | nil => simp [merged]
  | cons current values =>
    have same : ∀ value ∈ values, current.datatype = value.datatype :=
      fun value member => uniform _ List.mem_cons_self _ (List.mem_cons_of_mem _ member)
    have start : merged merge none (current :: values) = merged merge (some current) values := by
      rw [merged, List.foldl_cons, merging.start]
      rfl
    rw [start]
    cases merges : current.datatype.merges with
    | false =>
      have only : deciding (current :: values) = [current] := by simp [deciding, merges]
      rw [merging.first same merges, only, Option.bind_some]
      simp
    | true =>
      have all : deciding (current :: values) = current :: values := by simp [deciding, merges]
      obtain ⟨value, member, result, extreme⟩ := merging.extreme same merges
      have compared : ∀ other ∈ current :: values, other.datatype.merges = true :=
        fun other there => uniform _ List.mem_cons_self _ there ▸ merges
      rw [result, all, Option.bind_some]
      constructor
      · exact fun covered => .inr ⟨value, member, covered⟩
      · rintro (empty | ⟨source, there, covered⟩) bound cuts
        · cases empty
        · rw [uncut (compared value member)] at cuts
          cases cuts
          refine (covered source (uncut (compared source there) _)).mono fun other beyond => ?_
          exact merging.trans (extreme source there) beyond

/-! ### The whole file -/

/-- A field with one leaf has one column. -/
theorem SingleLeaf.unique {columns : List ColumnDescriptor} (single : SingleLeaf context columns)
    {a b : ColumnDescriptor} (first : a ∈ columns) (second : b ∈ columns) (here : isOf context id a)
    (there : isOf context id b)
    (one : (context.schema.fields.get id).any (·.fieldType.multiLeaf) = false) : a = b := by
  by_contra different
  have : Std.Symm fun a b : ColumnDescriptor => ∀ id, isOf context id a → isOf context id b →
      (context.schema.fields.get id).any (·.fieldType.multiLeaf) :=
    ⟨fun _ _ several id here there => several id there here⟩
  have several := List.Pairwise.forall single first second different id here there
  rw [one] at several
  cases several

theorem mem_columns_of_chunk {chunk : ColumnChunkMetaData} (member : chunk ∈ chunksOf file) :
    chunk.column ∈ file.columns := by
  obtain ⟨group, groups, columns⟩ := List.mem_flatMap.mp member
  rw [← file.aligned group groups]
  exact List.mem_map_of_mem columns

/-- Where a field has bounds, its mode is that of its column. -/
theorem mode_of_stated {after before : Collected}
    (bounds : BoundsAfter context (chunksOf file) id before after)
    (single : SingleLeaf context file.columns) (stated : statedBounds context file id pick ≠ []) :
    after.columnMetricsModes.lookup id = fieldMode context file id := by
  obtain ⟨value, member⟩ := List.exists_mem_of_ne_nil _ stated
  obtain ⟨chunk, there, bound⟩ := List.mem_filterMap.mp member
  have one := (datatype_chunkBound bound).2
  have here : isOf context id chunk.column = true := by
    unfold chunkBound at bound
    split at bound
    · assumption
    · cases bound
  have same : ∀ other ∈ chunksOf file, isOf context id other.column →
      modeOf context other.column = modeOf context chunk.column := by
    intro other member' here'
    rw [single.unique (mem_columns_of_chunk member') (mem_columns_of_chunk there) here' here one]
  have some : (chunksOf file).any (fun chunk => isOf context id chunk.column) = true :=
    List.any_eq_true.mpr ⟨chunk, there, here⟩
  rw [bounds.mode _ same, if_pos some]
  unfold fieldMode
  cases found : (chunksOf file).find? fun chunk => isOf context id chunk.column with
  | none => exact absurd here (List.find?_eq_none.mp found chunk there)
  | some first =>
    have is : isOf context id first.column = true := by simpa using List.find?_some found
    rw [Option.map_some, same first (List.mem_of_find?_eq_some found) is]

/-- What is collected of a file from nothing. -/
structure CollectsFile (context : CollectContext) (file : ParquetMetaData)
    (collected : Collected) : Prop where
  lower : ∀ id, collected.lowerBounds.lookup id =
    merged mergeLower none (statedBounds context file id (·.minBytes))
  upper : ∀ id, collected.upperBounds.lookup id =
    merged mergeUpper none (statedBounds context file id (·.maxBytes))
  modes : ∀ id pick, statedBounds context file id pick ≠ [] →
    collected.columnMetricsModes.lookup id = fieldMode context file id
  values : ∀ id, collected.valueCounts.lookup id =
    if countsRows context id file.columns then
      (file.rowGroups.map (·.numRows.toInt)).foldl stepCount none
    else none
  nulls : ∀ id, collected.nullValueCounts.lookup id =
    (file.rowGroups.filterMap (groupNulls context id)).foldl stepCount none

theorem collectsFile {collected : Collected} {distinct : Option (HashMap Int Int)}
    {partition : Struct Value} (single : SingleLeaf context file.columns)
    (run : file.rowGroups.foldlM (collectGroup context) ⟨∅, ∅, ∅, distinct, ∅, ∅, ∅, partition⟩ =
      .ok collected) : CollectsFile context file collected := by
  have bounds := fun id => groups_bounds run id
  refine ⟨fun id => (bounds id).lower, fun id => (bounds id).upper,
    fun id _ => mode_of_stated (bounds id) single, fun id => ?_, fun id => ?_⟩
  · exact groups_values run id file.aligned single
  · exact groups_nulls run id fun group member => (file.aligned group member).symm ▸ single

section

variable {libraries : FileLibraries} {location : String} {fileSize : BitVec 64}
  {file : ParquetMetaData} {schema : Schema} {partitionFields : List BoundPartitionField}
  {equalityIds : Option (List Int)} {tableProperties : HashMap String String}
  {partitionValues : Option (List (Option Value))} {dataFile : DataFile Value}

/-- The metrics of a data file are what was collected, its bounds cut. -/
theorem parquetToDatafileImpl_spec
    (run : parquetToDatafileImpl libraries location fileSize file schema partitionFields equalityIds
      tableProperties partitionValues = .ok dataFile) :
    ∃ distinct partition collected,
      file.rowGroups.foldlM (collectGroup (collectContext libraries schema partitionFields
        tableProperties partitionValues)) ⟨∅, ∅, ∅, distinct, ∅, ∅, ∅, partition⟩ =
          .ok collected ∧
      dataFile.lowerBounds =
        some (truncateLowerBounds collected.columnMetricsModes collected.lowerBounds) ∧
      dataFile.upperBounds =
        some (truncateUpperBounds collected.columnMetricsModes collected.upperBounds) ∧
      dataFile.valueCounts = some collected.valueCounts ∧
      dataFile.nullValueCounts = some collected.nullValueCounts := by
  unfold parquetToDatafileImpl at run
  split at run
  · cases run
  · obtain ⟨collected, groups, made⟩ := bind_eq_ok.mp run
    cases made
    exact ⟨_, _, collected, groups, rfl, rfl, rfl, rfl⟩

theorem filterMap_of_mapM {α β : Type} {f : α → Option β} {elements : List α} {results : List β}
    (run : elements.mapM f = some results) : elements.filterMap f = results := by
  induction elements generalizing results with
  | nil =>
    cases run
    rfl
  | cons element elements ih =>
    rw [List.mapM_cons] at run
    obtain ⟨result, first, run⟩ := Option.bind_eq_some_iff.mp run
    obtain ⟨others, rest, made⟩ := Option.bind_eq_some_iff.mp run
    cases made
    rw [List.filterMap_cons_some first, ih rest]

/-- The counts that were added are those of all row groups. -/
theorem nulls_cover_iff {context : CollectContext} {id : Int} :
    (∀ count, (file.rowGroups.filterMap (groupNulls context id)).foldl stepCount none = some count →
      ∃ counts, file.rowGroups.mapM (groupNulls context id) = some counts ∧ count = counts.sum) ↔
    ((∀ group ∈ file.rowGroups, groupNulls context id group = none) ∨
      ∃ counts, file.rowGroups.mapM (groupNulls context id) = some counts ∧
        wrapI64 counts.sum = counts.sum) := by
  have fit : ∀ count ∈ file.rowGroups.filterMap (groupNulls context id), wrapI64 count = count := by
    intro count member
    obtain ⟨group, -, known⟩ := List.mem_filterMap.mp member
    exact wrapI64_groupNulls known
  have all : ∀ {counts}, file.rowGroups.mapM (groupNulls context id) = some counts →
      file.rowGroups.filterMap (groupNulls context id) = counts := by
    exact filterMap_of_mapM
  constructor
  · intro covered
    by_cases empty : file.rowGroups.filterMap (groupNulls context id) = []
    · exact .inl (List.filterMap_eq_nil_iff.mp empty)
    · obtain ⟨counts, known, sum⟩ := covered _ ((foldl_stepCount_eq_some fit).mpr ⟨empty, rfl⟩)
      rw [all known] at sum
      exact .inr ⟨counts, known, sum⟩
  · rintro (unknown | ⟨counts, known, small⟩) count total
    · rw [List.filterMap_eq_nil_iff.mpr unknown] at total
      cases total
    · obtain ⟨-, sum⟩ := (foldl_stepCount_eq_some fit).mp total
      rw [all known] at sum
      exact ⟨counts, known, sum.symm.trans small⟩

theorem values_cover_iff {context : CollectContext} {id : Int} :
    (∀ count, (if countsRows context id file.columns then
        (file.rowGroups.map (·.numRows.toInt)).foldl stepCount none else none) = some count →
      count = (file.rowGroups.map (·.numRows.toInt)).sum) ↔
    (countsRows context id file.columns → file.rowGroups ≠ [] →
      wrapI64 (file.rowGroups.map (·.numRows.toInt)).sum =
        (file.rowGroups.map (·.numRows.toInt)).sum) := by
  have fit : ∀ count ∈ file.rowGroups.map (·.numRows.toInt), wrapI64 count = count := by
    intro count member
    obtain ⟨group, -, rfl⟩ := List.mem_map.mp member
    exact wrapI64_toInt _
  by_cases counts : countsRows context id file.columns = true
  · rw [if_pos counts]
    constructor
    · intro covered _ some
      exact covered _ ((foldl_stepCount_eq_some fit).mpr ⟨List.map_eq_nil_iff.not.mpr some, rfl⟩)
    · intro small count total
      obtain ⟨some, sum⟩ := (foldl_stepCount_eq_some fit).mp total
      exact sum.symm.trans (small counts (List.map_eq_nil_iff.not.mp some))
  · simp [counts]

/-- The metrics of a file as its statistics decide them. -/
structure Records (context : CollectContext) (file : ParquetMetaData)
    (dataFile : DataFile Value) : Prop where
  lower : ∀ id, dataFile.lowerBounds.bind (·.lookup id) =
    (merged mergeLower none (statedBounds context file id (·.minBytes))).bind
      (cutLower (fieldMode context file id))
  upper : ∀ id, dataFile.upperBounds.bind (·.lookup id) =
    (merged mergeUpper none (statedBounds context file id (·.maxBytes))).bind
      (cutUpper (fieldMode context file id))
  values : ∀ id, dataFile.valueCounts.bind (·.lookup id) =
    if countsRows context id file.columns then
      (file.rowGroups.map (·.numRows.toInt)).foldl stepCount none
    else none
  nulls : ∀ id, dataFile.nullValueCounts.bind (·.lookup id) =
    (file.rowGroups.filterMap (groupNulls context id)).foldl stepCount none

theorem records_of_collects {context : CollectContext} {collected : Collected}
    (collects : CollectsFile context file collected)
    (lower : dataFile.lowerBounds =
      some (truncateLowerBounds collected.columnMetricsModes collected.lowerBounds))
    (upper : dataFile.upperBounds =
      some (truncateUpperBounds collected.columnMetricsModes collected.upperBounds))
    (values : dataFile.valueCounts = some collected.valueCounts)
    (nulls : dataFile.nullValueCounts = some collected.nullValueCounts) :
    Records context file dataFile := by
  refine ⟨fun id => ?_, fun id => ?_, fun id => ?_, fun id => ?_⟩
  · rw [lower, Option.bind_some, lookup_truncateLowerBounds, collects.lower]
    by_cases stated : statedBounds context file id (·.minBytes) = []
    · rw [stated]
      rfl
    · rw [collects.modes id _ stated]
  · rw [upper, Option.bind_some, lookup_truncateUpperBounds, collects.upper]
    by_cases stated : statedBounds context file id (·.maxBytes) = []
    · rw [stated]
      rfl
    · rw [collects.modes id _ stated]
  · rw [values, Option.bind_some, collects.values]
  · rw [nulls, Option.bind_some, collects.nulls]

theorem Records.covers_iff {context : CollectContext} (records : Records context file dataFile) :
    MetricsCover context file dataFile ↔ StatisticsCover context file := by
  constructor
  · intro cover
    refine ⟨fun id => ?_, fun id => ?_, fun id => ?_, fun id => ?_⟩
    · exact (merged_covers_iff merging_lower cutLower_eq).mp fun bound kept =>
        cover.lower id bound ((records.lower id).trans kept)
    · exact (merged_covers_iff merging_upper cutUpper_eq).mp fun bound kept =>
        cover.upper id bound ((records.upper id).trans kept)
    · exact values_cover_iff.mp fun count kept =>
        cover.values id count ((records.values id).trans kept)
    · exact nulls_cover_iff.mp fun count kept =>
        cover.nulls id count ((records.nulls id).trans kept)
  · intro cover
    refine ⟨fun id bound kept => ?_, fun id bound kept => ?_, fun id count kept => ?_,
      fun id count kept => ?_⟩
    · exact (merged_covers_iff merging_lower cutLower_eq).mpr (cover.lower id) bound
        ((records.lower id).symm.trans kept)
    · exact (merged_covers_iff merging_upper cutUpper_eq).mpr (cover.upper id) bound
        ((records.upper id).symm.trans kept)
    · exact values_cover_iff.mpr (cover.values id) count ((records.values id).symm.trans kept)
    · exact nulls_cover_iff.mpr (cover.nulls id) count ((records.nulls id).symm.trans kept)

/-- The metrics of a data file describe all its row groups exactly when the statistics of the row
groups are enough. -/
theorem metricsCover_iff
    (single : SingleLeaf (collectContext libraries schema partitionFields tableProperties
      partitionValues) file.columns)
    (run : parquetToDatafileImpl libraries location fileSize file schema partitionFields equalityIds
      tableProperties partitionValues = .ok dataFile) :
    MetricsCover (collectContext libraries schema partitionFields tableProperties partitionValues)
        file dataFile ↔
      StatisticsCover (collectContext libraries schema partitionFields tableProperties
        partitionValues) file := by
  obtain ⟨distinct, partition, collected, groups, lower, upper, values, nulls⟩ :=
    parquetToDatafileImpl_spec run
  have collects := collectsFile single groups
  exact (records_of_collects collects lower upper values nulls).covers_iff

end

/-! ### A file with descending row groups -/

def nameColumn : ColumnDescriptor := ⟨some 1, ["name"], .byteArray⟩

/-- A row group with one name. -/
def nameGroup (name : UInt8) : RowGroupMetaData where
  numRows := 1
  columns := [⟨nameColumn, 8, some ⟨some 0, none, some [name], some [name]⟩⟩]

/-- The second row group has the smaller name. -/
def descendingNames : ParquetMetaData where
  numRows := 2
  keyValueMetadata := none
  columns := [nameColumn]
  rowGroups := [nameGroup 98, nameGroup 97]
  aligned := by decide

def nameSchema : Schema where
  schemaId := 0
  identifierFieldIds := none
  fields := ⟨[⟨1, "name", true, .primitive .string, none, none, none⟩]⟩

theorem singleLeaf_descendingNames :
    SingleLeaf (collectContext footerLibraries nameSchema [] ∅ none) descendingNames.columns :=
  List.pairwise_singleton _ _

theorem metricsCover_iff_descendingNames :
    ∃ dataFile, parquetToDatafileImpl footerLibraries "data/0.parquet" 100 descendingNames nameSchema
        [] none ∅ none = .ok dataFile ∧
      (MetricsCover (collectContext footerLibraries nameSchema [] ∅ none) descendingNames dataFile ↔
        StatisticsCover (collectContext footerLibraries nameSchema [] ∅ none) descendingNames) := by
  cases run : parquetToDatafileImpl footerLibraries "data/0.parquet" 100 descendingNames nameSchema
      [] none ∅ none with
  | error error =>
    have returns : (parquetToDatafileImpl footerLibraries "data/0.parquet" 100 descendingNames
      nameSchema [] none ∅ none).toOption.isSome = true := by decide +kernel
    rw [run] at returns
    cases returns
  | ok dataFile => exact ⟨dataFile, rfl, metricsCover_iff singleLeaf_descendingNames run⟩

/-- The lower bound stays that of the first row group. -/
theorem descendingNames_uncovered :
    ∃ dataFile, parquetToDatafile footerLibraries "data/0.parquet" 100 descendingNames nameSchema []
        none ∅ = .ok dataFile ∧
      ¬ MetricsCover (collectContext footerLibraries nameSchema [] ∅ none) descendingNames
        dataFile := by
  have bound : ((parquetToDatafile footerLibraries "data/0.parquet" 100 descendingNames nameSchema []
      none ∅).toOption.bind (·.lowerBounds)).bind (·.lookup 1) = some (.string "b") := by
    decide +kernel
  cases run : parquetToDatafile footerLibraries "data/0.parquet" 100 descendingNames nameSchema []
      none ∅ with
  | error error =>
    rw [run] at bound
    cases bound
  | ok dataFile =>
    rw [run] at bound
    refine ⟨dataFile, rfl, fun cover => ?_⟩
    have covered := cover.lower 1 (.string "b") bound (nameGroup 97) (by decide)
      ⟨nameColumn, 8, some ⟨some 0, none, some [97], some [97]⟩⟩ (by decide) (by decide +kernel)
    have stated : boundOf (collectContext footerLibraries nameSchema [] ∅ none) (·.minBytes)
        ⟨nameColumn, 8, some ⟨some 0, none, some [97], some [97]⟩⟩ = some (.string "a") := by
      decide +kernel
    unfold CoversChunk at covered
    rw [stated] at covered
    exact absurd covered (by decide +kernel)

end IcebergRust

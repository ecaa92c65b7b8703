import IcebergRust.FileFormat.Collected
import IcebergRust.Spec.Between

/-!
# When inferred partition values are right

`parquet_to_datafile` takes the partition value of a file from the first column chunk of the
source column that states a minimum and a maximum: the two must have one transform.

* `inferred_value` is what is inferred: the later chunks are not looked at.
* `partitionRight_iff` says on which files it is the partition value of every row.
-/

namespace IcebergRust

open Fallible Value

/-! ### One column chunk -/

variable {context : CollectContext}

/-- What a column chunk does to the partition tuple. -/
theorem collectColumn_partition {group : RowGroupMetaData} {before after : GroupCollected}
    {chunk : ColumnChunkMetaData} (run : collectColumn context group before chunk = .ok after) :
    ((fieldOf context.schema chunk.column = none ∨ chunk.statistics = none) ∧
        after.collected.partition = before.collected.partition) ∨
      ∃ column statistics, Resolves context chunk column ∧ chunk.statistics = some statistics ∧
        inferred context column statistics before.collected.partition =
          .ok after.collected.partition := by
  rcases collectColumn_cases run with ⟨untracked, rfl⟩ | ⟨column, resolves, run⟩
  · exact .inl ⟨.inl untracked, rfl⟩
  · have rows := countRows_spec group column chunk.compressedSize before 0
    cases statistics : chunk.statistics with
    | none =>
      rw [statistics] at run
      dsimp only at run
      subst run
      exact .inl ⟨.inr rfl, rows.partition⟩
    | some statistics' =>
      rw [statistics] at run
      obtain ⟨distinct, lower, upper, partition, -, -, infers, rfl⟩ := collectStatistics_spec run
      rw [rows.partition] at infers
      exact .inr ⟨column, statistics', resolves, rfl, infers⟩

/-- The tuple after the column chunks of a file. -/
inductive Infers (context : CollectContext) :
    List ColumnChunkMetaData → Struct Value → Struct Value → Prop where
  | done (tuple : Struct Value) : Infers context [] tuple tuple
  | passed {chunk : ColumnChunkMetaData} {chunks : List ColumnChunkMetaData}
      {before after : Struct Value} :
      fieldOf context.schema chunk.column = none ∨ chunk.statistics = none →
      Infers context chunks before after → Infers context (chunk :: chunks) before after
  | looked {chunk : ColumnChunkMetaData} {chunks : List ColumnChunkMetaData}
      {before middle after : Struct Value} {column : ResolvedColumn}
      {statistics : ColumnStatistics} : Resolves context chunk column →
      chunk.statistics = some statistics →
      inferred context column statistics before = .ok middle →
      Infers context chunks middle after → Infers context (chunk :: chunks) before after

theorem Infers.append {first second : List ColumnChunkMetaData} {a b c : Struct Value}
    (one : Infers context first a b) (two : Infers context second b c) :
    Infers context (first ++ second) a c := by
  induction one with
  | done => exact two
  | passed without _ ih => exact .passed without (ih two)
  | looked resolves stated step _ ih => exact .looked resolves stated step (ih two)

theorem infers_columns {group : RowGroupMetaData} {chunks : List ColumnChunkMetaData}
    {before after : GroupCollected}
    (run : chunks.foldlM (collectColumn context group) before = .ok after) :
    Infers context chunks before.collected.partition after.collected.partition := by
  induction chunks generalizing before with
  | nil =>
    cases foldlM_nil_eq_ok.mp run
    exact .done _
  | cons chunk chunks ih =>
    obtain ⟨middle, first, rest⟩ := foldlM_cons_eq_ok.mp run
    rcases collectColumn_partition first with ⟨without, same⟩ |
        ⟨column, statistics, resolves, stated, step⟩
    · exact .passed without (same ▸ ih rest)
    · exact .looked resolves stated step (ih rest)

theorem infers_groups {groups : List RowGroupMetaData} {before after : Collected}
    (run : groups.foldlM (collectGroup context) before = .ok after) :
    Infers context (groups.flatMap (·.columns)) before.partition after.partition := by
  induction groups generalizing before with
  | nil =>
    cases foldlM_nil_eq_ok.mp run
    exact .done _
  | cons group groups ih =>
    obtain ⟨middle, first, rest⟩ := foldlM_cons_eq_ok.mp run
    obtain ⟨state, columns, made⟩ := bind_eq_ok.mp first
    have later := ih rest
    have same : middle.partition = state.collected.partition := by
      cases made
      rfl
    rw [same] at later
    exact (infers_columns columns).append later

/-! ### What is inferred -/

/-- The source columns of partition fields by name: the last field of a column stands. -/
def fieldsBySource (fields : List BoundPartitionField) : HashMap String PartitionField :=
  HashMap.fromIter (fields.map fun field => (field.sourceName, field.partitionField))

/-- No later field partitions by the same column. -/
def LastOfSource (fields : List BoundPartitionField) (field : BoundPartitionField) : Prop :=
  (fieldsBySource fields).lookup field.sourceName = some field.partitionField

instance (fields : List BoundPartitionField) (field : BoundPartitionField) :
    Decidable (LastOfSource fields field) := inferInstanceAs (Decidable (_ = _))

/-- A column finds a field under its name exactly if it is the source of the field. -/
theorem sourceName_of_lookup {fields : List BoundPartitionField} {field : BoundPartitionField}
    (names : (fields.map (·.name)).Nodup) (member : field ∈ fields) {name : String}
    {found : PartitionField} (lookup : (fieldsBySource fields).lookup name = some found)
    (named : found.name = field.name) : name = field.sourceName ∧ found = field.partitionField := by
  unfold fieldsBySource HashMap.fromIter at lookup
  have extended := HashMap.lookup_extend ∅
    (fields.map fun field => (field.sourceName, field.partitionField)) name
  rw [HashMap.extend, lookup, AList.lookup_empty, Option.or_none] at extended
  obtain ⟨entry, present, rfl⟩ := Option.map_eq_some_iff.mp extended.symm
  have key : entry.1 = name := by simpa using List.find?_some present
  obtain ⟨other, there, rfl⟩ :=
    List.mem_map.mp (List.mem_reverse.mp (List.mem_of_find?_eq_some present))
  obtain rfl : other = field := List.inj_on_of_nodup_map names there member named
  exact ⟨key.symm, rfl⟩

/-- The source column of a field. -/
def IsSource (field : BoundPartitionField) (column : ColumnDescriptor) : Prop :=
  column.isRowLineage = false ∧ column.path = [field.sourceName]

/-- A value of the statistics of a column chunk. -/
def statedValue (context : CollectContext) (pick : ColumnStatistics → Option (List UInt8))
    (chunk : ColumnChunkMetaData) : Option Value :=
  match fieldOf context.schema chunk.column, chunk.statistics.bind pick with
  | some (_, type), some bytes =>
    (Value.tryFromBytesWithHint context.libraries.parseUuid bytes type chunk.column.hint).toOption
  | _, _ => none

/-- The column of a field with one leaf is a column of the file itself. -/
def TopLevel (context : CollectContext) (columns : List ColumnDescriptor) : Prop :=
  ∀ column ∈ columns, ∀ id type, fieldOf context.schema column = some (id, type) →
    type.multiLeaf = false → column.path = [column.name]

theorem Resolves.statedValue {chunk : ColumnChunkMetaData} {column : ResolvedColumn}
    (resolves : Resolves context chunk column) {statistics : ColumnStatistics}
    (stated : chunk.statistics = some statistics) (pick : ColumnStatistics → Option (List UInt8)) :
    statedValue context pick chunk = (pick statistics).bind fun bytes =>
      (decode context.libraries column bytes).toOption := by
  unfold IcebergRust.statedValue
  rw [resolves.field, stated, Option.bind_some]
  cases pick statistics with
  | none => rfl
  | some bytes =>
    rw [Option.bind_some, decode, resolves.hint]

/-- Containers and variants have no values in bytes. -/
theorem multiLeaf_of_decode {column : ResolvedColumn} {bytes : List UInt8} {value : Value}
    (run : decode context.libraries column bytes = .ok value) :
    column.dataType.multiLeaf = false := by
  unfold decode Value.tryFromBytesWithHint at run
  cases type : column.dataType with
  | primitive primitive =>
    rw [type] at run
    cases primitive with
    | variant => cases run
    | _ => rfl
  | _ =>
    rw [type] at run
    cases run

section Field

variable {context : CollectContext} {fields : List BoundPartitionField}
  {field : BoundPartitionField}

/-- A chunk decides the value of a field. -/
structure Decides (context : CollectContext) (fields : List BoundPartitionField)
    (field : BoundPartitionField) (chunk : ColumnChunkMetaData) (inferred : Value) : Prop where
  last : LastOfSource fields field
  tracked : chunk.column.isRowLineage = false
  name : chunk.column.name = field.sourceName
  single : ∃ id type, fieldOf context.schema chunk.column = some (id, type) ∧
    type.multiLeaf = false
  extremes : ∃ least greatest other, statedValue context (·.minBytes) chunk = some least ∧
    statedValue context (·.maxBytes) chunk = some greatest ∧
    least.transform context.libraries.values field.transform = .ok inferred ∧
    greatest.transform context.libraries.values field.transform = .ok other ∧
    inferred.same other = true

/-- A chunk says nothing of the value of a field. -/
def Silent (context : CollectContext) (field : BoundPartitionField) (chunk : ColumnChunkMetaData) :
    Prop :=
  chunk.column.isRowLineage = false → chunk.column.name = field.sourceName →
    statedValue context (·.minBytes) chunk = none ∨ statedValue context (·.maxBytes) chunk = none

/-- What one chunk does to the value of a field. -/
theorem inferred_spec (infers : context.partitionFields = some (fieldsBySource fields))
    (names : (fields.map (·.name)).Nodup) (member : field ∈ fields) {chunk : ColumnChunkMetaData}
    {column : ResolvedColumn} {statistics : ColumnStatistics} {before after : Struct Value}
    (resolves : Resolves context chunk column) (stated : chunk.statistics = some statistics)
    (run : inferred context column statistics before = .ok after) {value : Option Value}
    (start : before.get field.name = some value) :
    (after.get field.name = some value ∧
        (value = none → LastOfSource fields field → Silent context field chunk)) ∨
      value = none ∧ ∃ inferred, after.get field.name = some (some inferred) ∧
        Decides context fields field chunk inferred := by
  unfold inferred at run
  rw [infers] at run
  dsimp only at run
  unfold inferPartition at run
  cases lookup : (fieldsBySource fields).lookup column.name with
  | none =>
    rw [lookup] at run
    cases run
    refine .inl ⟨start, fun _ last _ name => ?_⟩
    rw [LastOfSource, ← name, ← resolves.name, lookup] at last
    cases last
  | some found =>
    rw [lookup] at run
    dsimp only at run
    by_cases named : found.name = field.name
    · obtain ⟨source, rfl⟩ := sourceName_of_lookup names member lookup named
      have last : LastOfSource fields field := by rwa [LastOfSource, ← source]
      have here : before.get field.partitionField.name = some value := start
      rw [here] at run
      cases value with
      | some value =>
        cases run
        exact .inl ⟨start, fun absent => by cases absent⟩
      | none =>
        have least := resolves.statedValue stated (·.minBytes)
        have greatest := resolves.statedValue stated (·.maxBytes)
        dsimp only at run
        cases minBytes : statistics.minBytes with
        | none =>
          rw [minBytes] at run least
          cases run
          exact .inl ⟨start, fun _ _ _ _ => .inl least⟩
        | some minBytes =>
          cases maxBytes : statistics.maxBytes with
          | none =>
            rw [minBytes, maxBytes] at run
            rw [maxBytes] at greatest
            cases run
            exact .inl ⟨start, fun _ _ _ _ => .inr greatest⟩
          | some maxBytes =>
            rw [minBytes, maxBytes] at run
            obtain ⟨min, decodes, run⟩ := bind_eq_ok.mp run
            obtain ⟨low, lows, run⟩ := bind_eq_ok.mp run
            obtain ⟨max, decodes', run⟩ := bind_eq_ok.mp run
            obtain ⟨high, highs, run⟩ := bind_eq_ok.mp run
            rw [minBytes, Option.bind_some, decodes] at least
            rw [maxBytes, Option.bind_some, decodes'] at greatest
            split at run
            · rename_i equal
              cases run
              refine .inr ⟨rfl, low, ?_, ?_⟩
              · rw [Struct.get_set, if_pos ⟨rfl, by rw [here]; rfl⟩]
              · refine ⟨last, ?_, resolves.name.symm.trans source, ?_, ?_⟩
                · by_contra lineage
                  have field := resolves.field
                  rw [fieldOf, if_pos ((Bool.not_eq_false _).mp lineage)] at field
                  cases field
                · exact ⟨_, _, resolves.field, multiLeaf_of_decode decodes⟩
                · exact ⟨min, max, high, least, greatest, lows, highs, equal⟩
            · cases run
    · have kept : after.get field.name = some value := by
        split at run
        · split at run
          · obtain ⟨min, -, run⟩ := bind_eq_ok.mp run
            obtain ⟨low, -, run⟩ := bind_eq_ok.mp run
            obtain ⟨max, -, run⟩ := bind_eq_ok.mp run
            obtain ⟨high, -, run⟩ := bind_eq_ok.mp run
            split at run
            · cases run
              rw [Struct.get_set, if_neg fun both => named both.1.symm, start]
            · cases run
          · cases run
            exact start
        · cases run
          exact start
      refine .inl ⟨kept, fun _ last _ name => ?_⟩
      rw [LastOfSource, ← name, ← resolves.name, lookup] at last
      exact absurd (congrArg PartitionField.name (Option.some.inj last)) named

/-- What is inferred of a field over the chunks of a file. -/
theorem inferred_value (infers : context.partitionFields = some (fieldsBySource fields))
    (names : (fields.map (·.name)).Nodup) (member : field ∈ fields)
    {chunks : List ColumnChunkMetaData} {before after : Struct Value}
    (run : Infers context chunks before after) {value : Option Value}
    (start : before.get field.name = some value) :
    (after.get field.name = some value ∧
        (value = none → LastOfSource fields field →
          ∀ chunk ∈ chunks, Silent context field chunk)) ∨
      value = none ∧ ∃ chunk ∈ chunks, ∃ inferred, after.get field.name = some (some inferred) ∧
        Decides context fields field chunk inferred := by
  induction run generalizing value with
  | done => exact .inl ⟨start, fun _ _ _ none => absurd none List.not_mem_nil⟩
  | @passed chunk chunks before after without _ ih =>
    have silent : Silent context field chunk := by
      intro _ _
      left
      unfold statedValue
      rcases without with untracked | unstated
      · rw [untracked]
      · rw [unstated]
        cases fieldOf context.schema chunk.column <;> rfl
    rcases ih start with ⟨kept, rest⟩ | ⟨absent, later, there, decided⟩
    · exact .inl ⟨kept, fun absent last => List.forall_mem_cons.mpr ⟨silent, rest absent last⟩⟩
    · exact .inr ⟨absent, later, List.mem_cons_of_mem _ there, decided⟩
  | @looked chunk chunks before middle after column statistics resolves stated step _ ih =>
    rcases inferred_spec infers names member resolves stated step start with
      ⟨kept, silent⟩ | ⟨absent, inferred, found, decides⟩
    · rcases ih kept with ⟨kept', rest⟩ | ⟨absent, later, there, decided⟩
      · exact .inl ⟨kept', fun absent last =>
          List.forall_mem_cons.mpr ⟨silent absent last, rest absent last⟩⟩
      · exact .inr ⟨absent, later, List.mem_cons_of_mem _ there, decided⟩
    · rcases ih found with ⟨kept, -⟩ | ⟨absurd, -⟩
      · exact .inr ⟨absent, chunk, List.mem_cons_self, inferred, kept, decides⟩
      · cases absurd

end Field

/-! ### The rows of a file -/

/-- The rows of a column chunk are those its statistics are of. -/
structure ExactStatistics (context : CollectContext) (chunk : ColumnChunkMetaData)
    (rows : List (Option Value)) : Prop where
  nulls : (chunk.statistics.bind (·.nullCount)).map (·.toNat) = some (rows.count none)
  least : match statedValue context (·.minBytes) chunk with
    | some least => some least ∈ rows ∧ ∀ value, some value ∈ rows → AtMost least value
    | none => ∀ value, some value ∉ rows
  greatest : match statedValue context (·.maxBytes) chunk with
    | some greatest => some greatest ∈ rows ∧ ∀ value, some value ∈ rows → AtMost value greatest
    | none => ∀ value, some value ∉ rows

/-- The rows of the column chunks of a file, whose statistics are exact for the source columns. -/
structure Contents (context : CollectContext) (file : ParquetMetaData)
    (fields : List BoundPartitionField) where
  chunks : List (ColumnChunkMetaData × List (Option Value))
  all : chunks.map (·.1) = chunksOf file
  exact : ∀ entry ∈ chunks, ∀ field ∈ fields, IsSource field entry.1.column →
    ExactStatistics context entry.1 entry.2

/-- The rows of the source column of a field. -/
def Contents.rowsOf {context : CollectContext} {file : ParquetMetaData}
    {fields : List BoundPartitionField} (contents : Contents context file fields)
    (field : BoundPartitionField) (row : Option Value) : Prop :=
  ∃ entry ∈ contents.chunks, IsSource field entry.1.column ∧ row ∈ entry.2

/-- A row has a partition value. -/
def HasPartition (libraries : Libraries) (transform : Transform) (inferred : Value)
    (row : Option Value) : Prop :=
  ∃ value result, row = some value ∧ value.transform libraries transform = .ok result ∧
    result.same inferred = true

theorem hasPartition_some {libraries : Libraries} {transform : Transform} {inferred value : Value} :
    HasPartition libraries transform inferred (some value) ↔
      ∃ result, value.transform libraries transform = .ok result ∧
        result.same inferred = true := by
  constructor
  · rintro ⟨_, result, same, run⟩
    cases same
    exact ⟨result, run⟩
  · rintro ⟨result, run⟩
    exact ⟨value, result, rfl, run⟩

/-- The partition value of a field is that of every row, and null only where every row is. -/
def PartitionRight {context : CollectContext} {file : ParquetMetaData}
    {fields : List BoundPartitionField} (contents : Contents context file fields)
    (partition : Struct Value) (field : BoundPartitionField) : Prop :=
  match partition.get field.name with
  | some (some inferred) => ∀ row, contents.rowsOf field row →
      HasPartition context.libraries.values field.transform inferred row
  | some none => ∀ row, contents.rowsOf field row → row = none
  | none => False

/-- A chunk without nulls whose extreme values have a partition value: that is enough where the
transform keeps what is between them, else every value has to have it. -/
structure ChunkAgrees (context : CollectContext) (field : BoundPartitionField) (inferred : Value)
    (chunk : ColumnChunkMetaData) (rows : List (Option Value)) : Prop where
  nulls : (chunk.statistics.bind (·.nullCount)) = some 0
  least : ∀ least, statedValue context (·.minBytes) chunk = some least →
    HasPartition context.libraries.values field.transform inferred (some least)
  greatest : ∀ greatest, statedValue context (·.maxBytes) chunk = some greatest →
    HasPartition context.libraries.values field.transform inferred (some greatest)
  between : ∀ least greatest, statedValue context (·.minBytes) chunk = some least →
    statedValue context (·.maxBytes) chunk = some greatest →
    KeepsBetween field.transform least greatest ∨
      ∀ row ∈ rows, HasPartition context.libraries.values field.transform inferred row

/-- The source column is null throughout, or the field is the last one of it and all row groups
agree on a value. -/
def SourceAgrees {context : CollectContext} {file : ParquetMetaData}
    {fields : List BoundPartitionField} (contents : Contents context file fields)
    (field : BoundPartitionField) : Prop :=
  (∀ row, contents.rowsOf field row → row = none) ∨
    LastOfSource fields field ∧ ∃ inferred, ∀ entry ∈ contents.chunks,
      IsSource field entry.1.column → ChunkAgrees context field inferred entry.1 entry.2

namespace ExactStatistics

variable {context : CollectContext} {chunk : ColumnChunkMetaData} {rows : List (Option Value)}

theorem least_of_some (exact : ExactStatistics context chunk rows) {value : Value}
    (member : some value ∈ rows) :
    ∃ least, statedValue context (·.minBytes) chunk = some least ∧ AtMost least value := by
  have extreme := exact.least
  cases stated : statedValue context (·.minBytes) chunk with
  | none =>
    rw [stated] at extreme
    exact absurd member (extreme value)
  | some least =>
    rw [stated] at extreme
    exact ⟨least, rfl, extreme.2 value member⟩

theorem greatest_of_some (exact : ExactStatistics context chunk rows) {value : Value}
    (member : some value ∈ rows) :
    ∃ greatest, statedValue context (·.maxBytes) chunk = some greatest ∧ AtMost value greatest := by
  have extreme := exact.greatest
  cases stated : statedValue context (·.maxBytes) chunk with
  | none =>
    rw [stated] at extreme
    exact absurd member (extreme value)
  | some greatest =>
    rw [stated] at extreme
    exact ⟨greatest, rfl, extreme.2 value member⟩

theorem mem_of_least (exact : ExactStatistics context chunk rows) {least : Value}
    (stated : statedValue context (·.minBytes) chunk = some least) : some least ∈ rows := by
  have extreme := exact.least
  rw [stated] at extreme
  exact extreme.1

theorem mem_of_greatest (exact : ExactStatistics context chunk rows) {greatest : Value}
    (stated : statedValue context (·.maxBytes) chunk = some greatest) : some greatest ∈ rows := by
  have extreme := exact.greatest
  rw [stated] at extreme
  exact extreme.1

/-- No nulls are stated exactly if there are none. -/
theorem nulls_zero (exact : ExactStatistics context chunk rows) :
    chunk.statistics.bind (·.nullCount) = some 0 ↔ none ∉ rows := by
  have nulls := exact.nulls
  cases count : chunk.statistics.bind (·.nullCount) with
  | none =>
    rw [count] at nulls
    cases nulls
  | some count' =>
    rw [count, Option.map_some, Option.some.injEq] at nulls
    rw [Option.some.injEq, ← List.count_eq_zero, ← nulls, ← BitVec.toNat_inj]
    rfl

end ExactStatistics

section Rows

variable {context : CollectContext} {file : ParquetMetaData} {fields : List BoundPartitionField}
  {field : BoundPartitionField}

/-- Row groups that agree have the value in every row. -/
theorem HasPartition.of_agrees (ordered : context.libraries.values.Ordered) {inferred value : Value}
    {chunk : ColumnChunkMetaData} {rows : List (Option Value)}
    (exact : ExactStatistics context chunk rows)
    (agrees : ChunkAgrees context field inferred chunk rows) (member : some value ∈ rows) :
    HasPartition context.libraries.values field.transform inferred (some value) := by
  obtain ⟨least, stated, low⟩ := exact.least_of_some member
  obtain ⟨greatest, stated', high⟩ := exact.greatest_of_some member
  rcases agrees.between least greatest stated stated' with keeps | every
  · obtain ⟨first, start, equal⟩ := hasPartition_some.mp (agrees.least least stated)
    obtain ⟨last, stop, equal'⟩ := hasPartition_some.mp (agrees.greatest greatest stated')
    have ends := same_trans equal (same_symm equal')
    obtain ⟨result, here, same⟩ := transform_between ordered low high keeps start stop ends
    exact ⟨value, result, rfl, here, same_trans same equal⟩
  · exact every _ member

/-- A chunk that decides a field is one of its source column. -/
theorem Decides.source {chunk : ColumnChunkMetaData} {inferred : Value}
    (decides : Decides context fields field chunk inferred)
    (top : TopLevel context file.columns) (member : chunk.column ∈ file.columns) :
    IsSource field chunk.column := by
  obtain ⟨id, type, typed, single⟩ := decides.single
  refine ⟨decides.tracked, ?_⟩
  rw [top chunk.column member id type typed single, decides.name]

/-- An inferred value is right exactly if the rows of its source column agree. -/
theorem partitionRight_of_infers (ordered : context.libraries.values.Ordered)
    (infers : context.partitionFields = some (fieldsBySource fields))
    (names : (fields.map (·.name)).Nodup) (top : TopLevel context file.columns)
    (contents : Contents context file fields) {before after : Struct Value}
    (run : Infers context (chunksOf file) before after) (member : field ∈ fields)
    (start : before.get field.name = some none) :
    PartitionRight contents after field ↔ SourceAgrees contents field := by
  have entries : ∀ chunk ∈ chunksOf file, ∃ entry ∈ contents.chunks, entry.1 = chunk := by
    intro chunk there
    rw [← contents.all] at there
    exact List.mem_map.mp there
  have chunks : ∀ entry ∈ contents.chunks, entry.1 ∈ chunksOf file := by
    intro entry there
    rw [← contents.all]
    exact List.mem_map_of_mem there
  unfold PartitionRight
  rcases inferred_value infers names member run start with
    ⟨null, silent⟩ | ⟨-, chunk, there, inferred, found, decides⟩
  · rw [null]
    constructor
    · exact .inl
    · rintro (nulls | ⟨last, inferred, agree⟩) row ⟨entry, there, source, inside⟩
      · exact nulls row ⟨entry, there, source, inside⟩
      · have exact := contents.exact entry there field member source
        cases row with
        | none => rfl
        | some value =>
          obtain ⟨least, stated, -⟩ := exact.least_of_some inside
          obtain ⟨greatest, stated', -⟩ := exact.greatest_of_some inside
          have name : entry.1.column.name = field.sourceName := by
            rw [ColumnDescriptor.name, source.2]
            rfl
          rcases silent rfl last entry.1 (chunks entry there) source.1 name with without | without
          · rw [stated] at without
            cases without
          · rw [stated'] at without
            cases without
  · rw [found]
    obtain ⟨entry, inside, rfl⟩ := entries chunk there
    have member' : entry.1.column ∈ file.columns := by
      obtain ⟨group, groups, columns⟩ := List.mem_flatMap.mp there
      rw [← file.aligned group groups]
      exact List.mem_map_of_mem columns
    have source := decides.source top member'
    have exact := contents.exact entry inside field member source
    obtain ⟨least, greatest, other, stated, stated', begins, ends, equal⟩ := decides.extremes
    constructor
    · intro every
      refine .inr ⟨decides.last, inferred, fun entry there source => ?_⟩
      have exact := contents.exact entry there field member source
      refine ⟨exact.nulls_zero.mpr fun null => ?_, fun least stated => ?_, fun greatest stated => ?_,
        fun _ _ _ _ => .inr fun row inside => every row ⟨entry, there, source, inside⟩⟩
      · obtain ⟨value, -, absurd, -⟩ := every none ⟨entry, there, source, null⟩
        cases absurd
      · exact every _ ⟨entry, there, source, exact.mem_of_least stated⟩
      · exact every _ ⟨entry, there, source, exact.mem_of_greatest stated⟩
    · rintro (nulls | ⟨-, common, agree⟩) row ⟨entry', there', source', inside'⟩
      · have null := nulls _ ⟨entry, inside, source, exact.mem_of_least stated⟩
        cases null
      · -- the value that was inferred is the common one
        obtain ⟨result, begins', same⟩ :=
          hasPartition_some.mp ((agree entry inside source).least least stated)
        obtain rfl : inferred = result := Except.ok.inj (begins.symm.trans begins')
        have exact' := contents.exact entry' there' field member source'
        have agrees := agree entry' there' source'
        cases row with
        | none => exact absurd inside' (exact'.nulls_zero.mp agrees.nulls)
        | some value =>
          obtain ⟨result, run, equal'⟩ :=
            hasPartition_some.mp (HasPartition.of_agrees ordered exact' agrees inside')
          exact ⟨value, result, rfl, run, same_trans equal' (same_symm same)⟩

end Rows

/-! ### Data files -/

section File

variable {libraries : FileLibraries} {location : String} {fileSize : BitVec 64}
  {file : ParquetMetaData} {schema : Schema} {partitionFields : List BoundPartitionField}
  {equalityIds : Option (List Int)} {tableProperties : HashMap String String}
  {dataFile : DataFile Value}

/-- The partition tuple of a data file is inferred from nulls. -/
theorem infers_of_parquetToDatafile
    (run : parquetToDatafile libraries location fileSize file schema partitionFields equalityIds
      tableProperties = .ok dataFile) :
    Infers (collectContext libraries schema partitionFields tableProperties none) (chunksOf file)
      ⟨partitionFields.map fun field => (field.name, none)⟩ dataFile.partition := by
  unfold parquetToDatafile parquetToDatafileImpl at run
  rw [if_neg (by simp)] at run
  obtain ⟨collected, groups, made⟩ := bind_eq_ok.mp run
  cases made
  exact infers_groups groups

theorem get_of_names {field : BoundPartitionField} (member : field ∈ partitionFields) :
    (⟨partitionFields.map fun field => (field.name, none)⟩ : Struct Value).get field.name =
      some none := by
  unfold Struct.get
  cases found : (partitionFields.map fun field => (field.name, (none : Option Value))).reverse.find?
      fun column => column.1 = field.name with
  | none =>
    have absent := List.find?_eq_none.mp found (field.name, none)
      (List.mem_reverse.mpr (List.mem_map_of_mem (f := fun field => (field.name, none)) member))
    simp at absent
  | some column =>
    have there := List.mem_reverse.mp (List.mem_of_find?_eq_some found)
    obtain ⟨other, -, rfl⟩ := List.mem_map.mp there
    rfl

/-- The inferred partition values of a data file are right exactly if the rows of every source
column agree. -/
theorem partitionRight_iff (ordered : libraries.values.Ordered)
    (names : (partitionFields.map (·.name)).Nodup)
    (top : TopLevel (collectContext libraries schema partitionFields tableProperties none)
      file.columns)
    (contents : Contents (collectContext libraries schema partitionFields tableProperties none) file
      partitionFields)
    (run : parquetToDatafile libraries location fileSize file schema partitionFields equalityIds
      tableProperties = .ok dataFile) :
    (∀ field ∈ partitionFields, PartitionRight contents dataFile.partition field) ↔
      ∀ field ∈ partitionFields, SourceAgrees contents field := by
  have inferred := infers_of_parquetToDatafile run
  have each : ∀ field ∈ partitionFields,
      PartitionRight contents dataFile.partition field ↔ SourceAgrees contents field :=
    fun field member => partitionRight_of_infers ordered rfl names top contents inferred member
      (get_of_names member)
  constructor
  · exact fun right field member => (each field member).mp (right field member)
  · exact fun agree field member => (each field member).mpr (agree field member)

end File

/-! ### A file of two row groups -/

theorem footerLibraries_ordered : footerLibraries.values.Ordered where
  between _ _ absent _ := by cases absent
  follow _ absent _ := by cases absent
  months absent := by cases absent
  years absent := by cases absent

def idColumn : ColumnDescriptor := ⟨some 1, ["id"], .int32⟩

def idField : BoundPartitionField where
  partitionField := ⟨1, 1000, "id_part", .identity⟩
  structField := ⟨1, "id", true, .primitive .int, none, none, none⟩

def idSchema : Schema where
  schemaId := 0
  identifierFieldIds := none
  fields := ⟨[idField.structField]⟩

/-- The chunk of a row group with one id. -/
def idChunk (id : UInt8) : ColumnChunkMetaData where
  column := idColumn
  compressedSize := 8
  statistics := some ⟨some 0, none, some [id, 0, 0, 0], some [id, 0, 0, 0]⟩

/-- Two row groups with one id each. -/
def idFile (first second : UInt8) : ParquetMetaData where
  numRows := 2
  keyValueMetadata := none
  columns := [idColumn]
  rowGroups := [⟨1, [idChunk first]⟩, ⟨1, [idChunk second]⟩]
  aligned := by simp [idChunk]

abbrev idContext : CollectContext := collectContext footerLibraries idSchema [idField] ∅ none

theorem fieldOf_idColumn : fieldOf idSchema idColumn = some (1, .primitive .int) := by
  decide +kernel

theorem statedValue_idChunk (id : UInt8) :
    statedValue idContext (·.minBytes) (idChunk id) = some (.int (BitVec.ofNat 32 id.toNat)) ∧
      statedValue idContext (·.maxBytes) (idChunk id) =
        some (.int (BitVec.ofNat 32 id.toNat)) := by
  have field : fieldOf idContext.schema (idChunk id).column = some (1, .primitive .int) :=
    fieldOf_idColumn
  have decodes : fromLeBytes 32 [id, 0, 0, 0] = .ok (BitVec.ofNat 32 id.toNat) := by
    simp [fromLeBytes, ofLeBytes]
  unfold statedValue
  rw [field]
  simp [idChunk, Value.tryFromBytesWithHint, decodes, Except.map, Except.toOption]

theorem exact_idChunk (id : UInt8) :
    ExactStatistics idContext (idChunk id) [some (.int (BitVec.ofNat 32 id.toNat))] := by
  obtain ⟨least, greatest⟩ := statedValue_idChunk id
  refine ⟨rfl, ?_, ?_⟩
  · rw [least]
    refine ⟨List.mem_singleton_self _, fun value member => ?_⟩
    rw [Option.some.inj (List.mem_singleton.mp member)]
    exact AtMost.refl _
  · rw [greatest]
    refine ⟨List.mem_singleton_self _, fun value member => ?_⟩
    rw [Option.some.inj (List.mem_singleton.mp member)]
    exact AtMost.refl _

def idContents (first second : UInt8) : Contents idContext (idFile first second) [idField] where
  chunks := [(idChunk first, [some (.int (BitVec.ofNat 32 first.toNat))]),
    (idChunk second, [some (.int (BitVec.ofNat 32 second.toNat))])]
  all := rfl
  exact := by
    refine List.forall_mem_cons.mpr ⟨fun _ _ _ => exact_idChunk first, ?_⟩
    exact List.forall_mem_cons.mpr ⟨fun _ _ _ => exact_idChunk second,
      fun _ absent => absurd absent List.not_mem_nil⟩

theorem topLevel_idFile (first second : UInt8) :
    TopLevel idContext (idFile first second).columns := by
  intro column member _ _ _ _
  rw [List.mem_singleton.mp member]
  rfl

theorem partitionRight_iff_idFile :
    ∃ dataFile, parquetToDatafile footerLibraries "data/0.parquet" 100 (idFile 7 7) idSchema [idField]
        none ∅ = .ok dataFile ∧
      ((∀ field ∈ [idField], PartitionRight (idContents 7 7) dataFile.partition field) ↔
        ∀ field ∈ [idField], SourceAgrees (idContents 7 7) field) := by
  cases run : parquetToDatafile footerLibraries "data/0.parquet" 100 (idFile 7 7) idSchema [idField]
      none ∅ with
  | error error =>
    have returns : (parquetToDatafile footerLibraries "data/0.parquet" 100 (idFile 7 7) idSchema
      [idField] none ∅).toOption.isSome = true := by decide +kernel
    rw [run] at returns
    cases returns
  | ok dataFile =>
    exact ⟨dataFile, rfl, partitionRight_iff footerLibraries_ordered (by decide)
      (topLevel_idFile 7 7) (idContents 7 7) run⟩

/-- The second row group is not looked at. -/
theorem idFile_wrong :
    ∃ dataFile, parquetToDatafile footerLibraries "data/0.parquet" 100 (idFile 7 8) idSchema [idField]
        none ∅ = .ok dataFile ∧
      ¬ PartitionRight (idContents 7 8) dataFile.partition idField := by
  have value : (parquetToDatafile footerLibraries "data/0.parquet" 100 (idFile 7 8) idSchema
      [idField] none ∅).toOption.map (·.partition.get "id_part") =
        some (some (some (.int 7))) := by decide +kernel
  cases run : parquetToDatafile footerLibraries "data/0.parquet" 100 (idFile 7 8) idSchema [idField]
      none ∅ with
  | error error =>
    rw [run] at value
    cases value
  | ok dataFile =>
    rw [run] at value
    refine ⟨dataFile, rfl, fun right => ?_⟩
    have found : dataFile.partition.get idField.name = some (some (.int 7)) :=
      Option.some.inj value
    unfold PartitionRight at right
    rw [found] at right
    obtain ⟨result, run, same⟩ := hasPartition_some.mp (right (some (.int 8))
      ⟨(idChunk 8, [some (.int 8)]), by decide, ⟨rfl, rfl⟩, List.mem_singleton_self _⟩)
    cases run
    exact absurd same (by decide)

end IcebergRust

import IcebergRust.Catalog.Integrity
import IcebergRust.Catalog.Schemas

/-!
# High-water marks

The last column id, the last partition id, the last sequence number and the next row id
over the commits a catalog accepts, whoever builds them.

* `fieldIds` are the ids of a type, nested ones included; `maxFieldId`, which `AddSchema`
  of an operation carries, is at least each of them.
* `AddSchema` sets the last column id to whatever it carries and `AddSpec` does not touch
  the last partition id, so a mark can fall, or stay behind.  `marksHold_iff` says exactly
  which commits keep the marks.
-/

namespace IcebergRust

open Fallible Optimistic TableTransaction

/-! ### Field ids -/

mutual

/-- The ids of the fields nested in a type. -/
def IcebergType.fieldIds : IcebergType → List Int
  | .primitive _ => []
  | .struct type => type.fieldIds
  | .list ⟨elementId, _, element⟩ => elementId :: element.fieldIds
  | .map ⟨keyId, key, valueId, _, value⟩ => keyId :: valueId :: (key.fieldIds ++ value.fieldIds)
termination_by structural type => type

def StructField.fieldIds : StructField → List Int
  | ⟨id, _, _, fieldType, _, _, _⟩ => id :: fieldType.fieldIds
termination_by structural field => field

def StructType.fieldIds : StructType → List Int
  | ⟨fields⟩ => fieldIdsOf fields
termination_by structural type => type

def fieldIdsOf : List StructField → List Int
  | [] => []
  | field :: fields => field.fieldIds ++ fieldIdsOf fields
termination_by structural fields => fields

end

theorem le_maxOr (id : Int) (nested : Option Int) : id ≤ maxOr id nested := by
  cases nested with
  | none => exact le_refl id
  | some nested => exact le_max_left id nested

theorem mem_le_maxOr {id nested : Int} {largest : Option Int} (bounded : ∃ m ∈ largest, nested ≤ m) :
    nested ≤ maxOr id largest := by
  obtain ⟨m, rfl, below⟩ := bounded
  exact le_trans below (le_max_right id m)

mutual

theorem IcebergType.fieldIds_le : (type : IcebergType) → ∀ id ∈ type.fieldIds,
    ∃ m ∈ type.maxNestedFieldId, id ≤ m
  | .primitive _ => fun _ member => absurd member (by simp [IcebergType.fieldIds])
  | .struct type => StructType.fieldIds_le type
  | .list ⟨elementId, _, element⟩ => by
    intro id member
    refine ⟨_, rfl, ?_⟩
    rcases List.mem_cons.mp member with rfl | nested
    · exact le_maxOr _ _
    · exact mem_le_maxOr (IcebergType.fieldIds_le element id nested)
  | .map ⟨keyId, key, valueId, _, value⟩ => by
    intro id member
    refine ⟨_, rfl, ?_⟩
    rcases List.mem_cons.mp member with rfl | member
    · exact le_trans (le_trans (le_max_left _ valueId) (le_maxOr _ _)) (le_maxOr _ _)
    rcases List.mem_cons.mp member with rfl | member
    · exact le_trans (le_trans (le_max_right keyId _) (le_maxOr _ _)) (le_maxOr _ _)
    rcases List.mem_append.mp member with nested | nested
    · exact le_trans (mem_le_maxOr (IcebergType.fieldIds_le key id nested)) (le_maxOr _ _)
    · exact mem_le_maxOr (IcebergType.fieldIds_le value id nested)
termination_by structural type => type

theorem StructField.fieldIds_le : (field : StructField) → ∀ id ∈ field.fieldIds,
    id ≤ field.maxFieldId
  | ⟨own, _, _, fieldType, _, _, _⟩ => by
    intro id member
    rcases List.mem_cons.mp member with rfl | nested
    · exact le_maxOr _ _
    · exact mem_le_maxOr (IcebergType.fieldIds_le fieldType id nested)
termination_by structural field => field

theorem StructType.fieldIds_le : (type : StructType) → ∀ id ∈ type.fieldIds,
    ∃ m ∈ type.maxFieldId, id ≤ m
  | ⟨fields⟩ => fieldIdsOf_le fields
termination_by structural type => type

theorem fieldIdsOf_le : (fields : List StructField) → ∀ id ∈ fieldIdsOf fields,
    ∃ m ∈ maxFieldIds fields, id ≤ m
  | [] => fun _ member => absurd member (by simp [fieldIdsOf])
  | field :: fields => by
    intro id member
    refine ⟨_, rfl, ?_⟩
    rcases List.mem_append.mp member with here | later
    · exact le_trans (StructField.fieldIds_le field id here) (le_maxOr _ _)
    · exact mem_le_maxOr (fieldIdsOf_le fields id later)
termination_by structural fields => fields

end

/-! ### The marks -/

/-- No mark of the older metadata is above that of the newer. -/
structure MarksRise (older newer : TableMetadata) : Prop where
  column : older.lastColumnId ≤ newer.lastColumnId
  partition : older.lastPartitionId ≤ newer.lastPartitionId
  sequence : older.lastSequenceNumber ≤ newer.lastSequenceNumber
  row : older.nextRowId ≤ newer.nextRowId

theorem MarksRise.refl (metadata : TableMetadata) : MarksRise metadata metadata :=
  ⟨le_refl _, le_refl _, le_refl _, le_refl _⟩

theorem MarksRise.trans (a b c : TableMetadata) (one : MarksRise a b) (two : MarksRise b c) :
    MarksRise a c :=
  ⟨le_trans one.column two.column, le_trans one.partition two.partition,
    le_trans one.sequence two.sequence, le_trans one.row two.row⟩

/-- The marks are at least the ids in use. -/
structure MarksCover (metadata : TableMetadata) : Prop where
  columns : ∀ id schema, metadata.schemas.lookup id = some schema →
    ∀ field ∈ schema.fields.fieldIds, field ≤ metadata.lastColumnId
  partitions : ∀ id spec, metadata.partitionSpecs.lookup id = some spec →
    ∀ field ∈ spec.fields, field.fieldId ≤ metadata.lastPartitionId

/-! ### One commit -/

namespace TableUpdate

/-- The last column id an update sets. -/
def lastColumn : TableUpdate → Option Int
  | .addSchema _ lastColumnId => lastColumnId
  | _ => none

/-- The schema an update binds to an id. -/
def schemaAt (id : Int) : TableUpdate → Option Schema
  | .addSchema schema _ => if schema.schemaId = id then some schema else none
  | _ => none

/-- The spec an update binds to an id. -/
def specAt (id : Int) : TableUpdate → Option PartitionSpec
  | .addSpec spec => if spec.specId = id then some spec else none
  | _ => none

/-- The sequence number of the snapshot an update adds. -/
def sequenceOf : TableUpdate → Option Int
  | .addSnapshot snapshot => some snapshot.sequenceNumber
  | _ => none

end TableUpdate

/-- The last column id after updates: that of the last schema that comes with one. -/
def columnMark (metadata : TableMetadata) (updates : List TableUpdate) : Int :=
  (updates.reverse.findSome? TableUpdate.lastColumn).getD metadata.lastColumnId

/-- What a commit has to meet in the metadata it is applied to: the last column id it sets is not
below the present one nor any field of a schema it leaves bound, its specs use no new partition
field ids, and in version 1 its last snapshot does not set the sequence number back. -/
structure RaisesMarks (metadata : TableMetadata) (updates : List TableUpdate) : Prop where
  column : metadata.lastColumnId ≤ columnMark metadata updates
  schemas : ∀ id schema, updates.reverse.findSome? (TableUpdate.schemaAt id) = some schema →
    ∀ field ∈ schema.fields.fieldIds, field ≤ columnMark metadata updates
  specs : ∀ id spec, updates.reverse.findSome? (TableUpdate.specAt id) = some spec →
    ∀ field ∈ spec.fields, field.fieldId ≤ metadata.lastPartitionId
  sequence : metadata.formatVersion = .v1 →
    ∀ sequence, updates.reverse.findSome? TableUpdate.sequenceOf = some sequence →
      metadata.lastSequenceNumber ≤ sequence

/-- What is known of the marks and of what they cover after a prefix of the updates. -/
structure Marked (metadata : TableMetadata) (done : List TableUpdate) (state : ApplyState) :
    Prop where
  formatVersion : state.metadata.formatVersion = metadata.formatVersion
  column : state.metadata.lastColumnId = columnMark metadata done
  partition : state.metadata.lastPartitionId = metadata.lastPartitionId
  last : state.metadata.lastSequenceNumber =
    (done.reverse.findSome? TableUpdate.sequenceOf).getD metadata.lastSequenceNumber
  sequence : metadata.formatVersion ≠ .v1 →
    metadata.lastSequenceNumber ≤ state.metadata.lastSequenceNumber
  row : metadata.nextRowId ≤ state.metadata.nextRowId
  schemas : ∀ id, state.metadata.schemas.lookup id =
    (done.reverse.findSome? (TableUpdate.schemaAt id)).or (metadata.schemas.lookup id)
  specs : ∀ id, state.metadata.partitionSpecs.lookup id =
    (done.reverse.findSome? (TableUpdate.specAt id)).or (metadata.partitionSpecs.lookup id)

variable {metadata : TableMetadata}

/-- The row ids of a snapshot begin at the mark or above it. -/
theorem nextRowId_le {snapshot : Snapshot} {nextRowId : Int}
    (run : snapshotNextRowId metadata snapshot = .ok nextRowId) :
    metadata.nextRowId ≤ nextRowId := by
  simp only [snapshotNextRowId] at run
  split at run
  · cases run
    exact le_refl _
  · split at run
    · cases run
    · cases run
    · simp only [guard_eq_ok, checkedAddI64] at run
      obtain ⟨signs, order, run⟩ := run
      split at run
      · cases run
        omega
      · cases run

theorem lookup_insert_or {β : Type} {map base : HashMap Int β} {key id : Int} {value : β}
    {found : Option β} (here : map.lookup id = found.or (base.lookup id)) :
    (map.insert key value).lookup id =
      ((if key = id then some value else none).or found).or (base.lookup id) := by
  by_cases same : key = id
  · simp [same]
  · rw [AList.lookup_insert_ne (Ne.symm same), here, if_neg same, Option.none_or]

theorem findSome?_snoc {α : Type} (f : TableUpdate → Option α) (done : List TableUpdate)
    (update : TableUpdate) :
    (done ++ [update]).reverse.findSome? f = (f update).or (done.reverse.findSome? f) := by
  rw [List.reverse_append]
  cases found : f update <;> simp [found]

theorem Marked.step {done : List TableUpdate} {update : TableUpdate} {state next : ApplyState}
    (here : Marked metadata done state) (applied : Applied state update next) :
    Marked metadata (done ++ [update]) next where
  formatVersion := by cases applied <;> exact here.formatVersion
  partition := by cases applied <;> exact here.partition
  column := by
    have column := here.column
    rw [columnMark] at column ⊢
    rw [findSome?_snoc]
    cases applied with
    | schema schema lastColumnId =>
      cases lastColumnId with
      | none => exact column
      | some lastColumnId => rfl
    | _ => exact column
  last := by
    rw [findSome?_snoc]
    cases applied with
    | snapshot snapshot nextRowId advances lineage => rfl
    | _ => exact here.last
  sequence versioned := by
    cases applied with
    | snapshot snapshot nextRowId advances lineage =>
      have above := advances (by rwa [here.formatVersion])
      exact le_trans (here.sequence versioned) (le_of_lt above)
    | _ => exact here.sequence versioned
  row := by
    cases applied with
    | snapshot snapshot nextRowId advances lineage => exact le_trans here.row (nextRowId_le lineage)
    | _ => exact here.row
  schemas id := by
    rw [findSome?_snoc]
    cases applied with
    | schema schema lastColumnId => exact lookup_insert_or (here.schemas id)
    | _ => exact here.schemas id
  specs id := by
    rw [findSome?_snoc]
    cases applied with
    | spec spec => exact lookup_insert_or (here.specs id)
    | _ => exact here.specs id

theorem applyTableUpdates_marked {after : TableMetadata} {updates : List TableUpdate} {now : Int}
    (run : applyTableUpdates metadata updates now = .ok after) :
    ∃ state, Marked metadata updates state ∧ after = { state.metadata with lastUpdatedMs := now } :=
  applyTableUpdates_prefix (Marked metadata) (fun _ _ _ _ here applied => here.step applied) run
    ⟨rfl, rfl, rfl, rfl, fun _ => le_refl _, le_refl _, fun _ => rfl, fun _ => rfl⟩

/-- A commit keeps the marks of covered metadata exactly if it raises them. -/
theorem raisesMarks_iff {after : TableMetadata} {updates : List TableUpdate} {now : Int}
    (covers : MarksCover metadata) (run : applyTableUpdates metadata updates now = .ok after) :
    MarksRise metadata after ∧ MarksCover after ↔ RaisesMarks metadata updates := by
  obtain ⟨state, marked, rfl⟩ := applyTableUpdates_marked run
  constructor
  · rintro ⟨rise, cover⟩
    constructor
    · rw [← marked.column]
      exact rise.column
    · intro id schema bound field member
      rw [← marked.column]
      refine cover.columns id schema ?_ field member
      exact (marked.schemas id).trans (by rw [bound, Option.some_or])
    · intro id spec bound field member
      rw [← marked.partition]
      refine cover.partitions id spec ?_ field member
      exact (marked.specs id).trans (by rw [bound, Option.some_or])
    · intro _ sequence added
      have last := marked.last
      rw [added, Option.getD_some] at last
      rw [← last]
      exact rise.sequence
  · intro raises
    have columns : metadata.lastColumnId ≤ state.metadata.lastColumnId := by
      rw [marked.column]
      exact raises.column
    refine ⟨⟨columns, le_of_eq marked.partition.symm, ?_, marked.row⟩, ?_, ?_⟩
    · by_cases version : metadata.formatVersion = .v1
      · show _ ≤ state.metadata.lastSequenceNumber
        rw [marked.last]
        cases added : updates.reverse.findSome? TableUpdate.sequenceOf with
        | none => exact le_refl _
        | some sequence => exact raises.sequence version sequence added
      · exact marked.sequence version
    · intro id schema bound field member
      rw [marked.schemas] at bound
      cases own : updates.reverse.findSome? (TableUpdate.schemaAt id) with
      | none =>
        rw [own, Option.none_or] at bound
        exact le_trans (covers.columns id schema bound field member) columns
      | some added =>
        rw [own, Option.some_or] at bound
        cases bound
        show field ≤ state.metadata.lastColumnId
        rw [marked.column]
        exact raises.schemas id schema own field member
    · intro id spec bound field member
      show field.fieldId ≤ state.metadata.lastPartitionId
      rw [marked.partition]
      rw [marked.specs] at bound
      cases own : updates.reverse.findSome? (TableUpdate.specAt id) with
      | none =>
        rw [own, Option.none_or] at bound
        exact covers.partitions id spec bound field member
      | some added =>
        rw [own, Option.some_or] at bound
        cases bound
        exact raises.specs id spec own field member

/-! ### Runs -/

/-- A catalog that is sent any commits, and accepts them as a table's catalog does. -/
def catalogProtocol : Protocol TableMetadata Unit CommitTable CommitTable Int where
  prepare commit _ _ := some ((), some commit)
  apply commit now metadata :=
    if checkTableRequirements commit.requirements metadata then
      (applyTableUpdates metadata commit.updates now).toOption
    else none

/-- The metadata a catalog has accepted. -/
def runCatalog (initial : TableMetadata) (events : List (Event CommitTable Int)) :
    State TableMetadata Unit CommitTable CommitTable Int :=
  run catalogProtocol (.start initial ()) events

/-- No mark is ever lower than before, and each covers the ids in use. -/
structure MarksHold (versions : List TableMetadata) : Prop where
  rise : versions.Pairwise fun newer older => MarksRise older newer
  cover : ∀ version ∈ versions, MarksCover version

/-- In the metadata versions that accepted commits leave, whatever they are built from, the marks
hold exactly if every accepted commit raises them. -/
theorem marksHold_iff (initial : TableMetadata) (events : List (Event CommitTable Int))
    (covers : MarksCover initial) :
    MarksHold (runCatalog initial events).versions ↔
      ∀ entry ∈ (runCatalog initial events).accepted,
        RaisesMarks entry.current entry.proposal.commit.updates := by
  have history : History catalogProtocol initial (runCatalog initial events).accepted :=
    history_run initial () events
  have begun : (runCatalog initial events).initial = initial := run_initial _ events
  rw [State.versions, begun]
  generalize (runCatalog initial events).accepted = accepted at history
  have pairwise := history.pairwise_iff MarksRise MarksRise.refl MarksRise.trans
  have applied : ∀ entry ∈ accepted, entry.current ∈ versions initial accepted ∧
      applyTableUpdates entry.current entry.proposal.commit.updates entry.environment =
        .ok entry.next := by
    intro entry member
    obtain ⟨later, past, split⟩ := List.append_of_mem member
    rw [split] at history ⊢
    obtain ⟨here, -, -, accepts⟩ := history.entry_spec
    constructor
    · rw [here, versions, List.map_append, List.append_assoc]
      exact List.mem_append_right _ (List.mem_cons_of_mem _ (latest_mem_versions initial past))
    · simp only [catalogProtocol] at accepts
      split at accepts
      · exact toOption_eq_some.mp accepts
      · cases accepts
  constructor
  · rintro ⟨rise, cover⟩ entry member
    obtain ⟨known, run⟩ := applied entry member
    have next : entry.next ∈ versions initial accepted :=
      List.mem_append_left _ (List.mem_map_of_mem member)
    exact (raisesMarks_iff (cover _ known) run).mp ⟨pairwise.mp rise entry member, cover _ next⟩
  · intro raises
    have cover := history.invariant MarksCover covers fun entry member here =>
      ((raisesMarks_iff here (applied entry member).2).mpr (raises entry member)).2
    refine ⟨pairwise.mpr fun entry member => ?_, cover⟩
    obtain ⟨known, run⟩ := applied entry member
    exact ((raisesMarks_iff (cover _ known) run).mpr (raises entry member)).1

/-! ### A dropped column -/

/-- The commit of an `AddSchema` operation. -/
def schemaCommit (schema : Schema) : CommitTable :=
  ⟨[.assertTableUuid ⟨1⟩], [.addSchema schema schema.fields.maxFieldId]⟩

theorem longTable_covered (formatVersion : FormatVersion) : MarksCover (longTable formatVersion) where
  columns id schema bound field member := by
    have only : (id, schema) ∈ (longTable formatVersion).schemas.iter :=
      HashMap.mem_iter_iff.mpr bound
    obtain ⟨rfl, rfl⟩ := Prod.mk.inj (List.mem_singleton.mp only)
    simp [StructType.fieldIds, fieldIdsOf, StructField.fieldIds, IcebergType.fieldIds] at member
    exact le_of_eq member
  partitions id spec bound field member := by
    have only : (id, spec) ∈ (longTable formatVersion).partitionSpecs.iter :=
      HashMap.mem_iter_iff.mpr bound
    obtain ⟨rfl, rfl⟩ := Prod.mk.inj (List.mem_singleton.mp only)
    exact absurd member List.not_mem_nil

theorem marksHold_iff_addColumn :
    MarksHold (runCatalog (longTable .v2)
        [.prepare 0 (schemaCommit (withColumn "y")), .send 0 1]).versions ↔
      ∀ entry ∈ (runCatalog (longTable .v2)
          [.prepare 0 (schemaCommit (withColumn "y")), .send 0 1]).accepted,
        RaisesMarks entry.current entry.proposal.commit.updates :=
  marksHold_iff (longTable .v2) [.prepare 0 (schemaCommit (withColumn "y")), .send 0 1]
    (longTable_covered .v2)

/-- A column is added and then dropped: the last column id falls back, below a field of a schema
that is still there. -/
theorem dropped_column_lowers_mark :
    ¬ MarksHold (runCatalog (longTable .v2)
      [.prepare 0 (schemaCommit (withColumn "y")), .send 0 1,
        .prepare 0 (schemaCommit ⟨2, none, ⟨[⟨1, "x", true, .primitive .long, none, none, none⟩]⟩⟩),
        .send 0 2]).versions := by
  intro hold
  have rise := List.pairwise_iff_getElem.mp hold.rise 0 1 (by decide) (by decide) (by decide)
  exact absurd rise.column (by decide)

end IcebergRust

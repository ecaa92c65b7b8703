import IcebergRust.Lib.Fallible
import IcebergRust.Spec.Value
import IcebergRust.Table.Manifest

/-!
# Partition tuples in manifests

A partition tuple is written under the Avro record of `partition_value_schema`, read back as
untagged values, and cast to the types of the partition fields by `Struct::cast`.

* `ManifestLibraries` is the Avro library, with what is known of it in `Lawful`.
* `restored_iff` decides for one value whether it survives: a `Time` that fits an `int` comes
  back as `Int`, which has no cast to `time`, and every `Double` passes through a float.
* `partition_survives_iff` is the statement for a tuple: the reader also rejects every tuple of
  a spec with a void field, which the writer accepts.
-/

namespace IcebergRust

open Fallible Interchange PartitionValue Value

/-! ### The Avro library -/

/-- A value as `Serialize` hands it to Avro: the primitive values a partition column holds. -/
inductive AvroValue where
  | boolean (value : Bool)
  | int (value : BitVec 32)
  | long (value : BitVec 64)
  | float (value : Word .binary32)
  | double (value : Word .binary64)
  | string (text : String)
deriving DecidableEq

/-- The name of the Avro type of a value. -/
def AvroValue.typeName : AvroValue → String
  | .boolean _ => "boolean"
  | .int _ => "int"
  | .long _ => "long"
  | .float _ => "float"
  | .double _ => "double"
  | .string _ => "string"

/-- The names of Avro's primitive types. -/
def avroPrimitives : List String :=
  ["null", "boolean", "int", "long", "float", "double", "bytes", "string"]

/-- A cell of a row that is of its column: of its name, and null or of its type. -/
def AvroMatches (column : String × String) (cell : String × Option AvroValue) : Prop :=
  cell.1 = column.1 ∧ ∀ value, cell.2 = some value → value.typeName = column.2

/-- The Avro library, for records of nullable columns given by their names and types; and the
operations on values that a stored tuple does not go through. -/
class ManifestLibraries where
  /-- `AvroSchema::parse_str`. -/
  parseStr : List (String × String) → Except Error Unit
  /-- Writing a row under a schema and reading it back. -/
  store : List (String × String) → List (String × Option AvroValue) →
    Except Error (List (String × Option AvroValue))
  others : PartitionValue Value

/-- What is known of the Avro library: the columns of a schema have distinct names and known
types, and rows of a schema are stored as they are. -/
structure ManifestLibraries.Lawful (libraries : ManifestLibraries) : Prop where
  names : ∀ columns, libraries.parseStr columns = .ok () → (columns.map (·.1)).Nodup
  types : ∀ columns, libraries.parseStr columns = .ok () →
    ∀ column ∈ columns, column.2 ∈ avroPrimitives
  roundTrip : ∀ columns, libraries.parseStr columns = .ok () →
    ∀ row, List.Forall₂ AvroMatches columns row → libraries.store columns row = .ok row

/-- `avro_schema_datatype`. -/
def avroSchemaDatatype : IcebergType → IcebergType
  | .primitive .date => .primitive .int
  | .primitive .time => .primitive .long
  | .primitive .timestamp => .primitive .long
  | .primitive .timestamptz => .primitive .long
  | .primitive .timestampNs => .primitive .long
  | .primitive .timestamptzNs => .primitive .long
  | type => type

/-- The column of the Avro record for a partition column. -/
def avroColumn (column : String × IcebergType) : String × String :=
  (column.1, (avroSchemaDatatype column.2).display)

namespace Value

/-- `Serialize` of a value; the other variants are of no type a column is declared with. -/
def toAvro : Value → Option AvroValue
  | .boolean value => some (.boolean value)
  | .int value => some (.int value)
  | .longInt value => some (.long value)
  | .float value => some (.float value)
  | .double value => some (.double value)
  | .date days => some (.int days)
  | .time micros => some (.long micros)
  | .timestamp micros => some (.long micros)
  | .timestampTZ micros => some (.long micros)
  | .timestampNano nanos => some (.long nanos)
  | .timestampTZNano nanos => some (.long nanos)
  | .string text => some (.string text)
  | .uuid _ => none
  | .fixed _ _ => none
  | .binary _ => none
  | .decimal _ => none

/-- The values of an `i64` that an `i32` holds. -/
def FitsInt (value : BitVec 64) : Prop := -2 ^ 31 ≤ value.toInt ∧ value.toInt < 2 ^ 31

instance (value : BitVec 64) : Decidable (FitsInt value) :=
  inferInstanceAs (Decidable (_ ∧ _))

/-- Untagged decoding: the first variant of `Value` that accepts the Avro value.  `Int` takes
the longs that fit, and `Float` takes every double. -/
def untagged : AvroValue → Value
  | .boolean value => .boolean value
  | .int value => .int value
  | .long value => if FitsInt value then .int (value.truncate 32) else .longInt value
  | .float value => .float value
  | .double value => .float (value.convert .binary32)
  | .string text => .string text

/-- A cell of a tuple as Avro stores it. -/
def toCell (column : String × Option Value) : Except Error (String × Option AvroValue) :=
  match column.2 with
  | none => .ok (column.1, none)
  | some value =>
    match value.toAvro with
    | some stored => .ok (column.1, some stored)
    | none => .error (.avro "partition")

end Value

instance Value.partitionValue [libraries : ManifestLibraries] : PartitionValue Value where
  __ := libraries.others
  datatype := Value.datatype
  promoteIceberg := Value.promoteIceberg
  castPartition := Value.castPartition
  parsePartitionSchema columns := libraries.parseStr (columns.map avroColumn)
  encodePartition columns tuple := do
    let row ← tuple.fields.mapM Value.toCell
    let stored ← libraries.store (columns.map avroColumn) row
    .ok ⟨stored.map fun cell => (cell.1, cell.2.map Value.untagged)⟩

/-! ### One value -/

namespace Value

/-- A value of a type.  Values know the scale of a decimal but not its precision. -/
def HasType : Value → IcebergType → Prop
  | .decimal value, .primitive (.decimal precision scale) =>
    decimalFits value precision scale = .ok true
  | value, type => value.datatype = type

theorem unitsOf_hasType {libraries : Libraries} {micros unit : Int} {result : Value}
    (run : unitsOf libraries micros unit = .ok result) : result.HasType (.primitive .int) := by
  obtain ⟨found, -, counted⟩ := bind_eq_ok.mp run
  cases counted
  rfl

variable {type : IcebergType}

/-- A partition value is of the result type of its transform. -/
theorem transform_hasType {libraries : Libraries} {value result : Value} {resultType : IcebergType}
    {transform : Transform} (typed : value.HasType type)
    (run : value.transform libraries transform = .ok result)
    (tranform : type.tranform transform = .ok resultType) : result.HasType resultType := by
  cases transform with
  | identity =>
    cases run
    cases tranform
    exact typed
  | bucket n =>
    cases tranform
    obtain ⟨-, bucket⟩ := guard_eq_ok.mp run
    cases bucket
    rfl
  | truncate width =>
    cases tranform
    simp only [transform] at run
    split at run
    · obtain ⟨cut, -, rfl⟩ := map_eq_ok.mp run
      exact typed
    · obtain ⟨cut, -, rfl⟩ := map_eq_ok.mp run
      exact typed
    · obtain ⟨cut, -, rfl⟩ := map_eq_ok.mp run
      exact typed
    · cases run
  | year =>
    cases tranform
    simp only [transform] at run
    split at run
    · obtain ⟨found, -, rfl⟩ := map_eq_ok.mp run
      rfl
    · cases run
  | month =>
    cases tranform
    simp only [transform] at run
    split at run
    · obtain ⟨found, -, rfl⟩ := map_eq_ok.mp run
      rfl
    · cases run
  | day =>
    cases tranform
    simp only [transform] at run
    split at run
    · cases run
      rfl
    · exact unitsOf_hasType run
    · exact unitsOf_hasType run
    · cases run
      rfl
    · cases run
      rfl
    · cases run
  | hour =>
    cases tranform
    simp only [transform] at run
    split at run
    · exact unitsOf_hasType run
    · exact unitsOf_hasType run
    · cases run
      rfl
    · cases run
      rfl
    · cases run
  | void => cases run

/-- The types a column of an accepted schema has. -/
def Declared (type : IcebergType) : Prop := (avroSchemaDatatype type).display ∈ avroPrimitives

/-- A value of a declared type is stored as a value of its column. -/
theorem toAvro_of_hasType {value : Value} (typed : value.HasType type) (declared : Declared type) :
    ∃ stored, value.toAvro = some stored ∧
      stored.typeName = (avroSchemaDatatype type).display := by
  cases value with
  | uuid | fixed | binary =>
    cases typed
    exact absurd declared (by simp [Declared, avroSchemaDatatype, datatype, IcebergType.display,
      PrimitiveType.display, avroPrimitives])
  | decimal value =>
    have scaled : ∃ precision scale, type = .primitive (.decimal precision scale) := by
      unfold HasType at typed
      split at typed
      · exact ⟨_, _, rfl⟩
      · exact ⟨_, _, typed.symm⟩
    obtain ⟨precision, scale, rfl⟩ := scaled
    exact absurd declared (by simp [Declared, avroSchemaDatatype, IcebergType.display,
      PrimitiveType.display, avroPrimitives])
  | _ =>
    cases typed
    exact ⟨_, rfl, rfl⟩

/-- What of a partition value the manifest keeps. -/
def Storable : Value → Prop
  | .time micros => ¬ FitsInt micros
  | .double value => value.isNan = true ∨
      ∃ narrow : Word .binary32, narrow.convert .binary64 = value
  | _ => True

theorem signExtend_truncate {value : BitVec 64} (fits : FitsInt value) :
    (value.truncate 32).signExtend 64 = value := by
  apply BitVec.eq_of_toInt_eq
  rw [BitVec.toInt_signExtend_of_le (by decide), BitVec.truncate_eq_setWidth,
    BitVec.toInt_setWidth]
  obtain ⟨low, high⟩ := fits
  have range := value.isLt
  rw [BitVec.toInt_eq_toNat_cond] at low high ⊢
  rw [Int.bmod_def]
  split at low <;> split <;> omega

theorem untagged_long (value : BitVec 64) : untagged (.long value) =
    if FitsInt value then .int (value.truncate 32) else .longInt value := rfl

/-- A long comes back as a value of its timestamp type, however small it is. -/
theorem castPartition_untagged_long {value : BitVec 64} {result : Value}
    (small : ∀ int : BitVec 32, castPartition (.int int) type =
      castPartition (.longInt (int.signExtend 64)) type)
    (large : castPartition (.longInt value) type = .ok result) :
    (untagged (.long value)).castPartition type = .ok result := by
  rw [untagged_long]
  split
  · rename_i fits
    rw [small, signExtend_truncate fits]
    exact large
  · exact large

/-- A stored value comes back as it was exactly where it is storable. -/
theorem restored_iff {value : Value} (typed : value.HasType type) (declared : Declared type)
    {stored : AvroValue} (written : value.toAvro = some stored) :
    (∃ restored, (untagged stored).castPartition type = .ok restored ∧
      restored.same value = true) ↔ value.Storable := by
  cases value with
  | uuid | fixed | binary | decimal => cases written
  | time micros =>
    cases typed
    cases written
    rw [untagged_long]
    split
    · rename_i fits
      exact iff_of_false (by rintro ⟨restored, cast, -⟩; cases cast) (fun large => large fits)
    · rename_i large
      exact iff_of_true ⟨_, rfl, same_refl _⟩ large
  | double value =>
    cases typed
    cases written
    have cast : (untagged (.double value)).castPartition (.primitive .double) =
      .ok (.double ((value.convert .binary32).convert .binary64)) := rfl
    rw [datatype, cast]
    simp only [Except.ok.injEq, exists_eq_left', same, Storable]
    exact Word.same_convert_convert_iff embeds_binary32 (by decide) value
  | longInt value =>
    cases typed
    cases written
    exact iff_of_true ⟨_, castPartition_untagged_long (fun _ => rfl) rfl, same_refl _⟩ trivial
  | timestamp value | timestampTZ value | timestampNano value | timestampTZNano value =>
    cases typed
    cases written
    exact iff_of_true ⟨_, castPartition_untagged_long (fun _ => rfl) rfl, same_refl _⟩ trivial
  | _ =>
    cases typed
    cases written
    exact iff_of_true ⟨_, rfl, same_refl _⟩ trivial

end Value

/-! ### Tuples -/

namespace Struct

/-- `PartialEq` of two cells. -/
def SameCell : Option Value → Option Value → Prop
  | some a, some b => a.same b = true
  | none, none => True
  | _, _ => False

/-- The same columns in the same order, with the same values of the same variants. -/
def Same (a b : Struct Value) : Prop :=
  List.Forall₂ (fun x y => x.1 = y.1 ∧ SameCell x.2 y.2) a.fields b.fields

/-- A tuple of partition values: in the column of each field nothing, or the transform of a
value of its source column. -/
def Produced (libraries : Value.Libraries) (fields : List BoundPartitionField)
    (tuple : Struct Value) : Prop :=
  List.Forall₂ (fun field column => column.1 = field.name ∧ ∀ value, column.2 = some value →
    ∃ source, Value.HasType source field.fieldType ∧
      source.transform libraries field.transform = .ok value) fields tuple.fields

/-- A cell of a column: of its name, and null or of its type. -/
def TypedCell (column : String × IcebergType) (cell : String × Option Value) : Prop :=
  cell.1 = column.1 ∧ ∀ value, cell.2 = some value → value.HasType column.2

/-- The result type of a partition field. -/
def resultType (field : BoundPartitionField) : Except Error (String × IcebergType) :=
  (field.fieldType.tranform field.transform).map fun type => (field.name, type)

variable {bound : List BoundPartitionField} {types columns : List (String × IcebergType)}

/-- `Struct::cast` expects the result types of the bound fields. -/
theorem castTypes_eq {spec : PartitionSpec} {schema : Schema}
    (binds : partitionFields spec schema = .ok bound) :
    castTypes schema.fields spec.fields = bound.mapM resultType := by
  have related := mapM_eq_ok.mp binds
  clear binds
  unfold castTypes
  generalize spec.fields = fields at related ⊢
  induction related with
  | nil => rfl
  | cons here _ ih =>
    rename_i field boundField _ _ _
    have source : schema.fields.get field.sourceId = some boundField.structField ∧
        boundField.partitionField = field := by
      split at here
      · cases here
      · rename_i column found
        cases here
        exact ⟨found, rfl⟩
    rw [List.mapM_cons, List.mapM_cons, ih, source.1, ← source.2]
    rfl

/-- Without void fields these are the types the tuple is written under. -/
theorem partitionValueSchema_eq (noVoid : ∀ field ∈ bound, field.transform ≠ .void) :
    partitionValueSchema bound = bound.mapM resultType := by
  unfold partitionValueSchema
  induction bound with
  | nil => rfl
  | cons field bound ih =>
    have here := noVoid field List.mem_cons_self
    rw [List.mapM_cons, List.mapM_cons,
      ih fun other member => noVoid other (List.mem_cons_of_mem _ member)]
    unfold resultType
    split
    · rename_i void
      exact absurd void here
    · rfl

/-- The reader rejects every tuple of a spec with a void field. -/
theorem noVoid_of_resultTypes (run : bound.mapM resultType = .ok types) :
    ∀ field ∈ bound, field.transform ≠ .void := by
  intro field member void
  obtain ⟨type, -, result⟩ := exists_of_mem_forall₂ (mapM_eq_ok.mp run).flip member
  unfold resultType at result
  rw [void] at result
  cases result

variable {tuple : Struct Value} {column : String × IcebergType}

/-- A produced tuple is typed by the schema it is written under. -/
theorem Produced.typed {libraries : Value.Libraries} (produced : Produced libraries bound tuple)
    (accepted : partitionValueSchema bound = .ok columns) :
    List.Forall₂ TypedCell columns tuple.fields := by
  have related := mapM_eq_ok.mp accepted
  unfold Produced at produced
  generalize tuple.fields = fields at produced ⊢
  clear accepted
  induction related generalizing fields with
  | nil =>
    cases produced
    exact .nil
  | cons here _ ih =>
    rename_i field column bound columns later
    cases produced with
    | cons first rest =>
      refine .cons ?_ (ih _ rest)
      obtain ⟨named, values⟩ := first
      split at here
      · rename_i void
        cases here
        refine ⟨named, ?_⟩
        intro value present
        obtain ⟨source, -, run⟩ := values value present
        rw [void] at run
        cases run
      · obtain ⟨type, tranform, rfl⟩ := map_eq_ok.mp here
        refine ⟨named, ?_⟩
        intro value present
        obtain ⟨source, typed, run⟩ := values value present
        exact transform_hasType typed run tranform

/-- A stored cell as the reader decodes it. -/
def decodeCell (cell : String × Option AvroValue) : String × Option Value :=
  (cell.1, cell.2.map Value.untagged)

theorem toCell_name {cell : String × Option Value} {stored : String × Option AvroValue}
    (written : toCell cell = .ok stored) : stored.1 = cell.1 := by
  unfold toCell at written
  split at written
  · cases written
    rfl
  · split at written
    · cases written
      rfl
    · cases written

/-- A typed row is stored, each cell as one of its column. -/
theorem exists_row {fields : List (String × Option Value)}
    (typed : List.Forall₂ TypedCell columns fields)
    (declared : ∀ column ∈ columns, Value.Declared column.2) :
    ∃ row, fields.mapM toCell = .ok row ∧
      List.Forall₂ AvroMatches (columns.map avroColumn) row := by
  induction typed with
  | nil => exact ⟨[], rfl, .nil⟩
  | cons here _ ih =>
    rename_i column cell columns fields _
    obtain ⟨row, run, matched⟩ := ih fun other member =>
      declared other (List.mem_cons_of_mem _ member)
    obtain ⟨name, value⟩ := cell
    obtain ⟨named, values⟩ := here
    cases value with
    | none =>
      refine ⟨(name, none) :: row, ?_, ?_⟩
      · rw [List.mapM_cons, run]
        rfl
      · exact .cons ⟨named, fun _ absent => nomatch absent⟩ matched
    | some value =>
      obtain ⟨stored, written, typeName⟩ :=
        toAvro_of_hasType (values value rfl) (declared column List.mem_cons_self)
      refine ⟨(name, some stored) :: row, ?_, ?_⟩
      · rw [List.mapM_cons, run]
        simp only [toCell, written]
        rfl
      · refine .cons ⟨named, ?_⟩ matched
        intro other same
        cases same
        exact typeName

/-- With distinct names a column finds its type. -/
theorem find_type (distinct : (types.map (·.1)).Nodup) (member : column ∈ types) :
    types.reverse.find? (fun entry => entry.1 = column.1) = some column := by
  cases found : types.reverse.find? (fun entry => entry.1 = column.1) with
  | none =>
    have absent := List.find?_eq_none.mp found column (List.mem_reverse.mpr member)
    exact absurd (decide_eq_true rfl) absent
  | some other =>
    have named : other.1 = column.1 := by simpa using List.find?_some found
    have within := List.mem_reverse.mp (List.mem_of_find?_eq_some found)
    rw [List.inj_on_of_nodup_map distinct within member named]

variable [libraries : ManifestLibraries]

/-- The cast of a column that has a type and that no later one repeats. -/
theorem castColumn_eq {later : List (String × Option Value)} {name : String}
    (last : ∀ other ∈ later, other.1 ≠ name)
    (type : types.reverse.find? (fun entry => entry.1 = name) = some column) (value : Option Value) :
    castColumn types later (name, value) = match value with
      | none => .ok (name, none)
      | some value => (value.castPartition column.2).map fun cast => (name, some cast) := by
  have single : ¬ (later.any fun other => other.1 = name) = true := by
    intro repeated
    obtain ⟨other, member, same⟩ := List.any_eq_true.mp repeated
    exact last other member (of_decide_eq_true same)
  unfold castColumn
  rw [if_neg single]
  simp only [type]
  cases value <;> rfl

/-- The cast of one stored cell gives the cell back exactly where its value is storable. -/
theorem castColumn_decodeCell_iff (distinct : (types.map (·.1)).Nodup) (member : column ∈ types)
    (declared : Value.Declared column.2) {cell : String × Option Value}
    (typed : TypedCell column cell) {later : List (String × Option Value)}
    (last : ∀ other ∈ later, other.1 ≠ cell.1) {stored : String × Option AvroValue}
    (written : toCell cell = .ok stored) :
    (∃ result, castColumn types later (decodeCell stored) = .ok result ∧
      result.1 = cell.1 ∧ SameCell result.2 cell.2) ↔
      ∀ value, cell.2 = some value → value.Storable := by
  obtain ⟨name, value⟩ := cell
  obtain ⟨named, values⟩ := typed
  have type := find_type distinct member
  rw [← named] at type
  cases value with
  | none =>
    cases written
    exact iff_of_true ⟨(name, none), castColumn_eq last type none, rfl, trivial⟩
      (fun _ absent => nomatch absent)
  | some value =>
    obtain ⟨avro, form, -⟩ := toAvro_of_hasType (values value rfl) declared
    simp only [toCell, form] at written
    cases written
    have cast : castColumn types later (decodeCell (name, some avro)) =
        ((untagged avro).castPartition column.2).map fun cast => (name, some cast) :=
      castColumn_eq last type _
    rw [cast]
    constructor
    · rintro ⟨result, run, -, same⟩ other present
      cases present
      obtain ⟨restored, here, rfl⟩ := map_eq_ok.mp run
      exact (restored_iff (values value rfl) declared form).mp ⟨restored, here, same⟩
    · intro storable
      obtain ⟨restored, here, same⟩ :=
        (restored_iff (values value rfl) declared form).mpr (storable value rfl)
      exact ⟨(name, some restored), map_eq_ok.mpr ⟨restored, here, rfl⟩, rfl, same⟩

/-- The cast of a stored row gives the tuple back exactly where all its values are storable. -/
theorem castColumns_decodeCell_iff (distinct : (types.map (·.1)).Nodup)
    (declared : ∀ column ∈ types, Value.Declared column.2) (suffix : columns <:+ types)
    {fields : List (String × Option Value)} (typed : List.Forall₂ TypedCell columns fields)
    {row : List (String × Option AvroValue)} (written : fields.mapM toCell = .ok row) :
    (∃ result, castColumns types (row.map decodeCell) = .ok result ∧
      List.Forall₂ (fun x y => x.1 = y.1 ∧ SameCell x.2 y.2) result fields) ↔
      ∀ column ∈ fields, ∀ value, column.2 = some value → value.Storable := by
  induction typed generalizing row with
  | nil =>
    cases mapM_eq_ok.mp written
    exact iff_of_true ⟨[], rfl, .nil⟩ (fun _ absent => absurd absent List.not_mem_nil)
  | cons here rest ih =>
    rename_i column cell columns fields
    cases mapM_eq_ok.mp written with
    | cons stored others =>
      rename_i first row
      have member : column ∈ types := suffix.subset List.mem_cons_self
      have tail := ih ((List.suffix_cons _ _).trans suffix) (mapM_eq_ok.mpr others)
      -- The names of the later cells are those of the later columns.
      have last : ∀ other ∈ row.map decodeCell, other.1 ≠ cell.1 := by
        intro other within same
        obtain ⟨avro, avroWithin, rfl⟩ := List.mem_map.mp within
        obtain ⟨source, sourceWithin, kept⟩ := exists_of_mem_forall₂ others avroWithin
        obtain ⟨twin, twinWithin, typedTwin⟩ := exists_of_mem_forall₂ rest sourceWithin
        have names := (distinct.sublist (suffix.sublist.map (·.1)))
        rw [List.map_cons, List.nodup_cons] at names
        apply names.1
        rw [← here.1, ← same, show (decodeCell avro).1 = source.1 from toCell_name kept,
          typedTwin.1]
        exact List.mem_map_of_mem twinWithin
      have head := castColumn_decodeCell_iff distinct member (declared column member) here last
        stored
      rw [List.forall_mem_cons, ← head, ← tail]
      constructor
      · rintro ⟨result, run, same⟩
        obtain ⟨head, headRun, rest⟩ := bind_eq_ok.mp run
        obtain ⟨tail, tailRun, whole⟩ := bind_eq_ok.mp rest
        cases whole
        cases same with
        | cons sameHead sameTail =>
          exact ⟨⟨head, headRun, sameHead⟩, tail, tailRun, sameTail⟩
      · rintro ⟨⟨result, run, same⟩, results, runs, sames⟩
        refine ⟨result :: results, ?_, .cons same sames⟩
        exact bind_eq_ok.mpr ⟨result, run, bind_eq_ok.mpr ⟨results, runs, rfl⟩⟩

/-- What of a tuple survives the manifest: no field is void, and all values are storable. -/
def Survives (bound : List BoundPartitionField) (tuple : Struct Value) : Prop :=
  (∀ field ∈ bound, field.transform ≠ .void) ∧
    ∀ column ∈ tuple.fields, ∀ value, column.2 = some value → value.Storable

/-- The columns of an accepted schema are of distinct names and declared types. -/
theorem columns_of_accepted (lawful : libraries.Lawful)
    (accepted : parsePartitionSchema Value columns = .ok ()) :
    (columns.map (·.1)).Nodup ∧ ∀ column ∈ columns, Value.Declared column.2 := by
  refine ⟨?_, ?_⟩
  · have names := lawful.names _ accepted
    rwa [List.map_map] at names
  · intro column member
    exact lawful.types _ accepted (avroColumn column) (List.mem_map_of_mem member)

/-- Avro keeps a tuple of an accepted schema up to the untagged decoding of its cells. -/
theorem encodePartition_eq (lawful : libraries.Lawful)
    (accepted : parsePartitionSchema Value columns = .ok ())
    (typed : List.Forall₂ TypedCell columns tuple.fields) :
    ∃ row, tuple.fields.mapM toCell = .ok row ∧
      encodePartition columns tuple = .ok ⟨row.map decodeCell⟩ := by
  obtain ⟨row, run, matched⟩ := exists_row typed (columns_of_accepted lawful accepted).2
  refine ⟨row, run, ?_⟩
  refine bind_eq_ok.mpr ⟨row, run, bind_eq_ok.mpr ⟨row, ?_, rfl⟩⟩
  exact lawful.roundTrip _ accepted row matched

/-- The cast of a stored tuple gives the tuple back exactly where it survives. -/
theorem cast_stored_iff (lawful : libraries.Lawful) {schema : Schema} {spec : PartitionSpec}
    (binds : partitionFields spec schema = .ok bound)
    (typing : partitionValueSchema bound = .ok columns)
    (accepted : parsePartitionSchema Value columns = .ok ())
    (typed : List.Forall₂ TypedCell columns tuple.fields) {row : List (String × Option AvroValue)}
    (written : tuple.fields.mapM toCell = .ok row) :
    (∃ result, (⟨row.map decodeCell⟩ : Struct Value).cast schema.fields spec.fields = .ok result ∧
      result.Same tuple) ↔ Survives bound tuple := by
  obtain ⟨distinct, declared⟩ := columns_of_accepted lawful accepted
  have lengths : row.length = bound.length := by
    rw [length_mapM written, ← typed.length_eq, length_mapM typing]
  unfold Struct.cast
  by_cases empty : bound = []
  · -- The empty tuple is returned as it is.
    subst empty
    have rowEmpty := List.eq_nil_of_length_eq_zero lengths
    subst rowEmpty
    have fieldsEmpty : tuple.fields = [] :=
      List.eq_nil_of_length_eq_zero (by rw [← length_mapM written]; rfl)
    refine iff_of_true ⟨⟨[]⟩, rfl, ?_⟩ ⟨?_, ?_⟩
    · unfold Same
      rw [fieldsEmpty]
      exact .nil
    · exact fun _ absent => absurd absent List.not_mem_nil
    · rw [fieldsEmpty]
      exact fun _ absent => absurd absent List.not_mem_nil
  · have nonempty : (row.map decodeCell).isEmpty = false := by
      cases row with
      | nil => exact absurd (List.eq_nil_of_length_eq_zero lengths.symm) empty
      | cons => rfl
    rw [nonempty, if_neg Bool.false_ne_true, castTypes_eq binds]
    by_cases noVoid : ∀ field ∈ bound, field.transform ≠ .void
    · have types : bound.mapM resultType = .ok columns := by
        rw [← partitionValueSchema_eq noVoid]
        exact typing
      have values := castColumns_decodeCell_iff distinct declared (List.suffix_refl columns) typed
        written
      unfold Survives
      rw [types, and_iff_right noVoid, ← values]
      constructor
      · rintro ⟨result, run, same⟩
        obtain ⟨_, ⟨⟩, rest⟩ := bind_eq_ok.mp run
        obtain ⟨cast, castRun, whole⟩ := bind_eq_ok.mp rest
        cases whole
        exact ⟨cast, castRun, same⟩
      · rintro ⟨cast, castRun, same⟩
        exact ⟨⟨cast⟩, bind_eq_ok.mpr ⟨columns, rfl, bind_eq_ok.mpr ⟨cast, castRun, rfl⟩⟩, same⟩
    · refine iff_of_false ?_ fun survives => noVoid survives.1
      rintro ⟨result, run, -⟩
      obtain ⟨types, typesRun, -⟩ := bind_eq_ok.mp run
      exact noVoid (noVoid_of_resultTypes typesRun)

end Struct


/-! ### Manifests -/

namespace ManifestEntry

theorem toVersion_partition (entry : ManifestEntry Value) :
    entry.toVersion.dataFile.partition = entry.dataFile.partition ∧
      entry.toVersion.dataFile.lowerBounds = entry.dataFile.lowerBounds ∧
      entry.toVersion.dataFile.upperBounds = entry.dataFile.upperBounds := by
  unfold toVersion DataFile.toVersion
  split <;> exact ⟨rfl, rfl, rfl⟩

variable [libraries : ManifestLibraries]

/-- The record of an entry whose bounds decode is read back with the cast of its tuple. -/
theorem tryFromStored_iff {stored : ManifestEntry Value} {schema : Schema} (spec : PartitionSpec)
    {lower upper : Option (HashMap Int Value)}
    (lowerDecodes : DataFile.decodeBounds schema.fields stored.dataFile.lowerBounds = .ok lower)
    (upperDecodes : DataFile.decodeBounds schema.fields stored.dataFile.upperBounds = .ok upper)
    (tuple : Struct Value) :
    (∃ read, stored.tryFromStored schema spec = .ok read ∧
      read.dataFile.partition.Same tuple) ↔
      ∃ cast, stored.dataFile.partition.cast schema.fields spec.fields = .ok cast ∧
        cast.Same tuple := by
  constructor
  · rintro ⟨read, run, same⟩
    obtain ⟨file, fileRun, whole⟩ := bind_eq_ok.mp run
    cases whole
    obtain ⟨cast, castRun, rest⟩ := bind_eq_ok.mp fileRun
    rw [lowerDecodes, upperDecodes] at rest
    cases rest
    exact ⟨cast, castRun, same⟩
  · rintro ⟨cast, castRun, same⟩
    refine ⟨{ stored with dataFile := { stored.dataFile with
      partition := cast, lowerBounds := lower, upperBounds := upper } }, ?_, same⟩
    unfold tryFromStored DataFile.tryFromStored
    rw [castRun, lowerDecodes, upperDecodes]
    rfl

end ManifestEntry

/-- **Partition tuples survive the manifest exactly** where their spec has no void field, their
times do not fit an `int`, and their doubles are NaN or the numbers of a `float`. -/
theorem partition_survives_iff [libraries : ManifestLibraries] (lawful : libraries.Lawful)
    {transforms : Value.Libraries} {schema : Schema} {spec : PartitionSpec}
    {bound : List BoundPartitionField} (binds : partitionFields spec schema = .ok bound)
    {version : FormatVersion} {avro : EntrySchema}
    (accepted : entrySchema Value bound version = .ok avro)
    {writer written : ManifestWriter Value} (columns : writer.avro = avro)
    (header : writer.file.schema = schema ∧ writer.file.partitionSpec = spec)
    {entry : ManifestEntry Value} (produced : entry.dataFile.partition.Produced transforms bound)
    {lower upper : Option (HashMap Int Value)}
    (lowerDecodes : DataFile.decodeBounds schema.fields entry.dataFile.lowerBounds = .ok lower)
    (upperDecodes : DataFile.decodeBounds schema.fields entry.dataFile.upperBounds = .ok upper)
    (write : writer.write entry = .ok written) :
    (∃ stored read, written.file.entries = writer.file.entries ++ [stored] ∧
      stored.tryFromStored written.file.schema written.file.partitionSpec = .ok read ∧
      read.dataFile.partition.Same entry.dataFile.partition) ↔
      entry.dataFile.partition.Survives bound := by
  obtain ⟨types, typing, rest⟩ := bind_eq_ok.mp accepted
  obtain ⟨⟨⟩, parsed, whole⟩ := bind_eq_ok.mp rest
  cases whole
  have typed := produced.typed typing
  obtain ⟨row, rowRun, encoded⟩ := Struct.encodePartition_eq lawful parsed typed
  obtain ⟨-, stores⟩ := guard_eq_ok.mp write
  rw [columns, encoded] at stores
  cases stores
  obtain ⟨rfl, rfl⟩ := header
  rw [← Struct.cast_stored_iff lawful binds typing parsed typed rowRun]
  obtain ⟨partition, lowerSame, upperSame⟩ := ManifestEntry.toVersion_partition { entry with
    dataFile := { entry.dataFile with partition := ⟨row.map Struct.decodeCell⟩ } }
  have reads := ManifestEntry.tryFromStored_iff writer.file.partitionSpec
    (lowerSame.symm ▸ lowerDecodes) (upperSame.symm ▸ upperDecodes) entry.dataFile.partition
  rw [partition] at reads
  rw [← reads]
  constructor
  · rintro ⟨stored, read, last, run, same⟩
    cases List.append_cancel_left last
    exact ⟨read, run, same⟩
  · rintro ⟨read, run, same⟩
    exact ⟨_, read, rfl, run, same⟩

/-! ### Single columns -/

instance (column : String × String) (cell : String × Option AvroValue) :
    Decidable (AvroMatches column cell) :=
  decidable_of_iff (cell.1 = column.1 ∧ cell.2.all (·.typeName = column.2) = true) (by
    unfold AvroMatches
    cases cell.2 <;> simp)

/-- An Avro library that accepts what the format allows.  Tuples of files without bounds reach
none of the other operations. -/
@[reducible] def plainLibraries : ManifestLibraries where
  parseStr columns :=
    if (columns.map (·.1)).Nodup ∧ ∀ column ∈ columns, column.2 ∈ avroPrimitives then .ok ()
    else .error (.avro "schema")
  store columns row :=
    if List.Forall₂ AvroMatches columns row then .ok row else .error (.avro "row")
  others := {
    datatype := Value.datatype
    promoteIceberg := Value.promoteIceberg
    decimalUnchanged := fun _ _ => false
    castPartition := Value.castPartition
    partialCmp := fun _ _ => none
    variantCmp := fun _ _ => none
    trySub := fun a b => .error (.type a.datatype.display b.datatype.display)
    isFloating := fun value => value.datatype = .primitive .float ∨
      value.datatype = .primitive .double
    isNan := fun value => match value with
      | .float value => value.isNan
      | .double value => value.isNan
      | _ => false
    toBytes := Value.toBytes
    tryFromBytes := fun _ _ => .error .tryFromInt
    decodeBound := fun _ _ => .error .tryFromInt
    parsePartitionSchema := fun _ => .ok ()
    encodePartition := fun _ tuple => .ok tuple }

theorem plainLibraries_lawful : plainLibraries.Lawful := by
  have accepted (columns : List (String × String))
      (parsed : plainLibraries.parseStr columns = .ok ()) :
      (columns.map (·.1)).Nodup ∧ ∀ column ∈ columns, column.2 ∈ avroPrimitives := by
    by_contra rejected
    unfold plainLibraries at parsed
    simp only [if_neg rejected] at parsed
    cases parsed
  refine ⟨fun columns parsed => (accepted columns parsed).1,
    fun columns parsed => (accepted columns parsed).2, ?_⟩
  intro columns _ row matched
  exact if_pos matched

/-- A schema of one column. -/
def columnSchema (type : PrimitiveType) : Schema :=
  ⟨0, none, ⟨[⟨1, "x", false, .primitive type, none, none, none⟩]⟩⟩

/-- The spec that partitions by it. -/
def columnSpec : PartitionSpec := ⟨0, [⟨1, 1000, "x", .identity⟩]⟩

/-- A writer of a manifest of such a table. -/
def columnWriter (type : PrimitiveType) : ManifestWriter Value where
  manifest := {
    formatVersion := .v2
    manifestPath := "m.avro"
    partitionSpecId := 0
    content := .data
    sequenceNumber := 1
    minSequenceNumber := 1
    addedSnapshotId := 1
    addedFilesCount := some 0
    existingFilesCount := some 0
    deletedFilesCount := some 0
    addedRowsCount := some 0
    existingRowsCount := some 0
    deletedRowsCount := some 0
    partitions := none
    keyMetadata := none
    firstRowId := none }
  avro := ⟨.v2, [("x", .primitive type)]⟩
  file := ⟨.v2, columnSchema type, columnSpec, []⟩

/-- A new entry of such a table. -/
def columnEntry (value : Option Value) : ManifestEntry Value where
  formatVersion := .v2
  status := .added
  snapshotId := none
  sequenceNumber := none
  dataFile := {
    content := .data
    filePath := "a.parquet"
    fileFormat := .parquet
    partition := ⟨[("x", value)]⟩
    recordCount := 1
    fileSizeInBytes := 100
    columnSizes := none
    valueCounts := none
    nullValueCounts := none
    nanValueCounts := none
    distinctCounts := none
    lowerBounds := none
    upperBounds := none
    keyMetadata := none
    splitOffsets := none
    equalityIds := none
    sortOrderId := none
    firstRowId := none
    referencedDataFile := none
    contentOffset := none
    contentSizeInBytes := none }

/-- Writing a tuple under the schema of such a table: the manifest, where all is accepted. -/
def columnManifest (type : PrimitiveType) (value : Option Value) :
    Except Error (ManifestFile Value) :=
  letI := plainLibraries
  do
    let bound ← partitionFields columnSpec (columnSchema type)
    let avro ← entrySchema Value bound .v2
    let written ← { columnWriter type with avro }.write (columnEntry value)
    .ok written.file

/-- The tuples a reader finds in a manifest. -/
def columnTuples (file : ManifestFile Value) : Except Error (List (Struct Value)) :=
  letI := plainLibraries
  file.read.map fun entries => entries.map (·.dataFile.partition)

/-- One tenth, as a double. -/
def tenth : Word .binary64 := ⟨false, 0x3fb999999999999a⟩

/-- One tenth, as a float, as a double. -/
def narrowTenth : Word .binary64 := ⟨false, 0x3fb99999a0000000⟩

/-- A millisecond after midnight is not read back, and one tenth comes back as another number. -/
theorem tuples_lost :
    (columnManifest .time (some (.time 1000))).toBool = true ∧
    (columnManifest .time (some (.time 1000))).bind columnTuples =
      .error (.notSupported "cast") ∧
    (columnManifest .double (some (.double tenth))).bind columnTuples =
      .ok [⟨[("x", some (.double narrowTenth))]⟩] ∧
    Value.same (.double narrowTenth) (.double tenth) = false := by
  decide +kernel

/-- A timestamp just after the epoch passes through `Int` and comes back. -/
theorem partition_survives_timestamp : ∃ stored read,
    [@ManifestEntry.toVersion Value (columnEntry (some (.int 5)))] = [] ++ [stored] ∧
    @ManifestEntry.tryFromStored Value (@Value.partitionValue plainLibraries) stored
      (columnSchema .timestamp) columnSpec = .ok read ∧
    read.dataFile.partition.Same ⟨[("x", some (.timestamp 5))]⟩ := by
  refine (@partition_survives_iff plainLibraries plainLibraries_lawful ⟨fun _ => 0, fun _ => none⟩
    (columnSchema .timestamp) columnSpec _ rfl .v2 ⟨.v2, [("x", .primitive .timestamp)]⟩
    rfl (columnWriter .timestamp)
    { columnWriter .timestamp with
      file := ⟨.v2, columnSchema .timestamp, columnSpec,
        [(columnEntry (some (.int 5))).toVersion]⟩ } rfl ⟨rfl, rfl⟩
    (columnEntry (some (.timestamp 5))) ?_ none none rfl rfl ?_).mpr ?_
  · refine .cons ⟨rfl, ?_⟩ .nil
    intro value present
    cases present
    exact ⟨.timestamp 5, rfl, rfl⟩
  · rfl
  · refine ⟨by decide, ?_⟩
    rintro column (_ | ⟨_, ⟨⟩⟩) value present
    cases present
    trivial

end IcebergRust

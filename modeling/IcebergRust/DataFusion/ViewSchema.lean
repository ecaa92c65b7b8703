import IcebergRust.Arrow.NewFieldIds
import IcebergRust.Catalog.Marks
import IcebergRust.DataFusion.ViewDefinition
import IcebergRust.View.ArrowFieldIds
import Mathlib.Data.List.Perm.Basic

/-!
# The schema of a view

`plan_create_view` of `datafusion_iceberg/src/planner.rs` gives the columns of a view's query new ids
and stores, as a property, the ids they carried.

* The ids are taken from the columns but not from what is nested in them, and the nested ids are
  kept.
* `viewSchema_unique_iff` is that the ids of the stored schema are distinct exactly if the nested ids
  are, while the property always says where the columns come from.
-/

namespace IcebergRust

open Fallible Lockstep ArrowSchema
open ArrowSchema (Field Fields)

/-- A column without its id. -/
def stripId (field : Field) : Field :=
  { field with metadata := { field.metadata with fieldId := none } }

/-- What is stored of the columns of a view's query. -/
structure StoredColumns where
  fields : List StructField
  property : Option String

section PlanCreateView

-- The `Display` of a field and of a type.
variable (fieldText : Field → String) (typeText : DataType → String)

/-- The fields and the property `plan_create_view` stores. -/
def viewSchema (inputArrowFields : Fields) : Except PlanError StoredColumns :=
  let sourceArrowIds := inputArrowFields.map Field.fieldId
  let stripped := inputArrowFields.map stripId
  match newFieldsWithIds stripped 0 with
  | .error e _ => .error (.external e.message)
  | .ok fieldsWithIds _ =>
    match structFields fieldText typeText fieldsWithIds with
    | .error e => .error (.external e.message)
    | .ok fields =>
      let arrowIdMapping := HashMap.fromIter ((fields.zip sourceArrowIds).filterMap
        fun (specField, src) => src.map fun srcId => (specField.id, srcId))
      let property := encodeArrowFieldIds arrowIdMapping
      .ok ⟨fields, if property = "" then none else some property⟩

end PlanCreateView

/-! ### The ids of the stored schema -/

/-- The fields inside a column that are given ids. -/
def nestedFields (column : Field) : List Field :=
  if column.IsVariant then [] else trackedInside column.dataType

/-- The ids that fields below the columns carry. -/
def nestedIds (columns : Fields) : List Int :=
  (columns.flatMap nestedFields).filterMap Field.fieldId

theorem trackedField_eq (field : Field) : trackedField field = field :: nestedFields field := by
  cases field
  rfl

theorem trackedField_stripId (column : Field) :
    trackedField (stripId column) = stripId column :: nestedFields column := rfl

theorem fieldId_stripId (column : Field) : (stripId column).fieldId = none := rfl

/-- Of the stripped columns, the nested fields are those that carry ids. -/
theorem filterMap_trackedFields_strip (columns : Fields) :
    (trackedFields (columns.map stripId)).filterMap Field.fieldId = nestedIds columns := by
  induction columns with
  | nil => rfl
  | cons column columns ih =>
    rw [List.map_cons, trackedFields, trackedField_stripId, List.cons_append,
      List.filterMap_cons_none (fieldId_stripId column), List.filterMap_append, ih, nestedIds,
      nestedIds, List.flatMap_cons, List.filterMap_append]

/-- The ids are those that are kept and those that are fresh. -/
theorem perm_kept_fresh {fields : List Field} {ids : List Int}
    (kept : List.Forall₂ (fun field id => field.fieldId = none ∨ field.fieldId = some id)
      fields ids) :
    ids.Perm (fields.filterMap Field.fieldId ++ freshIds fields ids) := by
  induction kept with
  | nil => exact .nil
  | @cons field id fields ids here _ ih =>
    rcases here with missing | carried
    · have fresh : freshIds (field :: fields) (id :: ids) = id :: freshIds fields ids := by
        simp [freshIds, missing]
      rw [List.filterMap_cons_none missing, fresh]
      exact (ih.cons id).trans List.perm_middle.symm
    · have fresh : freshIds (field :: fields) (id :: ids) = freshIds fields ids := by
        simp [freshIds, carried]
      rw [List.filterMap_cons_some carried, fresh]
      exact ih.cons id

/-! ### Entries of maps -/

mutual

/-- No entries of a map are marked as a Variant, outside the storage of Variants. -/
def PlainField : Field → Prop
  | ⟨name, dataType, nullable, metadata⟩ =>
    (⟨name, dataType, nullable, metadata⟩ : Field).IsVariant ∨ PlainInside dataType
termination_by structural field => field

def PlainInside : DataType → Prop
  | .struct fields => PlainFields fields
  | .list field => PlainField field
  | .map ⟨name, .struct fields, nullable, metadata⟩ _ =>
    ¬ (⟨name, .struct fields, nullable, metadata⟩ : Field).IsVariant ∧ PlainFields fields
  | .map _ _ => True
  | .leaf _ => True
  | .otherList _ _ => True
termination_by structural type => type

def PlainFields : List Field → Prop
  | [] => True
  | field :: fields => PlainField field ∧ PlainFields fields
termination_by structural fields => fields

end

mutual

/-- The first walk sees every field the second one sees. -/
theorem trackedField_subset : (field : Field) → PlainField field →
    trackedField field ⊆ outsideField field
  | ⟨name, dataType, nullable, metadata⟩, plain => by
    have inside := trackedInside_subset dataType
    unfold trackedField outsideField
    dsimp only
    refine List.cons_subset_cons _ ?_
    split
    · exact List.Subset.refl _
    · rename_i other
      exact inside (plain.resolve_left other)
termination_by structural field => field

theorem trackedInside_subset : (type : DataType) → PlainInside type →
    trackedInside type ⊆ outsideInside type
  | .struct fields, plain => trackedFields_subset fields plain
  | .list field, plain => trackedField_subset field plain
  | .map ⟨name, .struct fields, nullable, metadata⟩ sorted, plain => by
    have inside := trackedFields_subset fields plain.2
    have entries : outsideInside (.map ⟨name, .struct fields, nullable, metadata⟩ sorted) =
        ⟨name, .struct fields, nullable, metadata⟩ :: outsideFields fields := by
      unfold outsideInside outsideField
      dsimp only
      rw [if_neg plain.1]
      rfl
    rw [entries]
    exact List.subset_cons_of_subset _ inside
  | .map ⟨_, .leaf _, _, _⟩ _, _ => List.nil_subset _
  | .map ⟨_, .list _, _, _⟩ _, _ => List.nil_subset _
  | .map ⟨_, .otherList _ _, _, _⟩ _, _ => List.nil_subset _
  | .map ⟨_, .map _ _, _, _⟩ _, _ => List.nil_subset _
  | .leaf _, _ => List.nil_subset _
  | .otherList _ _, _ => List.nil_subset _
termination_by structural type => type

theorem trackedFields_subset : (fields : List Field) → PlainFields fields →
    trackedFields fields ⊆ outsideFields fields
  | [], _ => List.Subset.refl _
  | field :: fields, plain => by
    have head := trackedField_subset field plain.1
    have tail := trackedFields_subset fields plain.2
    rw [trackedFields, outsideFields]
    exact List.append_subset.mpr ⟨List.subset_append_of_subset_left _ head,
      List.subset_append_of_subset_right _ tail⟩
termination_by structural fields => fields

end

theorem plainFields_strip {columns : Fields} (plain : PlainFields columns) :
    PlainFields (columns.map stripId) := by
  induction columns with
  | nil => exact plain
  | cons column columns ih =>
    cases column
    exact ⟨plain.1, ih plain.2⟩

/-! ### From Arrow fields to fields -/

section FromArrow

variable {fieldText : Field → String} {typeText : DataType → String}

theorem fieldId_of_getFieldId {field : Field} {id : Int}
    (read : getFieldId fieldText field = .ok id) : field.fieldId = some id :=
  (getFieldId_eq_ok fieldText).mp read

theorem leafType_primitive {leaf : SchemaAdapter.LeafType} {type : IcebergType}
    (read : leafType typeText leaf = .ok type) : ∃ primitive, type = .primitive primitive := by
  unfold leafType at read
  cases leaf with
  | timestamp unit timezone =>
    cases timezone with
    | none => cases unit <;> cases read <;> exact ⟨_, rfl⟩
    | some timezone =>
      by_cases utc : timezone = "UTC" ∨ timezone = "+00:00"
      · simp only [if_pos utc] at read
        cases unit <;> cases read <;> exact ⟨_, rfl⟩
      · simp only [if_neg utc] at read
        cases read
  | _ => cases read <;> exact ⟨_, rfl⟩

mutual

/-- The ids of a type are those of the tracked fields of the Arrow type it is read from. -/
theorem toType_ids : (dataType : DataType) → (type : IcebergType) →
    toType fieldText typeText dataType = .ok type →
    ((trackedInside dataType).map Field.fieldId).Perm (type.fieldIds.map some)
  | .leaf leaf, type, read => by
    obtain ⟨primitive, rfl⟩ := leafType_primitive read
    exact .nil
  | .struct fields, type, read => by
    obtain ⟨types, made, same⟩ := bind_eq_ok.mp read
    cases same
    exact structFields_ids fields types made
  | .list field, type, read => by
    obtain ⟨id, own, rest⟩ := bind_eq_ok.mp read
    obtain ⟨element, made, same⟩ := bind_eq_ok.mp rest
    cases same
    rw [trackedInside, trackedField_eq, List.map_cons, fieldId_of_getFieldId own]
    exact (icebergType_ids field element made).cons _
  | .otherList kind field, type, read => by cases read
  | .map ⟨name, .struct [key, value], nullable, metadata⟩ sorted, type, read => by
    obtain ⟨-, read⟩ := guard_eq_ok.mp read
    obtain ⟨keyId, ownKey, read⟩ := bind_eq_ok.mp read
    obtain ⟨valueId, ownValue, read⟩ := bind_eq_ok.mp read
    obtain ⟨keyType, madeKey, read⟩ := bind_eq_ok.mp read
    obtain ⟨valueType, madeValue, same⟩ := bind_eq_ok.mp read
    cases same
    have keys := icebergType_ids key keyType madeKey
    have values := icebergType_ids value valueType madeValue
    have tracked : trackedInside (.map ⟨name, .struct [key, value], nullable, metadata⟩ sorted) =
        (key :: nestedFields key) ++ (value :: nestedFields value) := by
      rw [trackedInside, trackedFields, trackedFields, trackedFields, trackedField_eq,
        trackedField_eq, List.append_nil]
    rw [tracked, List.map_append, List.map_cons, List.map_cons, fieldId_of_getFieldId ownKey,
      fieldId_of_getFieldId ownValue, List.cons_append, IcebergType.fieldIds, List.map_cons,
      List.map_cons, List.map_append]
    exact (List.perm_middle.trans ((keys.append values).cons _)).cons _
  | .map ⟨name, .struct [], nullable, metadata⟩ sorted, type, read => by cases read
  | .map ⟨name, .struct [key], nullable, metadata⟩ sorted, type, read => by cases read
  | .map ⟨name, .struct (key :: value :: field :: fields), nullable, metadata⟩ sorted, type, read =>
    by cases read
  | .map ⟨_, .leaf _, _, _⟩ _, type, read => by cases read
  | .map ⟨_, .list _, _, _⟩ _, type, read => by cases read
  | .map ⟨_, .otherList _ _, _, _⟩ _, type, read => by cases read
  | .map ⟨_, .map _ _, _, _⟩ _, type, read => by cases read
termination_by structural dataType => dataType

theorem icebergType_ids : (field : Field) → (type : IcebergType) →
    icebergType fieldText typeText field = .ok type →
    ((nestedFields field).map Field.fieldId).Perm (type.fieldIds.map some)
  | ⟨name, dataType, nullable, metadata⟩, type, read => by
    have inside := toType_ids dataType type
    unfold icebergType at read
    unfold nestedFields
    split at read
    · rename_i variant_
      rw [if_pos (show Field.IsVariant ⟨name, dataType, nullable, metadata⟩ from variant_)]
      split at read
      · cases read
        exact .nil
      · cases read
    · rename_i plain
      rw [if_neg (show ¬ Field.IsVariant ⟨name, dataType, nullable, metadata⟩ from plain)]
      exact inside read
termination_by structural field => field

theorem structFields_ids : (fields : List Field) → (types : List StructField) →
    structFields fieldText typeText fields = .ok types →
    ((trackedFields fields).map Field.fieldId).Perm ((fieldIdsOf types).map some)
  | [], types, read => by
    cases read
    exact .nil
  | field :: fields, types, read => by
    obtain ⟨id, own, read⟩ := bind_eq_ok.mp read
    obtain ⟨type, made, read⟩ := bind_eq_ok.mp read
    obtain ⟨rest, others, same⟩ := bind_eq_ok.mp read
    cases same
    have head := icebergType_ids field type made
    have tail := structFields_ids fields rest others
    rw [trackedFields, trackedField_eq, List.map_append, List.map_cons, fieldId_of_getFieldId own,
      fieldIdsOf, StructField.fieldIds, List.map_append, List.map_cons]
    exact (head.cons _).append tail
termination_by structural fields => fields

end

theorem structFields_topIds {fields : List Field} {types : List StructField}
    (read : structFields fieldText typeText fields = .ok types) :
    fields.map Field.fieldId = types.map fun type => some type.id := by
  induction fields generalizing types with
  | nil =>
    cases read
    rfl
  | cons field fields ih =>
    obtain ⟨id, own, read⟩ := bind_eq_ok.mp read
    obtain ⟨type, made, read⟩ := bind_eq_ok.mp read
    obtain ⟨rest, others, same⟩ := bind_eq_ok.mp read
    cases same
    rw [List.map_cons, List.map_cons, fieldId_of_getFieldId own, ih others]

end FromArrow

/-! ### The columns -/

/-- The ids of the columns increase: each of them is new. -/
theorem columns_increase {columns after : List Field} {start final : Context}
    (inside : InI32 start.index)
    (run : assignFieldsWithIds (columns.map stripId) start = .ok after final) :
    ∃ tops : List Int, after.map Field.fieldId = tops.map some ∧ tops.length = columns.length ∧
      tops.Pairwise (· < ·) ∧ ∀ id ∈ tops, start.index < id := by
  induction columns generalizing start after with
  | nil =>
    cases run
    exact ⟨[], rfl, rfl, .nil, nofun⟩
  | cons column columns ih =>
    obtain ⟨first, middle, head, others⟩ := run_bind_eq_ok.mp run
    obtain ⟨rest, last, tail, same⟩ := run_bind_eq_ok.mp others
    cases same
    obtain ⟨ids, resolves, -, carried⟩ := (assignField_lockstep (stripId column)).ok head
    have resolved := resolved_of_run resolves
    obtain ⟨next, inRange⟩ := resolved.inRange inside
    have given := carried inRange
    rw [trackedField_stripId] at resolved
    obtain ⟨kept, nodup, fresh, grows, below, reserved, -⟩ := resolved
    cases kept with
    | @cons _ id _ ids own _ =>
      have new : id ∈ freshIds (stripId column :: nestedFields column) (id :: ids) := by
        simp [freshIds, fieldId_stripId]
      rw [trackedField_eq, List.map_cons, List.map_cons] at given
      obtain ⟨tops, named, count, increase, above⟩ := ih next tail
      have start_lt := (fresh id new).1
      refine ⟨id :: tops, ?_, congrArg Nat.succ count,
        List.pairwise_cons.mpr ⟨fun other member => ?_, increase⟩, ?_⟩
      · rw [List.map_cons, List.map_cons, (List.cons.inj given).1, named]
      · exact lt_of_le_of_lt (below id List.mem_cons_self) (above other member)
      · exact List.forall_mem_cons.mpr ⟨start_lt, fun other member =>
          lt_of_le_of_lt grows (above other member)⟩

/-- Keys without a value are left out. -/
def pairUp {κ β : Type} (keys : List κ) (values : List (Option β)) : List (κ × β) :=
  (keys.zip values).filterMap fun (key, value) => value.map fun value => (key, value)

theorem mem_pairUp {κ β : Type} {keys : List κ} {values : List (Option β)} {key : κ} {value : β} :
    (key, value) ∈ pairUp keys values ↔ (key, some value) ∈ keys.zip values := by
  rw [pairUp, List.mem_filterMap]
  constructor
  · rintro ⟨⟨key', value'⟩, member, made⟩
    obtain ⟨v, rfl, same⟩ := Option.map_eq_some_iff.mp made
    cases same
    exact member
  · exact fun member => ⟨(key, some value), member, rfl⟩

theorem lookup_pairUp {κ β : Type} [DecidableEq κ] {keys : List κ} {values : List (Option β)}
    (distinct : keys.Nodup) (same : keys.length = values.length) {key : κ} {value : β} :
    (HashMap.fromIter (pairUp keys values)).lookup key = some value ↔
      (key, some value) ∈ keys.zip values := by
  rw [HashMap.lookup_fromIter_of_distinct ?_, mem_pairUp]
  rintro ⟨k, v⟩ member ⟨_, w⟩ member' rfl
  have firsts : ((keys.zip values).map Prod.fst).Nodup := by
    rw [List.map_fst_zip (le_of_eq same)]
    exact distinct
  have one := List.inj_on_of_nodup_map firsts (mem_pairUp.mp member) (mem_pairUp.mp member') rfl
  rw [Option.some.inj (congrArg Prod.snd one)]

/-- Distinct keys are each mapped to what stands at their position. -/
theorem lookup_pairUp_all {κ β : Type} [DecidableEq κ] {keys : List κ} {values : List (Option β)}
    (distinct : keys.Nodup) (same : keys.length = values.length) :
    List.Forall₂ (fun key value => (HashMap.fromIter (pairUp keys values)).lookup key = value)
      keys values := by
  have firsts : ((keys.zip values).map Prod.fst).Nodup := by
    rw [List.map_fst_zip (le_of_eq same)]
    exact distinct
  rw [List.forall₂_iff_zip]
  refine ⟨same, fun {key value} member => Option.ext fun v => ?_⟩
  rw [lookup_pairUp distinct same]
  constructor
  · intro member'
    exact congrArg Prod.snd (List.inj_on_of_nodup_map firsts member member' rfl)
  · rintro rfl
    exact member

/-! ### The stored schema -/

section Stored

variable {fieldText : Field → String} {typeText : DataType → String} {columns : Fields}
  {stored : StoredColumns}

/-- The property maps the id of each column to the id its source has, if any. -/
def Sourced (columns : Fields) (stored : StoredColumns) : Prop :=
  List.Forall₂ (fun column field =>
    (parseArrowFieldIds stored.property).lookup field.id = column.fieldId) columns stored.fields

theorem viewSchema_eq_ok (run : viewSchema fieldText typeText columns = .ok stored) :
    ∃ after context, newFieldsWithIds (columns.map stripId) 0 = .ok after context ∧
      structFields fieldText typeText after = .ok stored.fields ∧
      ∃ mapping, mapping = HashMap.fromIter
          (pairUp (stored.fields.map fun field => field.id) (columns.map Field.fieldId)) ∧
        stored.property =
          if encodeArrowFieldIds mapping = "" then none else some (encodeArrowFieldIds mapping) := by
  unfold viewSchema at run
  dsimp only at run
  split at run
  · cases run
  · rename_i after context assigned
    split at run
    · cases run
    · rename_i fields made
      cases run
      refine ⟨after, context, assigned, made, _, rfl, ?_⟩
      rw [pairUp, List.zip_map_left, List.filterMap_map]
      rfl

/-- What is stored under the property is the mapping. -/
theorem lookup_property {mapping : HashMap Int Int}
    (inside : ∀ entry ∈ mapping.iter, InI32 entry.1 ∧ InI32 entry.2) (id : Int) :
    (parseArrowFieldIds (if encodeArrowFieldIds mapping = "" then none
      else some (encodeArrowFieldIds mapping))).lookup id = mapping.lookup id := by
  split
  · rename_i empty
    have none_ := encodeArrowFieldIds_eq_empty_iff.mp empty
    cases found : mapping.lookup id with
    | none => rfl
    | some value =>
      have member := HashMap.mem_iter_iff.mpr found
      rw [none_] at member
      exact absurd member List.not_mem_nil
  · rename_i some_
    exact lookup_parse_encode inside
      (fun none_ => some_ (encodeArrowFieldIds_eq_empty_iff.mpr none_)) id

theorem inI32_zero : InI32 0 := ⟨by decide, by decide⟩

theorem inI32_of_mem_map {fields : List Field} {id : Int}
    (member : some id ∈ fields.map Field.fieldId) : InI32 id := by
  obtain ⟨field, -, carried⟩ := List.mem_map.mp member
  exact Field.fieldId_inI32 carried

/-- The property always says where the columns come from. -/
theorem sourced_of_ok (run : viewSchema fieldText typeText columns = .ok stored) :
    Sourced columns stored := by
  obtain ⟨after, context, assigned, made, mapping, whole, same⟩ := viewSchema_eq_ok run
  obtain ⟨tops, named, count, increase, -⟩ := columns_increase inI32_zero assigned
  have ids : stored.fields.map (fun field => field.id) = tops := by
    apply List.map_injective_iff.mpr (Option.some_injective Int)
    rw [← named, structFields_topIds made, List.map_map]
    rfl
  have distinct : tops.Nodup := increase.imp ne_of_lt
  have long : tops.length = (columns.map Field.fieldId).length := by rw [List.length_map, count]
  rw [ids] at whole
  have inside : ∀ entry ∈ mapping.iter, InI32 entry.1 ∧ InI32 entry.2 := by
    rintro ⟨key, value⟩ member
    have found := HashMap.mem_iter_iff.mp member
    rw [whole, lookup_pairUp distinct long] at found
    obtain ⟨left, right⟩ := List.of_mem_zip found
    refine ⟨@inI32_of_mem_map after _ ?_, inI32_of_mem_map right⟩
    rw [named]
    exact List.mem_map_of_mem left
  have mapped := lookup_pairUp_all distinct long
  rw [← whole, ← ids, List.forall₂_map_left_iff, List.forall₂_map_right_iff] at mapped
  unfold Sourced
  rw [same]
  refine mapped.flip.imp fun column field found => ?_
  rw [lookup_property inside]
  exact found

/-- The ids of the stored schema are those that were assigned. -/
theorem fieldIds_perm (run : viewSchema fieldText typeText columns = .ok stored) :
    ∃ ids final after, Assigned (columns.map stripId) 0 after final ids ∧
      (fieldIdsOf stored.fields).Perm ids := by
  obtain ⟨after, context, assigned, made, -⟩ := viewSchema_eq_ok run
  obtain ⟨ids, all⟩ := assigned_of_ok inI32_zero assigned
  refine ⟨ids, context.index, after, all, ?_⟩
  have tracked := structFields_ids after stored.fields made
  rw [all.carried, List.map_perm_map_iff (Option.some_injective Int)] at tracked
  exact tracked.symm

/-- The ids are distinct only if the nested ids are. -/
theorem nestedIds_nodup (run : viewSchema fieldText typeText columns = .ok stored)
    (unique : (fieldIdsOf stored.fields).Nodup) : (nestedIds columns).Nodup := by
  obtain ⟨ids, final, after, all, perm⟩ := fieldIds_perm run
  have parts := perm.trans (perm_kept_fresh all.kept)
  rw [filterMap_trackedFields_strip] at parts
  exact (List.nodup_append.mp (parts.nodup_iff.mp unique)).1

/-- Nested ids that are distinct, and that the first walk sees, are all the ids there are beside
the fresh ones. -/
theorem fieldIds_nodup (run : viewSchema fieldText typeText columns = .ok stored)
    (plain : PlainFields columns) (unique : (nestedIds columns).Nodup) :
    (fieldIdsOf stored.fields).Nodup := by
  obtain ⟨ids, final, after, all, perm⟩ := fieldIds_perm run
  have parts := perm.trans (perm_kept_fresh all.kept)
  have reserved : ∀ id ∈ nestedIds columns, id ∈ existingIds (columns.map stripId) := by
    intro id member
    rw [← filterMap_trackedFields_strip] at member
    obtain ⟨field, tracked, carried⟩ := List.mem_filterMap.mp member
    exact List.mem_filterMap.mpr
      ⟨field, trackedFields_subset _ (plainFields_strip plain) tracked, carried⟩
  rw [filterMap_trackedFields_strip] at parts
  rw [parts.nodup_iff, List.nodup_append]
  refine ⟨unique, all.distinct, fun kept member fresh member' => ?_⟩
  rintro rfl
  exact (all.fresh kept member').2 (reserved kept member)

/-- The stored schema has distinct ids exactly if no two nested fields of the query carry the same
one; the mapping is right in any case. -/
theorem viewSchema_unique_iff (run : viewSchema fieldText typeText columns = .ok stored) :
    ((fieldIdsOf stored.fields).Nodup ∧ Sourced columns stored → (nestedIds columns).Nodup) ∧
    (PlainFields columns →
      ((fieldIdsOf stored.fields).Nodup ∧ Sourced columns stored ↔ (nestedIds columns).Nodup)) := by
  have sourced := sourced_of_ok run
  refine ⟨fun ⟨unique, _⟩ => nestedIds_nodup run unique, fun plain => ?_⟩
  exact ⟨fun ⟨unique, _⟩ => nestedIds_nodup run unique, fun unique =>
    ⟨fieldIds_nodup run plain unique, sourced⟩⟩

end Stored

/-- A struct column, of which a field carries the id 2. -/
def personColumn (name : String) : Field :=
  ⟨name, .struct [⟨"last", .leaf .utf8, false, idMetadata 2⟩], false, idMetadata 1⟩

/-- Two columns, of which the second one has no id. -/
def people : Fields := [personColumn "person", ⟨"age", .leaf .int32, false, ⟨none, none, []⟩⟩]

def storedPeople : StoredColumns :=
  ⟨[⟨1, "person", true,
      .struct ⟨[⟨2, "last", true, .primitive .string, none, none, none⟩]⟩, none, none, none⟩,
    ⟨3, "age", true, .primitive .int, none, none, none⟩], some "1:1"⟩

theorem storedPeople_unique :
    (fieldIdsOf storedPeople.fields).Nodup ∧ Sourced people storedPeople := by
  have plain : PlainFields people :=
    ⟨.inr ⟨.inr trivial, trivial⟩, .inr trivial, trivial⟩
  have run : viewSchema (fun field => field.name) (fun _ => "type") people = .ok storedPeople := rfl
  exact ((viewSchema_unique_iff run).2 plain).mpr (by decide)

/-- A struct projected twice is stored with its nested id twice. -/
theorem viewSchema_repeats_id : ∃ stored,
    viewSchema (fun field => field.name) (fun _ => "type")
      [personColumn "p", personColumn "q"] = .ok stored ∧
    fieldIdsOf stored.fields = [1, 2, 3, 2] :=
  ⟨_, rfl, by decide⟩

end IcebergRust

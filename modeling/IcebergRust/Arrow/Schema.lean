import IcebergRust.DataFusion.NestedArrays
import IcebergRust.Lib.Fallible
import IcebergRust.Spec.Json
import IcebergRust.Spec.NestedType

/-!
# Iceberg types as Arrow types

`arrow/schema.rs`: an iceberg struct as an Arrow schema, and an Arrow schema as an iceberg struct.

* `toDataType` and `toType` are the two conversions of a type.  The first one never fails.
* `tryFrom_toArrowSchema` is what becomes of a struct on its way there and back: it loses its docs
  and defaults, and the scale of a decimal is the one that is left of it in an `i8`.
-/

namespace IcebergRust.ArrowSchema

open Fallible IcebergType
open SchemaAdapter (TimeUnit LeafType Metadata)

def parquetFieldIdMetaKey : String := "PARQUET:field_id"
def arrowExtensionTypeNameKey : String := "ARROW:extension:name"
def parquetVariantExtensionName : String := "arrow.parquet.variant"

/-! ### Arrow types -/

/-- The lists that are not `DataType::List`. -/
inductive ListKind where
  | largeList
  | listView
  | largeListView
  | fixedSizeList (size : Int)
deriving DecidableEq, Repr

mutual

inductive DataType where
  | leaf (type : LeafType)
  | struct (fields : List Field)
  | list (field : Field)
  | otherList (kind : ListKind) (field : Field)
  | map (entries : Field) (sorted : Bool)

structure Field where
  name : String
  dataType : DataType
  nullable : Bool
  metadata : Metadata

end

abbrev Fields := List Field

structure Schema where
  fields : Fields
  metadata : List (String × String)

/-- `extension_type_name` is that of a Variant. -/
def Field.IsVariant (field : Field) : Prop :=
  field.metadata.extensionName = some parquetVariantExtensionName

instance (field : Field) : Decidable field.IsVariant :=
  inferInstanceAs (Decidable (field.metadata.extensionName = some parquetVariantExtensionName))

/-- `str::parse::<i32>`. -/
def parseI32 (text : String) : Option Int :=
  (parseI64 text).filter fun id => decide (-2147483648 ≤ id ∧ id ≤ 2147483647)

theorem parseI32_toString {id : Int} (inside : InI32 id) : parseI32 (toString id) = some id := by
  obtain ⟨low, high⟩ := inside
  have parsed : parseI64 (toString id) = some id :=
    parseI64_toString (by unfold maxI64; omega) (by unfold maxI64; omega)
  rw [parseI32, parsed, Option.filter_some, if_pos (decide_eq_true ⟨low, high⟩)]

theorem parseI32_inI32 {text : String} {id : Int} (parsed : parseI32 text = some id) :
    InI32 id := by
  obtain ⟨-, inside⟩ := Option.filter_eq_some_iff.mp parsed
  exact of_decide_eq_true (p := -2147483648 ≤ id ∧ id ≤ 2147483647) inside

/-! ### To Arrow -/

/-- The metadata of a field that has an id. -/
def idMetadata (id : Int) : Metadata := ⟨some (toString id), none, []⟩

def metadataField : Field := ⟨"metadata", .leaf .binaryView, false, ⟨none, none, []⟩⟩
def valueField : Field := ⟨"value", .leaf .binaryView, true, ⟨none, none, []⟩⟩

/-- The arms of the primitive types.  The casts are those of `as`. -/
def primitiveDataType : PrimitiveType → DataType
  | .boolean => .leaf .boolean
  | .int => .leaf .int32
  | .long => .leaf .int64
  | .float => .leaf .float32
  | .double => .leaf .float64
  | .decimal precision scale => .leaf (.decimal128 (precision % 256) ((scale : Int).bmod 256))
  | .date => .leaf .date32
  | .time => .leaf (.time64 .microsecond)
  | .timestamp => .leaf (.timestamp .microsecond none)
  | .timestamptz => .leaf (.timestamp .microsecond (some "UTC"))
  | .timestampNs => .leaf (.timestamp .nanosecond none)
  | .timestamptzNs => .leaf (.timestamp .nanosecond (some "UTC"))
  | .string => .leaf .utf8
  | .uuid => .leaf .utf8
  | .fixed length => .leaf (.fixedSizeBinary ((length : Int).bmod 4294967296))
  | .binary => .leaf .binary
  | .variant => .struct [metadataField, valueField]
  | .geometry _ | .geography _ _ => .leaf .binary
  | .unknown => .leaf .null

def isVariant : IcebergType → Bool
  | .primitive .variant => true
  | _ => false

/-- The field of a type whose Arrow type is `storage`. -/
def fieldOf (name : String) (type : IcebergType) (storage : DataType) (nullable : Bool)
    (metadata : Metadata) : Field :=
  ⟨name, storage, nullable,
    if isVariant type then
      { metadata with extensionName := some parquetVariantExtensionName }
    else metadata⟩

/-- `TryFrom<&Type> for DataType`. -/
def toDataType (type : IcebergType) : DataType :=
  type.fold primitiveDataType
    (fun fields => .struct (fields.map fun (field, storage) =>
      fieldOf field.name field.fieldType storage (!field.required) (idMetadata field.id)))
    (fun list element => .list
      (fieldOf "item" list.element element (!list.elementRequired) (idMetadata list.elementId)))
    (fun map key value => .map
      ⟨"entries",
        .struct [fieldOf "key" map.key key false (idMetadata map.keyId),
          fieldOf "value" map.value value (!map.valueRequired) (idMetadata map.valueId)],
        false, ⟨none, none, []⟩⟩ false)

def arrowField (name : String) (type : IcebergType) (nullable : Bool) (metadata : Metadata) :
    Field :=
  fieldOf name type (toDataType type) nullable metadata

/-- `TryInto<Fields> for &StructType`. -/
def toFields (type : StructType) : Fields :=
  type.fields.map fun field =>
    arrowField field.name field.fieldType (!field.required) (idMetadata field.id)

/-- `TryInto<ArrowSchema> for &StructType`. -/
def toArrowSchema (type : StructType) : Schema := ⟨toFields type, []⟩

@[simp]
theorem toDataType_struct (type : StructType) :
    toDataType (.struct type) = .struct (toFields type) := by
  simp only [toDataType, fold_struct, List.map_map]
  rfl

@[simp]
theorem toDataType_list (type : ListType) :
    toDataType (.list type) = .list
      (arrowField "item" type.element (!type.elementRequired) (idMetadata type.elementId)) := by
  simp only [toDataType, fold_list]
  rfl

@[simp]
theorem toDataType_map (type : MapType) :
    toDataType (.map type) = .map
      ⟨"entries",
        .struct [arrowField "key" type.key false (idMetadata type.keyId),
          arrowField "value" type.value (!type.valueRequired) (idMetadata type.valueId)],
        false, ⟨none, none, []⟩⟩ false := by
  simp only [toDataType, fold_map]
  rfl

/-! ### From Arrow -/

section FromArrow

-- The `Display` of a field and of a type.
variable (fieldText : Field → String) (typeText : DataType → String)

def getFieldId (field : Field) : Except Error Int :=
  match field.metadata.fieldId with
  | none => .error (.notFound ("Parquet field id of field " ++ fieldText field))
  | some text =>
    match parseI32 text with
    | none => .error (.parseInt text)
    | some id => .ok id

/-- The arms of the types without fields. -/
def leafType (leaf : LeafType) : Except Error IcebergType :=
  match leaf with
  | .boolean => .ok (.primitive .boolean)
  | .int8 | .int16 | .int32 => .ok (.primitive .int)
  | .int64 => .ok (.primitive .long)
  | .float32 => .ok (.primitive .float)
  | .float64 => .ok (.primitive .double)
  | .decimal128 precision scale =>
    .ok (.primitive (.decimal precision (scale % 4294967296).toNat))
  | .date32 => .ok (.primitive .date)
  | .time64 _ => .ok (.primitive .time)
  | .timestamp .nanosecond none => .ok (.primitive .timestampNs)
  | .timestamp unit (some timezone) =>
    if timezone = "UTC" ∨ timezone = "+00:00" then
      match unit with
      | .nanosecond => .ok (.primitive .timestamptzNs)
      | _ => .ok (.primitive .timestamptz)
    else
      .error (.notSupported
        ("Arrow timestamp with non-UTC timezone '" ++ timezone ++ "' is not supported."))
  | .timestamp _ none => .ok (.primitive .timestamp)
  | .utf8 => .ok (.primitive .string)
  | .utf8View => .ok (.primitive .string)
  | .fixedSizeBinary size => .ok (.primitive (.fixed (size % 18446744073709551616).toNat))
  | .binary => .ok (.primitive .binary)
  | other =>
    .error (.notSupported ("Arrow datatype " ++ typeText (.leaf other) ++ " is not supported."))

mutual

/-- `TryFrom<&DataType> for Type`. -/
def toType : DataType → Except Error IcebergType
  | .leaf leaf => leafType typeText leaf
  | .struct fields => do
    let fields ← structFields fields
    .ok (.struct ⟨fields⟩)
  | .list field => do
    let elementId ← getFieldId fieldText field
    let element ← icebergType field
    .ok (.list ⟨elementId, !field.nullable, element⟩)
  | .otherList kind field =>
    .error (.notSupported
      ("Arrow datatype " ++ typeText (.otherList kind field) ++ " is not supported."))
  | .map ⟨_, .struct [key, value], _, _⟩ _ =>
    if key.nullable then .error (.notSupported "Arrow Map keys must be non-nullable")
    else do
      let keyId ← getFieldId fieldText key
      let valueId ← getFieldId fieldText value
      let keyType ← icebergType key
      let valueType ← icebergType value
      .ok (.map ⟨keyId, keyType, valueId, !value.nullable, valueType⟩)
  | .map ⟨_, .struct _, _, _⟩ _ =>
    .error (.notSupported "Arrow Map entries must contain key and value fields")
  | .map _ _ => .error (.notSupported "Arrow Map entries must be a Struct")
termination_by structural type => type

def icebergType : Field → Except Error IcebergType
  | ⟨_, dataType, _, metadata⟩ =>
    if metadata.extensionName = some parquetVariantExtensionName then
      match dataType with
      | .struct _ => .ok (.primitive .variant)
      | _ =>
        .error (.notSupported
          ("Arrow " ++ parquetVariantExtensionName ++ " extension requires Struct storage"))
    else toType dataType
termination_by structural field => field

/-- `TryFrom<&Fields> for StructType`. -/
def structFields : List Field → Except Error (List StructField)
  | [] => .ok []
  | field :: fields => do
    let id ← getFieldId fieldText field
    let type ← icebergType field
    let rest ← structFields fields
    .ok (⟨id, field.name, !field.nullable, type, none, none, none⟩ :: rest)
termination_by structural fields => fields

end

/-- `TryFrom<&ArrowSchema> for StructType`. -/
def tryFrom (schema : Schema) : Except Error StructType :=
  (structFields fieldText typeText schema.fields).map StructType.mk

theorem getFieldId_eq_ok {field : Field} {id : Int} :
    getFieldId fieldText field = .ok id ↔ field.metadata.fieldId.bind parseI32 = some id := by
  unfold getFieldId
  cases field.metadata.fieldId with
  | none => simp
  | some text => cases parsed : parseI32 text <;> simp [parsed]

/-! ### There and back -/

/-- What a struct leaves of the scale of a decimal. -/
def tripScale (scale : Nat) : Nat := ((scale : Int).bmod 256 % 4294967296).toNat

theorem tripScale_eq_iff {scale : Nat} :
    tripScale scale = scale ↔ scale ≤ 127 ∨ 4294967168 ≤ scale ∧ scale < 4294967296 := by
  unfold tripScale
  rw [Int.bmod_def]
  split <;> omega

/-- A primitive type as it comes back. -/
def tripPrimitive : PrimitiveType → PrimitiveType
  | .decimal precision scale => .decimal precision (tripScale scale)
  | other => other

/-- A field without docs and defaults. -/
def bareField (field : StructField) (type : IcebergType) : StructField :=
  ⟨field.id, field.name, field.required, type, none, none, none⟩

/-- A type without docs and defaults at any depth, with other primitive types in it. -/
def rebuilt (primitive : PrimitiveType → PrimitiveType) (type : IcebergType) : IcebergType :=
  type.fold (fun type => .primitive (primitive type))
    (fun fields => .struct ⟨fields.map fun (field, type) => bareField field type⟩)
    (fun list element => .list ⟨list.elementId, list.elementRequired, element⟩)
    (fun map key value => .map ⟨map.keyId, key, map.valueId, map.valueRequired, value⟩)

/-- A type as it comes back. -/
def trip (type : IcebergType) : IcebergType := rebuilt tripPrimitive type

/-- A type without docs and defaults, at any depth. -/
def bare (type : IcebergType) : IcebergType := rebuilt id type

/-- A struct without docs and defaults, at any depth. -/
def bareStruct (type : StructType) : StructType :=
  ⟨type.fields.map fun field => bareField field (bare field.fieldType)⟩

@[simp]
theorem rebuilt_struct (primitive : PrimitiveType → PrimitiveType) (type : StructType) :
    rebuilt primitive (.struct type) = .struct ⟨type.fields.map fun field =>
      bareField field (rebuilt primitive field.fieldType)⟩ := by
  simp only [rebuilt, fold_struct, List.map_map]
  rfl

@[simp]
theorem rebuilt_list (primitive : PrimitiveType → PrimitiveType) (type : ListType) :
    rebuilt primitive (.list type) =
      .list ⟨type.elementId, type.elementRequired, rebuilt primitive type.element⟩ := by
  simp only [rebuilt, fold_list]

@[simp]
theorem rebuilt_map (primitive : PrimitiveType → PrimitiveType) (type : MapType) :
    rebuilt primitive (.map type) = .map ⟨type.keyId, rebuilt primitive type.key, type.valueId,
      type.valueRequired, rebuilt primitive type.value⟩ := by
  simp only [rebuilt, fold_map]

/-- The primitive types that have an Arrow type of their own, with room for their parameters. -/
def HasArrowType : PrimitiveType → Prop
  | .uuid | .geometry _ | .geography _ _ | .unknown => False
  | .decimal precision _ => precision ≤ 38
  | .fixed length => length < 2147483648
  | _ => True

/-- The leaves of a type have Arrow types, and its ids are `i32`s. -/
def Representable (type : IcebergType) : Prop :=
  type.fold HasArrowType (fun fields => ∀ field ∈ fields, InI32 field.1.id ∧ field.2)
    (fun list element => InI32 list.elementId ∧ element)
    (fun map key value => InI32 map.keyId ∧ key ∧ InI32 map.valueId ∧ value)

@[simp]
theorem representable_primitive (type : PrimitiveType) :
    Representable (.primitive type) ↔ HasArrowType type := Iff.rfl

@[simp]
theorem representable_struct (type : StructType) :
    Representable (.struct type) ↔
      ∀ field ∈ type.fields, InI32 field.id ∧ Representable field.fieldType := by
  unfold Representable
  rw [fold_struct, List.forall_mem_map]

@[simp]
theorem representable_list (type : ListType) :
    Representable (.list type) ↔ InI32 type.elementId ∧ Representable type.element := by
  unfold Representable
  rw [fold_list]

@[simp]
theorem representable_map (type : MapType) :
    Representable (.map type) ↔ InI32 type.keyId ∧ Representable type.key ∧
      InI32 type.valueId ∧ Representable type.value := by
  unfold Representable
  rw [fold_map]

/-- The scale of a decimal is the same as an `i8`. -/
def ScaleFits : PrimitiveType → Prop
  | .decimal _ scale => scale ≤ 127 ∨ 4294967168 ≤ scale ∧ scale < 4294967296
  | _ => True

/-- The scales of all decimals in a type fit. -/
def ScalesFit (type : IcebergType) : Prop :=
  type.fold ScaleFits (fun fields => ∀ field ∈ fields, field.2) (fun _ element => element)
    (fun _ key value => key ∧ value)

@[simp]
theorem scalesFit_primitive (type : PrimitiveType) :
    ScalesFit (.primitive type) ↔ ScaleFits type := Iff.rfl

@[simp]
theorem scalesFit_struct (type : StructType) :
    ScalesFit (.struct type) ↔ ∀ field ∈ type.fields, ScalesFit field.fieldType := by
  unfold ScalesFit
  rw [fold_struct, List.forall_mem_map]

@[simp]
theorem scalesFit_list (type : ListType) : ScalesFit (.list type) ↔ ScalesFit type.element := by
  unfold ScalesFit
  rw [fold_list]

@[simp]
theorem scalesFit_map (type : MapType) :
    ScalesFit (.map type) ↔ ScalesFit type.key ∧ ScalesFit type.value := by
  unfold ScalesFit
  rw [fold_map]

/-- A type in a field comes back out of the field. -/
def ComesBack (type : IcebergType) : Prop :=
  ∀ name nullable id, icebergType fieldText typeText (arrowField name type nullable (idMetadata id)) =
    .ok (trip type)

theorem getFieldId_arrowField {id : Int} (inside : InI32 id) (name : String) (type : IcebergType)
    (nullable : Bool) :
    getFieldId fieldText (arrowField name type nullable (idMetadata id)) = .ok id := by
  have kept : (arrowField name type nullable (idMetadata id)).metadata.fieldId =
      some (toString id) := by
    unfold arrowField fieldOf
    dsimp only
    split <;> rfl
  rw [getFieldId_eq_ok, kept]
  exact parseI32_toString inside

theorem icebergType_arrowField {type : IcebergType} (plain : isVariant type = false)
    (name : String) (nullable : Bool) (id : Int) :
    icebergType fieldText typeText (arrowField name type nullable (idMetadata id)) =
      toType fieldText typeText (toDataType type) := by
  have field : arrowField name type nullable (idMetadata id) =
      ⟨name, toDataType type, nullable, idMetadata id⟩ := by
    unfold arrowField fieldOf
    rw [plain]
    rfl
  rw [field]
  rfl

theorem comesBack_of_toType {type : IcebergType} (plain : isVariant type = false)
    (back : toType fieldText typeText (toDataType type) = .ok (trip type)) :
    ComesBack fieldText typeText type := by
  intro name nullable id
  rw [icebergType_arrowField fieldText typeText plain, back]

/-- Each primitive type has an arm of its own in both directions. -/
theorem comesBack_primitive {type : PrimitiveType} (arrow : HasArrowType type) :
    ComesBack fieldText typeText (.primitive type) := by
  cases type with
  | variant => exact fun _ _ _ => rfl
  | uuid => exact absurd arrow id
  | geometry crs => exact absurd arrow id
  | geography crs algorithm => exact absurd arrow id
  | unknown => exact absurd arrow id
  | decimal precision scale =>
    apply comesBack_of_toType fieldText typeText rfl
    have small : precision % 256 = precision := Nat.mod_eq_of_lt (Nat.lt_of_le_of_lt arrow (by decide))
    show Except.ok (primitive (.decimal (precision % 256) (tripScale scale))) = _
    rw [small]
    rfl
  | fixed length =>
    apply comesBack_of_toType fieldText typeText rfl
    have small : length < 2147483648 := arrow
    have whole : ((length : Int).bmod 4294967296 % 18446744073709551616).toNat = length := by
      rw [Int.bmod_def]
      split <;> omega
    show Except.ok (primitive (.fixed
      ((length : Int).bmod 4294967296 % 18446744073709551616).toNat)) = _
    rw [whole]
    rfl
  | _ => exact comesBack_of_toType fieldText typeText rfl rfl

/-- The fields come back if the type of each of them does. -/
theorem structFields_toFields {type : StructType} (ids : ∀ field ∈ type.fields, InI32 field.id)
    (back : ∀ field ∈ type.fields, ComesBack fieldText typeText field.fieldType) :
    structFields fieldText typeText (toFields type) = .ok (type.fields.map fun field =>
      bareField field (trip field.fieldType)) := by
  obtain ⟨fields⟩ := type
  induction fields with
  | nil => rfl
  | cons field fields ih =>
    obtain ⟨id, ids⟩ := List.forall_mem_cons.mp ids
    obtain ⟨type, back⟩ := List.forall_mem_cons.mp back
    show structFields fieldText typeText (arrowField field.name field.fieldType (!field.required)
      (idMetadata field.id) :: toFields ⟨fields⟩) = _
    rw [structFields, getFieldId_arrowField fieldText id, type, ih ids back]
    simp [arrowField, fieldOf, bareField]

theorem comesBack (type : IcebergType) (arrow : Representable type) :
    ComesBack fieldText typeText type := by
  induction type with
  | primitive type => exact comesBack_primitive fieldText typeText arrow
  | struct type ih =>
    apply comesBack_of_toType fieldText typeText rfl
    rw [representable_struct] at arrow
    have fields := structFields_toFields fieldText typeText (fun field member => (arrow field member).1)
      fun field member => ih field member (arrow field member).2
    rw [toDataType_struct, toType, fields, trip, rebuilt_struct]
    rfl
  | list type ih =>
    apply comesBack_of_toType fieldText typeText rfl
    obtain ⟨id, element⟩ := (representable_list type).mp arrow
    rw [toDataType_list, toType, getFieldId_arrowField fieldText id, ih element]
    simp [trip, arrowField, fieldOf]
  | map type ihKey ihValue =>
    apply comesBack_of_toType fieldText typeText rfl
    obtain ⟨keyId, key, valueId, value⟩ := (representable_map type).mp arrow
    rw [toDataType_map, toType, getFieldId_arrowField fieldText keyId,
      getFieldId_arrowField fieldText valueId, ihKey key, ihValue value]
    simp [trip, arrowField, fieldOf]

/-- A struct on its way there and back. -/
theorem tryFrom_toArrowSchema {type : StructType} (arrow : Representable (.struct type)) :
    tryFrom fieldText typeText (toArrowSchema type) = .ok ⟨type.fields.map fun field =>
      bareField field (trip field.fieldType)⟩ := by
  rw [representable_struct] at arrow
  have fields := structFields_toFields fieldText typeText (fun field member => (arrow field member).1)
    fun field member => comesBack fieldText typeText field.fieldType (arrow field member).2
  unfold tryFrom toArrowSchema
  rw [fields]
  rfl

/-- What comes back is the type itself where its scales fit. -/
theorem trip_eq_bare {type : IcebergType} (scales : ScalesFit type) : trip type = bare type := by
  unfold trip bare
  induction type with
  | primitive type =>
    cases type with
    | decimal precision scale =>
      exact congrArg (fun scale => primitive (.decimal precision scale))
        (tripScale_eq_iff.mpr scales)
    | _ => rfl
  | struct type ih =>
    rw [scalesFit_struct] at scales
    rw [rebuilt_struct, rebuilt_struct]
    refine congrArg (struct ⟨·⟩) (List.map_congr_left fun field member => ?_)
    rw [ih field member (scales field member)]
  | list type ih =>
    rw [rebuilt_list, rebuilt_list, ih ((scalesFit_list type).mp scales)]
  | map type ihKey ihValue =>
    rw [scalesFit_map] at scales
    rw [rebuilt_map, rebuilt_map, ihKey scales.1, ihValue scales.2]

/-- A struct whose leaves have Arrow types and whose scales fit is the same struct after it has been
an Arrow schema, without docs and defaults. -/
theorem survives_arrow {type : StructType} (arrow : Representable (.struct type))
    (scales : ScalesFit (.struct type)) :
    tryFrom fieldText typeText (toArrowSchema type) = .ok (bareStruct type) := by
  rw [tryFrom_toArrowSchema fieldText typeText arrow]
  have back := trip_eq_bare scales
  unfold trip bare at back
  rw [rebuilt_struct, rebuilt_struct] at back
  exact congrArg Except.ok (IcebergType.struct.inj back)

end FromArrow

/-- A timestamp with a doc, a list of maps of decimals, and a Variant. -/
def readings : StructType :=
  ⟨[⟨1, "at", true, .primitive .timestamptz, some "When.", none, none⟩,
    ⟨2, "values", false, .list ⟨4, false,
      .map ⟨5, .primitive .string, 6, true, .primitive (.decimal 38 9)⟩⟩, none, none, none⟩,
    ⟨3, "body", false, .primitive .variant, none, none, none⟩]⟩

theorem readings_survive :
    tryFrom (fun field => field.name) (fun _ => "type") (toArrowSchema readings) =
      .ok (bareStruct readings) := by
  apply survives_arrow
  · simp [readings, HasArrowType, InI32]
  · simp [readings, ScaleFits]

/-- A scale of 128 comes back as `-128_i8 as u32`. -/
theorem scale_sign_extended :
    ¬ ∀ type : StructType, Representable (.struct type) →
      tryFrom (fun field => field.name) (fun _ => "type") (toArrowSchema type) =
        .ok (bareStruct type) := by
  intro survives
  let wide : StructType := ⟨[⟨1, "amount", true, .primitive (.decimal 38 128), none, none, none⟩]⟩
  have arrow : Representable (.struct wide) := by
    simp [wide, HasArrowType, InI32]
  have back := tryFrom_toArrowSchema (fun field => field.name) (fun _ => "type") arrow
  have same := StructType.mk.inj (Except.ok.inj (back.symm.trans (survives wide arrow)))
  have type := (StructField.mk.inj (List.cons.inj same).1).2.2.2.1
  have scale := (PrimitiveType.decimal.inj (IcebergType.primitive.inj type)).2
  exact absurd scale (by decide)

end IcebergRust.ArrowSchema

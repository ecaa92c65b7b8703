import IcebergRust.Spec.Json
import IcebergRust.Spec.NestedType
import IcebergRust.Spec.TypeText

/-!
# Types as JSON

`Serialize` and `Deserialize` of `Type`, `StructType`, `StructField`, `ListType` and `MapType`
(`iceberg-rust-spec/src/spec/types.rs`).

* `Parsed` holds what the deserializers make of a buffered value.  `Type` is untagged: its variants
  are tried in turn on one value.
* `deserialize_toJson` reduces the round trip of a type to the texts of the primitive types in it;
  `producible_of_deserialize` says which types there are.
-/

namespace IcebergRust

open Fallible IcebergType

/-- The raw JSON of defaults, which fields keep as text. -/
structure RawJson where
  text : Json → String
  parse : String → Json

/-- A text stands for the value it was printed for. -/
structure RawJson.Faithful (raw : RawJson) : Prop where
  text_parse : ∀ json, raw.text (raw.parse (raw.text json)) = raw.text json
  not_null : ∀ json, json ≠ .null → raw.parse (raw.text json) ≠ .null

variable (raw : RawJson)

/-! ### Serialization -/

/-- `Serialize for StructField`, from the JSON of its type. -/
def StructField.toJson (field : StructField) (type : Json) : Json :=
  .object ([("id", .number (.integer field.id)), ("name", .string field.name),
      ("required", .bool field.required), ("type", type)] ++
    (optionalEntry "doc" .string field.doc ++
      (optionalEntry "initial-default" raw.parse field.initialDefault ++
        optionalEntry "write-default" raw.parse field.writeDefault)))

/-- `Serialize for Type`. -/
def IcebergType.toJson (type : IcebergType) : Json :=
  type.fold (fun primitive => .string primitive.serialize)
    (fun fields => .object [("type", .string "struct"),
      ("fields", .array (fields.map fun field => field.1.toJson raw field.2))])
    (fun list element => .object [("type", .string "list"),
      ("element-id", .number (.integer list.elementId)),
      ("element-required", .bool list.elementRequired), ("element", element)])
    (fun map key value => .object [("type", .string "map"), ("key-id", .number (.integer map.keyId)),
      ("key", key), ("value-id", .number (.integer map.valueId)),
      ("value-required", .bool map.valueRequired), ("value", value)])

/-! ### Deserialization -/

/-- What the deserializers make of a value. -/
structure Parsed where
  json : Json
  /-- `Type::deserialize`. -/
  type : Except Error IcebergType
  /-- `StructField::deserialize`. -/
  field : Except Error StructField
  /-- `Vec::<StructField>::deserialize`. -/
  fields : Except Error (List StructField)

/-- The error of an untagged enumeration. -/
def noVariant : Error := .json "data did not match any variant of untagged enum Type"

/-- `Option::<JsonValue>::deserialize`: `null` is none. -/
def Json.textOf : Json → Option String
  | .null => none
  | json => some (raw.text json)

namespace Parsed

/-- A default, which may be left out. -/
def default (found : Option Parsed) : Option String :=
  found.bind fun parsed => parsed.json.textOf raw

/-- The documentation of a field; it may be left out. -/
def docOf : Option Parsed → Except Error (Option String)
  | none => .ok none
  | some parsed => parsed.json.asStringOption

/-- `StructField` from the entries of an object. -/
def fieldOfEntries (entries : List (String × Parsed)) : Except Error StructField := do
  let id ← requireField entries "id"
  let id ← id.json.asI32
  let name ← requireField entries "name"
  let name ← name.json.asString
  let required ← requireField entries "required"
  let required ← required.json.asBool
  let type ← requireField entries "type"
  let fieldType ← type.type
  let doc ← findField entries "doc"
  let doc ← docOf doc
  let initialDefault ← findField entries "initial-default"
  let writeDefault ← findField entries "write-default"
  .ok ⟨id, name, required, fieldType, doc, default raw initialDefault, default raw writeDefault⟩

/-- `StructField` from an array: only the defaults may be left out. -/
def fieldOfItems : List Parsed → Except Error StructField
  | id :: name :: required :: type :: doc :: rest => do
    let id ← id.json.asI32
    let name ← name.json.asString
    let required ← required.json.asBool
    let fieldType ← type.type
    let doc ← doc.json.asStringOption
    if 2 < rest.length then .error (.json "invalid length, expected fewer elements in array")
    else .ok ⟨id, name, required, fieldType, doc, default raw rest[0]?, default raw rest[1]?⟩
  | _ => .error (.json "invalid length, expected struct StructField with 7 elements")

/-- `StructType` from the entries of an object: it knows two keys only. -/
def structOfEntries (entries : List (String × Parsed)) : Except Error StructType :=
  if ¬ ∀ entry ∈ entries, entry.1 = "type" ∨ entry.1 = "fields" then
    .error (.json "unknown field, expected `type` or `fields`")
  else do
    let fields ← requireField entries "fields"
    let fields ← fields.fields
    .ok ⟨fields⟩

/-- `ListType` from the entries of an object. -/
def listOfEntries (entries : List (String × Parsed)) : Except Error ListType := do
  let elementId ← requireField entries "element-id"
  let elementId ← elementId.json.asI32
  let elementRequired ← requireField entries "element-required"
  let elementRequired ← elementRequired.json.asBool
  let element ← requireField entries "element"
  let element ← element.type
  .ok ⟨elementId, elementRequired, element⟩

/-- `ListType` from an array. -/
def listOfItems : List Parsed → Except Error ListType
  | [elementId, elementRequired, element] => do
    let elementId ← elementId.json.asI32
    let elementRequired ← elementRequired.json.asBool
    let element ← element.type
    .ok ⟨elementId, elementRequired, element⟩
  | _ => .error (.json "invalid length, expected struct ListType with 3 elements")

/-- `MapType` from the entries of an object. -/
def mapOfEntries (entries : List (String × Parsed)) : Except Error MapType := do
  let keyId ← requireField entries "key-id"
  let keyId ← keyId.json.asI32
  let key ← requireField entries "key"
  let key ← key.type
  let valueId ← requireField entries "value-id"
  let valueId ← valueId.json.asI32
  let valueRequired ← requireField entries "value-required"
  let valueRequired ← valueRequired.json.asBool
  let value ← requireField entries "value"
  let value ← value.type
  .ok ⟨keyId, key, valueId, valueRequired, value⟩

/-- `MapType` from an array. -/
def mapOfItems : List Parsed → Except Error MapType
  | [keyId, key, valueId, valueRequired, value] => do
    let keyId ← keyId.json.asI32
    let key ← key.type
    let valueId ← valueId.json.asI32
    let valueRequired ← valueRequired.json.asBool
    let value ← value.type
    .ok ⟨keyId, key, valueId, valueRequired, value⟩
  | _ => .error (.json "invalid length, expected struct MapType with 5 elements")

/-- The variants of `Type`, in turn. -/
def firstVariant (struct : Except Error StructType) (list : Except Error ListType)
    (map : Except Error MapType) : Except Error IcebergType :=
  match struct, list, map with
  | .ok struct, _, _ => .ok (.struct struct)
  | .error _, .ok list, _ => .ok (.list list)
  | .error _, .error _, .ok map => .ok (.map map)
  | .error _, .error _, .error _ => .error noVariant

/-- A string is a primitive type or none. -/
def ofString (text : String) : Parsed where
  json := .string text
  type := ((PrimitiveType.deserialize text.toList).map .primitive).mapError fun _ => noVariant
  field := .error (Json.invalidType "struct StructField")
  fields := .error (Json.invalidType "a sequence")

/-- A struct knows no array form. -/
def ofArray (json : Json) (items : List Parsed) : Parsed where
  json := json
  type := firstVariant (.error (Json.invalidType "struct")) (listOfItems items) (mapOfItems items)
  field := fieldOfItems raw items
  fields := items.mapM (·.field)

def ofObject (json : Json) (entries : List (String × Parsed)) : Parsed where
  json := json
  type := firstVariant (structOfEntries entries) (listOfEntries entries) (mapOfEntries entries)
  field := fieldOfEntries raw entries
  fields := .error (Json.invalidType "a sequence")

/-- A value that is neither a string nor a container. -/
def ofScalar (json : Json) : Parsed where
  json := json
  type := .error noVariant
  field := .error (Json.invalidType "struct StructField")
  fields := .error (Json.invalidType "a sequence")

end Parsed

mutual

/-- A buffered value, deserialized from the inside out. -/
def Json.parsed : Json → Parsed
  | .null => .ofScalar .null
  | .bool value => .ofScalar (.bool value)
  | .number number => .ofScalar (.number number)
  | .string text => .ofString text
  | .array items => .ofArray raw (.array items) (parsedItems items)
  | .object entries => .ofObject raw (.object entries) (parsedEntries entries)
termination_by structural json => json

def parsedItems : List Json → List Parsed
  | [] => []
  | item :: items => item.parsed :: parsedItems items
termination_by structural items => items

def parsedEntries : List (String × Json) → List (String × Parsed)
  | [] => []
  | entry :: entries => parsedEntry entry :: parsedEntries entries
termination_by structural entries => entries

def parsedEntry : String × Json → String × Parsed
  | (name, json) => (name, json.parsed)
termination_by structural entry => entry

end

/-- `Type::deserialize`. -/
def IcebergType.deserialize (json : Json) : Except Error IcebergType := (json.parsed raw).type

open Parsed

@[simp]
theorem parsed_array (items : List Json) :
    (Json.array items).parsed raw = .ofArray raw (.array items) (items.map (·.parsed raw)) := by
  refine congrArg (ofArray raw (.array items)) ?_
  induction items with
  | nil => rfl
  | cons item items ih => exact congrArg (_ :: ·) ih

@[simp]
theorem parsed_object (entries : List (String × Json)) :
    (Json.object entries).parsed raw = .ofObject raw (.object entries)
      (entries.map fun entry => (entry.1, entry.2.parsed raw)) := by
  refine congrArg (ofObject raw (.object entries)) ?_
  induction entries with
  | nil => rfl
  | cons entry entries ih =>
    obtain ⟨name, json⟩ := entry
    exact congrArg (_ :: ·) ih

/-! ### What is deserialized -/

/-- A default is the text of a value that is not `null`. -/
def RawJson.Printed (text : Option String) : Prop :=
  ∀ t, text = some t → ∃ json, json ≠ .null ∧ t = raw.text json

/-- What holds of every field that is deserialized, apart from its type. -/
structure FieldOk (field : StructField) : Prop where
  id : InI32 field.id
  initialDefault : raw.Printed field.initialDefault
  writeDefault : raw.Printed field.writeDefault

/-- What holds of every type that is deserialized. -/
def IcebergType.Producible (type : IcebergType) : Prop :=
  type.fold PrimitiveType.Legal (fun fields => ∀ field ∈ fields, FieldOk raw field.1 ∧ field.2)
    (fun list element => InI32 list.elementId ∧ element)
    (fun map key value => InI32 map.keyId ∧ key ∧ InI32 map.valueId ∧ value)

/-- No primitive type in a type is one that its text does not give back. -/
def IcebergType.Written (type : IcebergType) : Prop :=
  type.fold (fun primitive => primitive ≠ .geography (some "") none)
    (fun fields => ∀ field ∈ fields, field.2) (fun _ element => element)
    (fun _ key value => key ∧ value)

variable {raw}

theorem textOf_eq_some {json : Json} {text : String} :
    json.textOf raw = some text ↔ json ≠ .null ∧ text = raw.text json := by
  cases json <;> simp [Json.textOf, eq_comm]

theorem default_printed (found : Option Parsed) : raw.Printed (default raw found) := by
  intro text same
  obtain ⟨parsed, -, same⟩ := Option.bind_eq_some_iff.mp same
  exact ⟨parsed.json, textOf_eq_some.mp same⟩

theorem parsed_json (json : Json) : (json.parsed raw).json = json := by
  cases json <;> rfl

theorem default_parse (faithful : raw.Faithful) {text : Option String} (printed : raw.Printed text) :
    default raw (text.map fun t => (raw.parse t).parsed raw) = text := by
  cases text with
  | none => rfl
  | some t =>
    obtain ⟨json, value, rfl⟩ := printed t rfl
    show ((raw.parse (raw.text json)).parsed raw).json.textOf raw = _
    rw [parsed_json, textOf_eq_some]
    exact ⟨faithful.not_null json value, (faithful.text_parse json).symm⟩

/-! ### From the JSON of a type -/

/-- The entries of a field, read by name. -/
theorem fieldOfEntries_toJson {field : StructField} (inside : InI32 field.id) (type : Json) :
    ((field.toJson raw type).parsed raw).field =
      (type.parsed raw).type.map fun fieldType => { field with
        fieldType := fieldType
        initialDefault := default raw
          (field.initialDefault.map fun text => (raw.parse text).parsed raw)
        writeDefault := default raw
          (field.writeDefault.map fun text => (raw.parse text).parsed raw) } := by
  obtain ⟨id, name, required, fieldType, doc, initialDefault, writeDefault⟩ := field
  have number : (Json.number (.integer id)).asI32 = .ok id := asI32_integer inside
  unfold StructField.toJson
  rw [parsed_object]
  show fieldOfEntries raw _ = _
  simp only [fieldOfEntries, requireField]
  cases doc <;> cases initialDefault <;> cases writeDefault <;>
    simp [optionalEntry, findField, orMissing, parsed_json, number] <;>
    cases (type.parsed raw).type <;> rfl

theorem parsed_field (faithful : raw.Faithful) {field : StructField} (okay : FieldOk raw field)
    (type : Json) :
    ((field.toJson raw type).parsed raw).field =
      (type.parsed raw).type.map fun fieldType => { field with fieldType := fieldType } := by
  rw [fieldOfEntries_toJson okay.id, default_parse faithful okay.initialDefault,
    default_parse faithful okay.writeDefault]

theorem firstVariant_struct {struct : Except Error StructType} {e e' : Error} {type : StructType} :
    firstVariant struct (.error e) (.error e') = .ok (.struct type) ↔ struct = .ok type := by
  cases struct with
  | error e => exact iff_of_false nofun nofun
  | ok struct => simp [firstVariant]

theorem firstVariant_list {list : Except Error ListType} {e e' : Error} {type : ListType} :
    firstVariant (.error e) list (.error e') = .ok (.list type) ↔ list = .ok type := by
  cases list with
  | error e => exact iff_of_false nofun nofun
  | ok list => simp [firstVariant]

theorem firstVariant_map {map : Except Error MapType} {e e' : Error} {type : MapType} :
    firstVariant (.error e) (.error e') map = .ok (.map type) ↔ map = .ok type := by
  cases map with
  | error e => exact iff_of_false nofun nofun
  | ok map => simp [firstVariant]

/-- The fields of a struct are read one by one. -/
theorem deserialize_struct {type : StructType} :
    IcebergType.deserialize raw ((struct type).toJson raw) = .ok (.struct type) ↔
      ∀ field ∈ type.fields,
        ((field.toJson raw (field.fieldType.toJson raw)).parsed raw).field = .ok field := by
  have fields : ((struct type).toJson raw).parsed raw =
      .ofObject raw ((struct type).toJson raw)
        [("type", (Json.string "struct").parsed raw), ("fields", (Json.array (type.fields.map
          fun field => field.toJson raw (field.fieldType.toJson raw))).parsed raw)] := by
    unfold toJson
    rw [fold_struct, parsed_object, List.map_map]
    rfl
  unfold IcebergType.deserialize
  rw [fields]
  refine firstVariant_struct.trans ?_
  have found {a b : Parsed} : requireField [("type", a), ("fields", b)] "fields" = .ok b := by
    simp [requireField, findField, orMissing]
  unfold structOfEntries
  rw [if_neg (by simp), found, ok_bind, parsed_array]
  simp only [ofArray, bind_eq_ok, List.map_map, mapM_eq_ok]
  constructor
  · rintro ⟨_, read, same⟩
    cases same
    exact List.forall₂_same.mp (List.forall₂_map_left_iff.mp read)
  · intro each
    refine ⟨type.fields, List.forall₂_map_left_iff.mpr (List.forall₂_same.mpr each), ?_⟩
    cases type
    rfl

theorem deserialize_list {type : ListType} (inside : InI32 type.elementId) :
    IcebergType.deserialize raw ((list type).toJson raw) = .ok (.list type) ↔
      IcebergType.deserialize raw (type.element.toJson raw) = .ok type.element := by
  have entries : ((list type).toJson raw).parsed raw =
      .ofObject raw ((list type).toJson raw)
        [("type", (Json.string "list").parsed raw),
          ("element-id", (Json.number (.integer type.elementId)).parsed raw),
          ("element-required", (Json.bool type.elementRequired).parsed raw),
          ("element", (type.element.toJson raw).parsed raw)] := by
    unfold toJson
    rw [fold_list, parsed_object]
    rfl
  have number : (Json.number (.integer type.elementId)).asI32 = .ok type.elementId :=
    asI32_integer inside
  have read (element : Parsed) : listOfEntries
      [("type", (Json.string "list").parsed raw),
        ("element-id", (Json.number (.integer type.elementId)).parsed raw),
        ("element-required", (Json.bool type.elementRequired).parsed raw), ("element", element)] =
      element.type.map fun element => { type with element := element } := by
    simp [listOfEntries, requireField, findField, orMissing, parsed_json, number, Json.asBool]
    cases element.type <;> rfl
  unfold IcebergType.deserialize
  rw [entries]
  refine firstVariant_list.trans ?_
  rw [read, map_eq_ok]
  constructor
  · rintro ⟨element, run, same⟩
    rw [run, ← same]
  · intro run
    refine ⟨type.element, run, ?_⟩
    cases type
    rfl

theorem deserialize_map {type : MapType} (inside : InI32 type.keyId) (inside' : InI32 type.valueId) :
    IcebergType.deserialize raw ((map type).toJson raw) = .ok (.map type) ↔
      IcebergType.deserialize raw (type.key.toJson raw) = .ok type.key ∧
        IcebergType.deserialize raw (type.value.toJson raw) = .ok type.value := by
  have entries : ((map type).toJson raw).parsed raw =
      .ofObject raw ((map type).toJson raw)
        [("type", (Json.string "map").parsed raw),
          ("key-id", (Json.number (.integer type.keyId)).parsed raw),
          ("key", (type.key.toJson raw).parsed raw),
          ("value-id", (Json.number (.integer type.valueId)).parsed raw),
          ("value-required", (Json.bool type.valueRequired).parsed raw),
          ("value", (type.value.toJson raw).parsed raw)] := by
    unfold toJson
    rw [fold_map, parsed_object]
    rfl
  have number : (Json.number (.integer type.keyId)).asI32 = .ok type.keyId := asI32_integer inside
  have number' : (Json.number (.integer type.valueId)).asI32 = .ok type.valueId :=
    asI32_integer inside'
  have read (key value : Parsed) : mapOfEntries
      [("type", (Json.string "map").parsed raw),
        ("key-id", (Json.number (.integer type.keyId)).parsed raw), ("key", key),
        ("value-id", (Json.number (.integer type.valueId)).parsed raw),
        ("value-required", (Json.bool type.valueRequired).parsed raw), ("value", value)] =
      key.type >>= fun key => value.type.map fun value =>
        { type with key := key, value := value } := by
    simp [mapOfEntries, requireField, findField, orMissing, parsed_json, number, number',
      Json.asBool]
    cases key.type <;> cases value.type <;> rfl
  unfold IcebergType.deserialize
  rw [entries]
  refine firstVariant_map.trans ?_
  rw [read, bind_eq_ok]
  constructor
  · rintro ⟨key, run, run'⟩
    obtain ⟨value, run', same⟩ := map_eq_ok.mp run'
    rw [run, run', ← same]
    exact ⟨rfl, rfl⟩
  · rintro ⟨run, run'⟩
    refine ⟨type.key, run, map_eq_ok.mpr ⟨type.value, run', ?_⟩⟩
    cases type
    rfl

theorem deserialize_primitive {type : PrimitiveType} :
    IcebergType.deserialize raw ((primitive type).toJson raw) = .ok (.primitive type) ↔
      PrimitiveType.deserialize type.serialize.toList = .ok type := by
  show ((PrimitiveType.deserialize type.serialize.toList).map primitive).mapError _ =
    _ ↔ _
  rw [mapError_eq_ok, map_eq_ok]
  constructor
  · rintro ⟨other, run, same⟩
    cases same
    exact run
  · exact fun run => ⟨type, run, rfl⟩

/-- A type is given back by its JSON where every primitive type in it is by its text. -/
theorem deserialize_toJson (faithful : raw.Faithful) {type : IcebergType}
    (producible : type.Producible raw) :
    IcebergType.deserialize raw (type.toJson raw) = .ok type ↔ type.Written := by
  unfold IcebergType.Producible at producible
  unfold IcebergType.Written
  induction type with
  | primitive type =>
    rw [deserialize_primitive]
    exact PrimitiveType.deserialize_serialize_iff producible
  | struct type ih =>
    rw [fold_struct, List.forall_mem_map] at producible
    rw [deserialize_struct, fold_struct, List.forall_mem_map]
    refine forall₂_congr fun field member => ?_
    obtain ⟨okay, inside⟩ := producible field member
    rw [parsed_field faithful okay, map_eq_ok, ← ih field member inside]
    constructor
    · rintro ⟨fieldType, run, same⟩
      have fieldTypes : fieldType = field.fieldType := congrArg StructField.fieldType same
      exact fieldTypes ▸ run
    · intro run
      refine ⟨field.fieldType, run, ?_⟩
      cases field
      rfl
  | list type ih =>
    rw [fold_list] at producible
    rw [deserialize_list producible.1, fold_list]
    exact ih producible.2
  | map type ih ih' =>
    rw [fold_map] at producible
    obtain ⟨inside, key, inside', value⟩ := producible
    rw [deserialize_map inside inside', fold_map]
    exact and_congr (ih key) (ih' value)

/-! ### The types there are -/

/-- What is made of a value has the shape the round trip is about. -/
structure Parsed.Sound (raw : RawJson) (parsed : Parsed) : Prop where
  type : ∀ type, parsed.type = .ok type → type.Producible raw
  field : ∀ field, parsed.field = .ok field → FieldOk raw field ∧ field.fieldType.Producible raw
  fields : ∀ fields, parsed.fields = .ok fields →
    ∀ field ∈ fields, FieldOk raw field ∧ field.fieldType.Producible raw

theorem firstVariant_eq_ok {struct : Except Error StructType} {list : Except Error ListType}
    {map : Except Error MapType} {type : IcebergType}
    (run : firstVariant struct list map = .ok type) :
    (∃ t, struct = .ok t ∧ type = .struct t) ∨ (∃ t, list = .ok t ∧ type = .list t) ∨
      ∃ t, map = .ok t ∧ type = .map t := by
  cases struct with
  | ok t =>
    cases run
    exact .inl ⟨t, rfl, rfl⟩
  | error e =>
    cases list with
    | ok t =>
      cases run
      exact .inr (.inl ⟨t, rfl, rfl⟩)
    | error e' =>
      cases map with
      | ok t =>
        cases run
        exact .inr (.inr ⟨t, rfl, rfl⟩)
      | error e'' => cases run

theorem producible_list {type : ListType} (inside : InI32 type.elementId)
    (element : type.element.Producible raw) : (list type).Producible raw := by
  unfold IcebergType.Producible
  rw [fold_list]
  exact ⟨inside, element⟩

theorem producible_map {type : MapType} (inside : InI32 type.keyId) (key : type.key.Producible raw)
    (inside' : InI32 type.valueId) (value : type.value.Producible raw) :
    (map type).Producible raw := by
  unfold IcebergType.Producible
  rw [fold_map]
  exact ⟨inside, key, inside', value⟩

theorem producible_struct {type : StructType}
    (fields : ∀ field ∈ type.fields, FieldOk raw field ∧ field.fieldType.Producible raw) :
    (struct type).Producible raw := by
  unfold IcebergType.Producible
  rw [fold_struct, List.forall_mem_map]
  exact fields

/-- An array of sound values is sound. -/
theorem sound_ofArray {json : Json} {items : List Parsed} (sound : ∀ item ∈ items, item.Sound raw) :
    (ofArray raw json items).Sound raw where
  type := by
    intro type run
    rcases firstVariant_eq_ok run with ⟨t, made, -⟩ | ⟨t, made, rfl⟩ | ⟨t, made, rfl⟩
    · cases made
    · unfold listOfItems at made
      split at made
      · simp only [bind_eq_ok] at made
        obtain ⟨id, read, _, -, element, typed, same⟩ := made
        cases same
        exact producible_list (asI32_eq_ok read) ((sound _ (by simp)).type _ typed)
      · cases made
    · unfold mapOfItems at made
      split at made
      · simp only [bind_eq_ok] at made
        obtain ⟨id, read, key, typed, id', read', _, -, value, typed', same⟩ := made
        cases same
        exact producible_map (asI32_eq_ok read) ((sound _ (by simp)).type _ typed)
          (asI32_eq_ok read') ((sound _ (by simp)).type _ typed')
      · cases made
  field := by
    intro field run
    change fieldOfItems raw items = _ at run
    unfold fieldOfItems at run
    split at run
    · simp only [bind_eq_ok, guard_eq_ok] at run
      obtain ⟨id, read, _, -, _, -, type, typed, _, -, -, same⟩ := run
      cases same
      exact ⟨⟨asI32_eq_ok read, default_printed _, default_printed _⟩,
        (sound _ (by simp)).type _ typed⟩
    · cases run
  fields := by
    intro fields run field member
    obtain ⟨item, inside, made⟩ := exists_of_mem_mapM run member
    exact (sound item inside).field field made

/-- An object of sound values is sound. -/
theorem sound_ofObject {json : Json} {entries : List (String × Parsed)}
    (sound : ∀ entry ∈ entries, entry.2.Sound raw) :
    (ofObject raw json entries).Sound raw := by
  have found {name : String} {value : Parsed} (run : requireField entries name = .ok value) :
      value.Sound raw := by
    obtain ⟨entry, member, rfl⟩ := mem_of_requireField run
    exact sound entry member
  refine ⟨?_, ?_, nofun⟩
  · intro type run
    rcases firstVariant_eq_ok run with ⟨t, made, rfl⟩ | ⟨t, made, rfl⟩ | ⟨t, made, rfl⟩
    · obtain ⟨-, made⟩ := guard_eq_ok.mp made
      simp only [bind_eq_ok] at made
      obtain ⟨value, here, fields, read, same⟩ := made
      cases same
      exact producible_struct ((found here).fields fields read)
    · simp only [listOfEntries, bind_eq_ok] at made
      obtain ⟨_, -, id, read, _, -, _, -, value, here, element, typed, same⟩ := made
      cases same
      exact producible_list (asI32_eq_ok read) ((found here).type _ typed)
    · simp only [mapOfEntries, bind_eq_ok] at made
      obtain ⟨_, -, id, read, value, here, key, typed, _, -, id', read', _, -, _, -, value', here',
        element, typed', same⟩ := made
      cases same
      exact producible_map (asI32_eq_ok read) ((found here).type _ typed) (asI32_eq_ok read')
        ((found here').type _ typed')
  · intro field run
    change fieldOfEntries raw entries = _ at run
    simp only [fieldOfEntries, bind_eq_ok] at run
    obtain ⟨_, -, id, read, _, -, _, -, _, -, _, -, value, here, type, typed, _, -, _, -, _, -, _, -,
      same⟩ := run
    cases same
    exact ⟨⟨asI32_eq_ok read, default_printed _, default_printed _⟩, (found here).type _ typed⟩

theorem sound_parsed (json : Json) : (json.parsed raw).Sound raw := by
  induction json with
  | null => exact ⟨nofun, nofun, nofun⟩
  | bool value => exact ⟨nofun, nofun, nofun⟩
  | number number => exact ⟨nofun, nofun, nofun⟩
  | string text =>
    refine ⟨?_, nofun, nofun⟩
    intro type run
    change ((PrimitiveType.deserialize text.toList).map primitive).mapError _ = _ at run
    obtain ⟨primitive, read, rfl⟩ := map_eq_ok.mp (mapError_eq_ok.mp run)
    exact PrimitiveType.legal_of_deserialize read
  | array items ih =>
    rw [parsed_array]
    exact sound_ofArray (List.forall_mem_map.mpr ih)
  | object entries ih =>
    rw [parsed_object]
    exact sound_ofObject (List.forall_mem_map.mpr ih)

/-- The only error of the untagged enumeration is its own. -/
theorem deserialize_eq_error {json : Json} {e : Error}
    (failed : IcebergType.deserialize raw json = .error e) : e = noVariant := by
  have variants {struct : Except Error StructType} {list : Except Error ListType}
      {map : Except Error MapType} (failed : firstVariant struct list map = .error e) :
      e = noVariant := by
    cases struct <;> cases list <;> cases map <;> cases failed
    rfl
  unfold IcebergType.deserialize at failed
  cases json with
  | null | bool | number =>
    cases failed
    rfl
  | string text =>
    change ((PrimitiveType.deserialize text.toList).map primitive).mapError _ = _
      at failed
    cases read : PrimitiveType.deserialize text.toList with
    | ok type =>
      rw [read] at failed
      cases failed
    | error e' =>
      rw [read] at failed
      cases failed
      rfl
  | array items => exact variants (parsed_array raw items ▸ failed)
  | object entries => exact variants (parsed_object raw entries ▸ failed)

/-- **Round trips of types.**  Deserializing never panics, and a type that the deserializer produces
is given back by its JSON exactly if no `geography` with an empty coordinate system and no
algorithm is in it. -/
theorem type_json_iff (faithful : raw.Faithful) {type : IcebergType} {json : Json}
    (produced : IcebergType.deserialize raw json = .ok type) :
    ((∀ json, ¬ Panics (IcebergType.deserialize raw json)) ∧
      IcebergType.deserialize raw (type.toJson raw) = .ok type) ↔ type.Written := by
  have calm (json : Json) : ¬ Panics (IcebergType.deserialize raw json) := by
    rintro ⟨what, failed⟩
    cases deserialize_eq_error failed
  rw [and_iff_right calm]
  exact deserialize_toJson faithful ((sound_parsed json).type type produced)

/-- Raw JSON of two values. -/
def nullOrOne : RawJson where
  text json := match json with
    | .null => "null"
    | _ => "1"
  parse text := if text = "null" then .null else .number (.integer 1)

theorem nullOrOne_faithful : nullOrOne.Faithful where
  text_parse json := by cases json <;> rfl
  not_null json := by cases json <;> simp [nullOrOne]

/-- A list of decimals. -/
def decimalList : Json :=
  .object [("type", .string "list"), ("element-id", .number (.integer 1)),
    ("element-required", .bool true), ("element", .string "decimal(9, 2)")]

theorem type_json_decimal : IcebergType.deserialize nullOrOne
    ((IcebergType.list ⟨1, true, .primitive (.decimal 9 2)⟩).toJson nullOrOne) =
      .ok (.list ⟨1, true, .primitive (.decimal 9 2)⟩) := by
  have produced : IcebergType.deserialize nullOrOne decimalList =
      .ok (.list ⟨1, true, .primitive (.decimal 9 2)⟩) := by rfl
  refine ((type_json_iff nullOrOne_faithful produced).mpr ?_).2
  unfold IcebergType.Written
  rw [IcebergType.fold_list]
  exact nofun

theorem geography_lost : ¬ ∀ (raw : RawJson) (type : IcebergType) (json : Json), raw.Faithful →
    IcebergType.deserialize raw json = .ok type →
      IcebergType.deserialize raw (type.toJson raw) = .ok type := by
  intro given
  have produced : IcebergType.deserialize nullOrOne (.string "geography(,)") =
      .ok (.primitive (.geography (some "") none)) := by rfl
  have kept := given nullOrOne _ _ nullOrOne_faithful produced
  have failed : IcebergType.deserialize nullOrOne
      ((IcebergType.primitive (.geography (some "") none)).toJson nullOrOne) =
        .error noVariant := by rfl
  rw [failed] at kept
  cases kept

end IcebergRust

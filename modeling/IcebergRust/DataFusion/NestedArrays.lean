import IcebergRust.Spec.Decimal

/-!
# Nested Arrow types and arrays

What `variant_schema_adapter.rs` uses of Arrow: data types whose fields carry a name, metadata and a
type of their own, and the arrays of such types.

* The three kinds of lists are one constructor of `DataType`, and so are their arrays.
* A null buffer says which slots are valid.
* `DataType.induction` is the induction over the fields inside a type.
-/

namespace IcebergRust.SchemaAdapter

/-! ### Types -/

inductive TimeUnit where
  | second
  | millisecond
  | microsecond
  | nanosecond
deriving DecidableEq, Repr

/-- The types whose fields nothing looks at, most of which have none. -/
inductive LeafType where
  | null
  | boolean
  | int8
  | int16
  | int32
  | int64
  | float32
  | float64
  | decimal128 (precision : Nat) (scale : Int)
  | date32
  | time64 (unit : TimeUnit)
  | timestamp (unit : TimeUnit) (timezone : Option String)
  | utf8
  | largeUtf8
  | utf8View
  | binary
  | largeBinary
  | binaryView
  | fixedSizeBinary (size : Int)
  /-- The others, by their `Display`. -/
  | other (text : String)
deriving DecidableEq, Repr

/-- The metadata of a field: the entries `PARQUET:field_id` and `ARROW:extension:name`, and the
others. -/
structure Metadata where
  fieldId : Option String
  extensionName : Option String
  others : List (String × String)
deriving DecidableEq, Repr

inductive ListKind where
  | list
  | largeList
  | fixedSizeList (size : Int)
deriving DecidableEq, Repr

mutual

inductive DataType where
  | leaf (type : LeafType)
  | struct (fields : List Field)
  | list (kind : ListKind) (field : Field)
  | map (field : Field) (ordered : Bool)

structure Field where
  name : String
  dataType : DataType
  nullable : Bool
  metadata : Metadata

end

abbrev Fields := List Field

mutual

def DataType.decEq : (a b : DataType) → Decidable (a = b)
  | .leaf s, .leaf t => decidable_of_iff (s = t) (by simp)
  | .struct s, .struct t =>
    match fieldsDecEq s t with
    | isTrue same => isTrue (by rw [same])
    | isFalse differ => isFalse (by simpa using differ)
  | .list k f, .list l g =>
    match Field.decEq f g with
    | isTrue same => decidable_of_iff (k = l) (by simp [same])
    | isFalse differ => isFalse (by simp [differ])
  | .map f o, .map g p =>
    match Field.decEq f g with
    | isTrue same => decidable_of_iff (o = p) (by simp [same])
    | isFalse differ => isFalse (by simp [differ])
  | .leaf _, .struct _ => isFalse nofun
  | .leaf _, .list _ _ => isFalse nofun
  | .leaf _, .map _ _ => isFalse nofun
  | .struct _, .leaf _ => isFalse nofun
  | .struct _, .list _ _ => isFalse nofun
  | .struct _, .map _ _ => isFalse nofun
  | .list _ _, .leaf _ => isFalse nofun
  | .list _ _, .struct _ => isFalse nofun
  | .list _ _, .map _ _ => isFalse nofun
  | .map _ _, .leaf _ => isFalse nofun
  | .map _ _, .struct _ => isFalse nofun
  | .map _ _, .list _ _ => isFalse nofun
termination_by structural a => a

def Field.decEq : (a b : Field) → Decidable (a = b)
  | ⟨n, t, u, m⟩, ⟨n', t', u', m'⟩ =>
    match DataType.decEq t t' with
    | isTrue same => decidable_of_iff (n = n' ∧ u = u' ∧ m = m') (by simp [same])
    | isFalse differ => isFalse (by simp [differ])
termination_by structural a => a

def fieldsDecEq : (a b : List Field) → Decidable (a = b)
  | [], [] => isTrue rfl
  | [], _ :: _ => isFalse nofun
  | _ :: _, [] => isFalse nofun
  | f :: fs, g :: gs =>
    match Field.decEq f g, fieldsDecEq fs gs with
    | isTrue head, isTrue tail => isTrue (by rw [head, tail])
    | isFalse differ, _ => isFalse (by simp [differ])
    | _, isFalse differ => isFalse (by simp [differ])
termination_by structural a => a

end

instance : DecidableEq DataType := DataType.decEq
instance : DecidableEq Field := Field.decEq

/-- `field_id`. -/
def Field.fieldId (field : Field) : Option Int :=
  field.metadata.fieldId.bind fun text =>
    (parseI64 text).filter fun id => decide (-2147483648 ≤ id ∧ id ≤ 2147483647)

/-- What holds of a type when it holds of the types of its fields holds of every type. -/
@[elab_as_elim, induction_eliminator]
theorem DataType.induction {motive : DataType → Prop} (leaf : ∀ type, motive (.leaf type))
    (struct : ∀ fields : Fields, (∀ field ∈ fields, motive field.dataType) →
      motive (.struct fields))
    (list : ∀ kind (field : Field), motive field.dataType → motive (.list kind field))
    (map : ∀ (field : Field) ordered, motive field.dataType → motive (.map field ordered))
    (type : DataType) : motive type :=
  @DataType.rec motive (fun field => motive field.dataType)
    (fun fields => ∀ field ∈ fields, motive field.dataType)
    leaf struct list map (fun _ _ _ _ inside => inside) (by simp)
    (fun _ _ head tail => List.forall_mem_cons.mpr ⟨head, tail⟩) type

/-! ### Arrays -/

/-- Which slots are valid; without a buffer all of them are. -/
abbrev NullBuffer := List Bool

/-- How the slots of a list array divide its values. -/
inductive ListLayout where
  | list (offsets : List Nat)
  | largeList (offsets : List Nat)
  | fixedSizeList (size : Int) (length : Nat)
deriving DecidableEq, Repr

def ListLayout.kind : ListLayout → ListKind
  | .list _ => .list
  | .largeList _ => .largeList
  | .fixedSizeList size _ => .fixedSizeList size

/-- The number of lists. -/
def ListLayout.length : ListLayout → Nat
  | .list offsets => offsets.length - 1
  | .largeList offsets => offsets.length - 1
  | .fixedSizeList _ length => length

/-- An array, with values of some kind in its leaves. -/
inductive ArrayRef (V : Type) where
  | leaf (type : LeafType) (slots : List (Option V))
  | struct (fields : Fields) (columns : List (ArrayRef V)) (nulls : Option NullBuffer)
    (length : Nat)
  | list (layout : ListLayout) (field : Field) (values : ArrayRef V) (nulls : Option NullBuffer)
  | map (field : Field) (offsets : List Nat) (entries : ArrayRef V) (nulls : Option NullBuffer)
    (ordered : Bool)

namespace ArrayRef

variable {V : Type}

/-- `Array::data_type`. -/
def dataType : ArrayRef V → DataType
  | .leaf type _ => .leaf type
  | .struct fields _ _ _ => .struct fields
  | .list layout field _ _ => .list layout.kind field
  | .map field _ _ _ ordered => .map field ordered

/-- `Array::len`. -/
def length : ArrayRef V → Nat
  | .leaf _ slots => slots.length
  | .struct _ _ _ length => length
  | .list layout _ _ _ => layout.length
  | .map _ offsets _ _ _ => offsets.length - 1

/-- Whether a slot is null in a buffer. -/
def masked (nulls : Option NullBuffer) (index : Nat) : Bool :=
  nulls.any fun valid => valid[index]? = some false

/-- `Array::is_null`. -/
def isNull : ArrayRef V → Nat → Bool
  | .leaf _ slots, index => slots[index]?.any (·.isNone)
  | .struct _ _ nulls _, index => masked nulls index
  | .list _ _ _ nulls, index => masked nulls index
  | .map _ _ _ nulls _, index => masked nulls index

end ArrayRef

/-- The layout of lists that are all null. -/
def ListKind.nullLayout (length : Nat) : ListKind → ListLayout
  | .list => .list (List.replicate (length + 1) 0)
  | .largeList => .largeList (List.replicate (length + 1) 0)
  | .fixedSizeList size => .fixedSizeList size length

/-- How many values lists that are all null have. -/
def ListKind.nullValues (length : Nat) : ListKind → Nat
  | .list | .largeList => 0
  | .fixedSizeList size => size.toNat * length

section Null

variable (V : Type)

mutual

/-- `new_null_array`. -/
def newNullArray : DataType → Nat → ArrayRef V
  | .leaf type, length => .leaf type (List.replicate length none)
  | .struct fields, length =>
    .struct fields (newNullColumns fields length) (some (List.replicate length false)) length
  | .list kind field, length =>
    .list (kind.nullLayout length) field (newNullField field (kind.nullValues length))
      (some (List.replicate length false))
  | .map field ordered, length =>
    .map field (List.replicate (length + 1) 0) (newNullField field 0)
      (some (List.replicate length false)) ordered
termination_by structural type => type

def newNullField : Field → Nat → ArrayRef V
  | ⟨_, dataType, _, _⟩, length => newNullArray dataType length
termination_by structural field => field

def newNullColumns : List Field → Nat → List (ArrayRef V)
  | [], _ => []
  | field :: fields, length => newNullField field length :: newNullColumns fields length
termination_by structural fields => fields

end

end Null

variable {V : Type}

theorem kind_nullLayout (kind : ListKind) (length : Nat) : (kind.nullLayout length).kind = kind := by
  cases kind <;> rfl

/-- A null array has the type it is made for. -/
theorem dataType_newNullArray (type : DataType) (length : Nat) :
    (newNullArray V type length).dataType = type := by
  cases type with
  | leaf _ => rfl
  | struct _ => rfl
  | list kind field => exact congrArg (DataType.list · field) (kind_nullLayout kind length)
  | map _ _ => rfl

/-- All its slots are null. -/
theorem isNull_newNullArray (type : DataType) {length index : Nat} (within : index < length) :
    (newNullArray V type length).isNull index = true := by
  have buffer : ArrayRef.masked (some (List.replicate length false)) index = true := by
    simp [ArrayRef.masked, within]
  cases type with
  | leaf _ => simp [newNullArray, ArrayRef.isNull, within]
  | struct _ => exact buffer
  | list _ _ => exact buffer
  | map _ _ => exact buffer

end IcebergRust.SchemaAdapter

import IcebergRust.DataFusion.NestedArrays
import IcebergRust.Spec.Types

/-!
# Reading files under a newer schema

`IcebergPhysicalExprAdapter` of `datafusion_iceberg/src/variant_schema_adapter.rs`: an expression
over the logical schema of a table becomes one over the physical schema of a file.

* `NestedProjection` says how the fields inside a column are matched: `NestedProjection.new` builds
  it from two types, `NestedProjection.apply` evaluates it on an array.
* `rewriteColumn` is what becomes of a column; the default adapter, which goes by names, is asked
  where nothing has changed.
* Arrow's kernels and the validity checks of its arrays are `ArrowLibrary`.
-/

namespace IcebergRust.SchemaAdapter

/-- How building or evaluating an expression fails. -/
inductive AdapterError where
  | execution (what : String)
  | internal (what : String)
  | arrow (what : String)
  | panicked (what : String)
deriving DecidableEq, Repr

/-! ### Nested projections -/

mutual

/-- `NestedProjection`; the three kinds of lists are one constructor. -/
inductive NestedProjection where
  | struct (projection : StructProjection)
  | list (kind : ListKind) (field : Field) (values : Option NestedProjection)
  | map (field : Field) (ordered : Bool) (entries : Option NestedProjection)

structure StructProjection where
  targetFields : Fields
  children : List StructChildProjection

structure StructChildProjection where
  sourceIndex : Option Nat
  target : Field
  nested : Option NestedProjection

end

/-- `verify_container_child_id`. -/
def verifyContainerChildId (source target : Field) : Except AdapterError Unit :=
  match source.fieldId, target.fieldId with
  | some sourceId, some targetId =>
    if sourceId ≠ targetId then
      .error (.execution ("Iceberg container child '" ++ target.name ++
        "' changed field ID from " ++ toString sourceId ++ " to " ++ toString targetId))
    else .ok ()
  | _, _ => .ok ()

/-- Whether two kinds of lists are projected onto each other; the width of fixed-size lists does
not change. -/
def ListKind.projects : (source target : ListKind) → Except AdapterError Bool
  | .list, .list => .ok true
  | .largeList, .largeList => .ok true
  | .fixedSizeList sourceSize, .fixedSizeList size =>
    if sourceSize ≠ size then
      .error (.execution "Iceberg fixed-size list width changed across schemas")
    else .ok true
  | _, _ => .ok false

/-- The source of a field of a struct: by id if the file has ids, else by name. -/
def sourceIndex (source : Fields) (target : Field) : Option Nat :=
  match source.any (·.fieldId.isSome), target.fieldId with
  | true, some id => source.findIdx? fun field => field.fieldId = some id
  | _, _ => source.findIdx? fun field => field.name = target.name

mutual

/-- `NestedProjection::new`. -/
def NestedProjection.new :
    (source target : DataType) → Except AdapterError (Option NestedProjection)
  | _, .leaf _ => .ok none
  | source, .struct targetFields =>
    if source = .struct targetFields then .ok none
    else match source with
      | .struct sourceFields => (newChildren sourceFields targetFields).map fun children =>
          some (.struct ⟨targetFields, children⟩)
      | _ => .ok none
  | source, .list kind target =>
    if source = .list kind target then .ok none
    else match source with
      | .list sourceKind source => do
        if ← sourceKind.projects kind then do
          verifyContainerChildId source target
          (newField source target).map fun values => some (.list kind target values)
        else .ok none
      | _ => .ok none
  | source, .map target ordered =>
    if source = .map target ordered then .ok none
    else match source with
      | .map source _ => do
        verifyContainerChildId source target
        (newField source target).map fun entries => some (.map target ordered entries)
      | _ => .ok none
termination_by structural _ target => target

/-- The projection of the values of a list or of the entries of a map. -/
def newField (source : Field) : Field → Except AdapterError (Option NestedProjection)
  | ⟨_, dataType, _, _⟩ => NestedProjection.new source.dataType dataType
termination_by structural target => target

/-- The projection of a field of a struct. -/
def newChild (source : Fields) : Field → Except AdapterError StructChildProjection
  | ⟨name, dataType, nullable, metadata⟩ =>
    match sourceIndex source ⟨name, dataType, nullable, metadata⟩ with
    | none =>
      if nullable then .ok ⟨none, ⟨name, dataType, nullable, metadata⟩, none⟩
      else .error (.execution ("Required Iceberg struct field '" ++ name ++
        "' is absent from the data file"))
    | some index =>
      match source[index]? with
      | some field => (NestedProjection.new field.dataType dataType).map fun nested =>
          ⟨some index, ⟨name, dataType, nullable, metadata⟩, nested⟩
      | none => .error (.panicked "index out of bounds")
termination_by structural target => target

/-- `StructProjection::new`. -/
def newChildren (source : Fields) : List Field → Except AdapterError (List StructChildProjection)
  | [] => .ok []
  | target :: targets => do
    let child ← newChild source target
    (newChildren source targets).map (child :: ·)
termination_by structural targets => targets

end

/-- `needs_nested_projection`. -/
def needsNestedProjection (source target : DataType) : Bool :=
  source ≠ target && match source, target with
    | .struct _, .struct _ => true
    | .list .list _, .list .list _ => true
    | .list .largeList _, .list .largeList _ => true
    | .list (.fixedSizeList _) _, .list (.fixedSizeList _) _ => true
    | .map _ _, .map _ _ => true
    | _, _ => false

/-! ### Applying a projection -/

/-- What a column of a batch becomes. -/
inductive ColumnarValue (V : Type) where
  | array (array : ArrayRef V)
  /-- A null of a type, in every row. -/
  | null (type : DataType)

/-- What is used of Arrow and DataFusion. -/
structure ArrowLibrary (V : Type) where
  /-- The checks that `try_new` of an array makes of its parts. -/
  valid : ArrayRef V → Bool
  /-- `arrow::compute::cast`. -/
  cast : ArrayRef V → DataType → Except AdapterError (ArrayRef V)
  /-- `CastExpr`, of a value that was evaluated. -/
  castExpr : ColumnarValue V → Field → Except AdapterError (ColumnarValue V)
  /-- `UnshredVariantExpr`, of a value that was evaluated. -/
  unshredVariant : ColumnarValue V → Field → Except AdapterError (ColumnarValue V)
  /-- The other expressions of a query. -/
  call : String → List (ColumnarValue V) → Except AdapterError (ColumnarValue V)

section Apply

variable {V : Type} (library : ArrowLibrary V)

/-- `try_new` of lists and maps. -/
def tryNew (array : ArrayRef V) : Except AdapterError (ArrayRef V) :=
  if library.valid array then .ok array else .error (.arrow "invalid array")

/-- `StructArray::try_new`, which takes its length from the first column. -/
def structTryNew (fields : Fields) (columns : List (ArrayRef V)) (nulls : Option NullBuffer) :
    Except AdapterError (ArrayRef V) :=
  match columns with
  | [] => .error (.arrow "use StructArray::try_new_with_length")
  | first :: _ => tryNew library (.struct fields columns nulls first.length)

/-- The layout of a list array of the expected kind. -/
def ListKind.downcast : ListKind → ListLayout → Option ListLayout
  | .list, .list offsets => some (.list offsets)
  | .largeList, .largeList offsets => some (.largeList offsets)
  | .fixedSizeList size, .fixedSizeList _ length => some (.fixedSizeList size length)
  | _, _ => none

/-- A kind of lists in an error. -/
def ListKind.text : ListKind → String
  | .list => "a list"
  | .largeList => "a large list"
  | .fixedSizeList _ => "a fixed-size list"

mutual

/-- `NestedProjection::apply`. -/
def NestedProjection.apply :
    NestedProjection → ArrayRef V → Except AdapterError (ArrayRef V)
  | .struct projection, input => applyStruct projection input
  | .list kind field values, input =>
    match input with
    | .list layout _ inner nulls =>
      match kind.downcast layout with
      | none => .error (.internal ("Iceberg nested projection expected " ++ kind.text ++ " array"))
      | some layout => do
        let values ← projectOrCast inner field.dataType values
        tryNew library (.list layout field values nulls)
    | _ => .error (.internal ("Iceberg nested projection expected " ++ kind.text ++ " array"))
  | .map field ordered entries, input =>
    match input with
    | .map _ offsets inner nulls _ => do
      let projected ← projectOrCast inner field.dataType entries
      match projected with
      | .struct _ _ _ _ => tryNew library (.map field offsets projected nulls ordered)
      | _ => .error (.internal "Iceberg map entries must be a struct array")
    | _ => .error (.internal "Iceberg nested projection expected a map array")
termination_by structural projection => projection

/-- `project_or_cast`. -/
def projectOrCast (source : ArrayRef V) (target : DataType) :
    Option NestedProjection → Except AdapterError (ArrayRef V)
  | some projection => projection.apply source
  | none => if source.dataType = target then .ok source else library.cast source target
termination_by structural projection => projection

/-- `StructProjection::apply`. -/
def applyStruct : StructProjection → ArrayRef V → Except AdapterError (ArrayRef V)
  | ⟨targetFields, children⟩, input =>
    match input with
    | .struct _ columns nulls length => do
      let columns ← applyChildren columns length children
      structTryNew library targetFields columns nulls
    | _ => .error (.internal "Iceberg nested field projection expected a struct array")
termination_by structural projection => projection

/-- The column of a field of a struct. -/
def applyChild (columns : List (ArrayRef V)) (length : Nat) :
    StructChildProjection → Except AdapterError (ArrayRef V)
  | ⟨sourceIndex, target, nested⟩ =>
    match sourceIndex with
    | none => .ok (newNullArray V target.dataType length)
    | some index =>
      match columns[index]? with
      | some source => projectOrCast source target.dataType nested
      | none => .error (.panicked "index out of bounds")
termination_by structural child => child

def applyChildren (columns : List (ArrayRef V)) (length : Nat) :
    List StructChildProjection → Except AdapterError (List (ArrayRef V))
  | [] => .ok []
  | child :: children => do
    let column ← applyChild columns length child
    (applyChildren columns length children).map (column :: ·)
termination_by structural children => children

end

end Apply

/-! ### Expressions -/

/-- The expressions of a query and those the adapter puts in. -/
inductive PhysicalExpr where
  | column (name : String) (index : Nat)
  /-- A literal null of a type. -/
  | null (type : DataType)
  | cast (input : PhysicalExpr) (target : Field)
  /-- `FieldIdColumnExpr`. -/
  | fieldId (input : PhysicalExpr) (target : Field) (nested : Option NestedProjection)
  /-- `UnshredVariantExpr`. -/
  | unshredVariant (input : PhysicalExpr) (target : Field)
  | call (function : String) (arguments : List PhysicalExpr)

/-- A batch of a file. -/
structure RecordBatch (V : Type) where
  fields : Fields
  columns : List (ArrayRef V)

section Evaluate

variable {V : Type} (library : ArrowLibrary V) (batch : RecordBatch V)

/-- What a `FieldIdColumnExpr` makes of its input. -/
def evaluateFieldId (nested : Option NestedProjection) (value : ColumnarValue V) :
    Except AdapterError (ColumnarValue V) :=
  match nested, value with
  | none, value => .ok value
  | some projection, .array array => (projection.apply library array).map .array
  | some _, .null _ =>
    .error (.internal "Iceberg nested column unexpectedly evaluated to a scalar")

mutual

/-- `PhysicalExpr::evaluate`. -/
def PhysicalExpr.evaluate : PhysicalExpr → Except AdapterError (ColumnarValue V)
  | .column name index =>
    match batch.columns[index]? with
    | some column => .ok (.array column)
    | none => .error (.internal ("PhysicalExpr Column references column '" ++ name ++
        "' that is out of bounds"))
  | .null type => .ok (.null type)
  | .cast input target => do library.castExpr (← input.evaluate) target
  | .fieldId input _ nested => do evaluateFieldId library nested (← input.evaluate)
  | .unshredVariant input target => do library.unshredVariant (← input.evaluate) target
  | .call function arguments => do library.call function (← evaluateAll arguments)
termination_by structural expr => expr

def evaluateAll : List PhysicalExpr → Except AdapterError (List (ColumnarValue V))
  | [] => .ok []
  | expr :: exprs => do
    let value ← expr.evaluate
    (evaluateAll exprs).map (value :: ·)
termination_by structural exprs => exprs

end

end Evaluate

section Transform

variable (f : PhysicalExpr → Except AdapterError PhysicalExpr)

mutual

/-- `transform_up`: first the children, then the expression itself. -/
def PhysicalExpr.transformUp : PhysicalExpr → Except AdapterError PhysicalExpr
  | .column name index => f (.column name index)
  | .null type => f (.null type)
  | .cast input target => do f (.cast (← input.transformUp) target)
  | .fieldId input target nested => do f (.fieldId (← input.transformUp) target nested)
  | .unshredVariant input target => do f (.unshredVariant (← input.transformUp) target)
  | .call function arguments => do f (.call function (← transformAll arguments))
termination_by structural expr => expr

def transformAll : List PhysicalExpr → Except AdapterError (List PhysicalExpr)
  | [] => .ok []
  | expr :: exprs => do
    let transformed ← expr.transformUp
    (transformAll exprs).map (transformed :: ·)
termination_by structural exprs => exprs

end

end Transform

mutual

/-- `collect_columns`, by their names. -/
def PhysicalExpr.columns : PhysicalExpr → List String
  | .column name _ => [name]
  | .null _ => []
  | .cast input _ => input.columns
  | .fieldId input _ _ => input.columns
  | .unshredVariant input _ => input.columns
  | .call _ arguments => columnsAll arguments
termination_by structural expr => expr

def columnsAll : List PhysicalExpr → List String
  | [] => []
  | expr :: exprs => expr.columns ++ columnsAll exprs
termination_by structural exprs => exprs

end

/-! ### The adapter -/

/-- `Schema::field_with_name`. -/
def fieldWithName (schema : Fields) (name : String) : Option Field :=
  schema.find? (·.name = name)

/-- `Schema::index_of`. -/
def indexOf (schema : Fields) (name : String) : Option Nat :=
  schema.findIdx? (·.name = name)

/-- What `DefaultPhysicalExprAdapter` makes of a column, by its name and index. -/
abbrev DefaultAdapter := String → Nat → Except AdapterError PhysicalExpr

/-- `IcebergPhysicalExprAdapter`. -/
structure IcebergPhysicalExprAdapter where
  default : DefaultAdapter
  logicalFileSchema : Fields
  physicalFileSchema : Fields
  physicalFieldsById : HashMap Int (Nat × Field)

/-- `IcebergPhysicalExprAdapterFactory::create`. -/
def create (default : Fields → Fields → DefaultAdapter) (logical physical : Fields) :
    IcebergPhysicalExprAdapter where
  default := default logical physical
  logicalFileSchema := logical
  physicalFileSchema := physical
  physicalFieldsById := HashMap.fromIter (physical.zipIdx.filterMap fun entry =>
    entry.1.fieldId.map fun id => (id, (entry.2, entry.1)))

/-- The ids of the columns of row lineage. -/
def rowLineageFieldId (name : String) : Option Int :=
  if name = "__iceberg_physical_row_id" then some 2147483540
  else if name = "__iceberg_physical_last_updated_sequence_number" then some 2147483539
  else none

/-- `is_variant_storage`. -/
def isVariantStorage : DataType → Bool
  | .struct fields =>
    (fields.any fun field => field.name = "metadata" && (field.dataType = .leaf .binary ||
      field.dataType = .leaf .largeBinary || field.dataType = .leaf .binaryView)) &&
    (fields.any (·.name = "value") || fields.any (·.name = "typed_value"))
  | _ => false

namespace IcebergPhysicalExprAdapter

variable (adapter : IcebergPhysicalExprAdapter)

/-- `field_id_mapping`: the logical field of a name, and the physical one of its id. -/
def fieldIdMapping (name : String) : Option (Field × Nat × Field) := do
  let logical ← fieldWithName adapter.logicalFileSchema name
  let id ← logical.fieldId
  let physical ← adapter.physicalFieldsById.lookup id
  some (logical, physical)

/-- `reused_name_with_different_id`. -/
def reusedNameWithDifferentId (name : String) : Option Field := do
  let logical ← fieldWithName adapter.logicalFileSchema name
  let logicalId ← logical.fieldId
  if (adapter.physicalFieldsById.lookup logicalId).isSome then none
  else do
    let physical ← fieldWithName adapter.physicalFileSchema name
    if physical.fieldId.any (· ≠ logicalId) then some logical else none

/-- `is_logical_variant_column`. -/
def isLogicalVariantColumn (name : String) : Bool :=
  (fieldWithName adapter.logicalFileSchema name).any fun field =>
    field.metadata.extensionName = some "arrow.parquet.variant"

/-- The physical column of a Variant column, by id or else by name. -/
def variantMapping (name : String) : Option (Field × Nat × Field) :=
  (adapter.fieldIdMapping name).or do
    let logical ← fieldWithName adapter.logicalFileSchema name
    let index ← indexOf adapter.physicalFileSchema name
    let physical ← adapter.physicalFileSchema[index]?
    some (logical, index, physical)

/-- `rewrite_variant_column`. -/
def rewriteVariantColumn (name : String) (index : Nat) : Except AdapterError PhysicalExpr :=
  match adapter.variantMapping name with
  | none => adapter.default name index
  | some (logical, physicalIndex, physical) =>
    if isVariantStorage physical.dataType then
      .ok (.unshredVariant (.column physical.name physicalIndex) logical)
    else .error (.internal ("Iceberg Variant column '" ++ name ++
      "' has incompatible physical type"))

/-- `FieldIdColumnExpr::with_nested_projection`. -/
def withNestedProjection (input : PhysicalExpr) (target : Field) (physicalType : DataType) :
    Except AdapterError PhysicalExpr := do
  match ← NestedProjection.new physicalType target.dataType with
  | none => .error (.internal "Iceberg nested field projection requires container types")
  | some projection => .ok (.fieldId input target (some projection))

/-- `rewrite_field_id_column`. -/
def rewriteFieldIdColumn (name : String) : Except AdapterError (Option PhysicalExpr) :=
  match adapter.fieldIdMapping name with
  | none => .ok none
  | some (logical, physicalIndex, physical) =>
    let nestedChange := needsNestedProjection physical.dataType logical.dataType
    if logical.name = physical.name ∧ nestedChange = false then .ok none
    else
      let column := PhysicalExpr.column physical.name physicalIndex
      if nestedChange then (withNestedProjection column logical physical.dataType).map some
      else if logical.dataType = physical.dataType then .ok (some (.fieldId column logical none))
      else .ok (some (.fieldId (.cast column logical) logical none))

/-- `rewrite_row_lineage_column`. -/
def rewriteRowLineageColumn (fieldId : Int) : Except AdapterError (Option PhysicalExpr) :=
  match adapter.physicalFileSchema.zipIdx.find? (·.1.fieldId = some fieldId) with
  | none => .ok none
  | some (field, index) =>
    if field.dataType ≠ .leaf .int64 then
      .error (.internal ("Iceberg row lineage field id " ++ toString fieldId ++ " must be Int64"))
    else .ok (some (.column field.name index))

/-- What becomes of a column. -/
def rewriteColumn (name : String) (index : Nat) : Except AdapterError PhysicalExpr :=
  match rowLineageFieldId name with
  | some fieldId => do
    match ← adapter.rewriteRowLineageColumn fieldId with
    | some physical => .ok physical
    | none => adapter.default name index
  | none =>
    match adapter.reusedNameWithDifferentId name with
    | some field =>
      if field.nullable then .ok (.null field.dataType)
      else .error (.execution ("Required Iceberg field '" ++ field.name ++
        "' is absent from the data file"))
    | none =>
      if adapter.isLogicalVariantColumn name then adapter.rewriteVariantColumn name index
      else do
        match ← adapter.rewriteFieldIdColumn name with
        | some physical => .ok physical
        | none => adapter.default name index

/-- Whether the default adapter does not do for a column. -/
def requiresIcebergRewrite (name : String) : Bool :=
  adapter.isLogicalVariantColumn name || (rowLineageFieldId name).isSome ||
    (adapter.reusedNameWithDifferentId name).isSome ||
    (adapter.fieldIdMapping name).any fun (logical, _, physical) =>
      logical.name ≠ physical.name || needsNestedProjection physical.dataType logical.dataType

/-- An expression whose columns are rewritten. -/
def onColumns (rewrite : DefaultAdapter) : PhysicalExpr → Except AdapterError PhysicalExpr
  | .column name index => rewrite name index
  | expr => .ok expr

/-- `IcebergPhysicalExprAdapter::rewrite`. -/
def rewrite (expr : PhysicalExpr) : Except AdapterError PhysicalExpr :=
  if expr.columns.any adapter.requiresIcebergRewrite then
    expr.transformUp (onColumns adapter.rewriteColumn)
  else expr.transformUp (onColumns adapter.default)

end IcebergPhysicalExprAdapter

end IcebergRust.SchemaAdapter

import IcebergRust.DataFusion.FieldIds

/-!
# Columns are read by field id

What the expressions of `IcebergPhysicalExprAdapter` evaluate to.

* `Holds` is the value of a field of the table in a batch of a file, in terms of field ids, and
  `Evaluates` that of an expression whose columns have such values.
* `DefaultAdapter.Lawful` is what DataFusion's default adapter does with a column, by its name.
* `columns_by_id` says when an expression is built and what it evaluates to.
-/

namespace IcebergRust.SchemaAdapter

open Fallible

/-! ### Expressions -/

/-- What holds of an expression when it holds of those inside it holds of every expression. -/
@[elab_as_elim, induction_eliminator]
theorem PhysicalExpr.induction {motive : PhysicalExpr → Prop}
    (column : ∀ name index, motive (.column name index)) (null : ∀ type, motive (.null type))
    (cast : ∀ input target, motive input → motive (.cast input target))
    (fieldId : ∀ input target nested, motive input → motive (.fieldId input target nested))
    (unshredVariant : ∀ input target, motive input → motive (.unshredVariant input target))
    (call : ∀ (function : String) (arguments : List PhysicalExpr),
      (∀ argument ∈ arguments, motive argument) → motive (.call function arguments))
    (expr : PhysicalExpr) : motive expr :=
  @PhysicalExpr.rec motive (fun exprs => ∀ expr ∈ exprs, motive expr)
    column null (fun input target => cast input target)
    (fun input target nested => fieldId input target nested)
    (fun input target => unshredVariant input target)
    (fun function arguments => call function arguments)
    (by simp) (fun _ _ head tail => List.forall_mem_cons.mpr ⟨head, tail⟩) expr

section Evaluates

variable {V : Type} (library : ArrowLibrary V)

/-- The value of an expression, by those of its columns. -/
inductive Evaluates (holds : String → ColumnarValue V → Prop) :
    PhysicalExpr → ColumnarValue V → Prop
  | column {name : String} {index : Nat} {value : ColumnarValue V} (held : holds name value) :
      Evaluates holds (.column name index) value
  | null (type : DataType) : Evaluates holds (.null type) (.null type)
  | cast {input : PhysicalExpr} {target : Field} {value result : ColumnarValue V}
      (inside : Evaluates holds input value) (made : library.castExpr value target = .ok result) :
      Evaluates holds (.cast input target) result
  | fieldId {input : PhysicalExpr} {target : Field} {nested : Option NestedProjection}
      {value result : ColumnarValue V} (inside : Evaluates holds input value)
      (made : evaluateFieldId library nested value = .ok result) :
      Evaluates holds (.fieldId input target nested) result
  | unshredVariant {input : PhysicalExpr} {target : Field} {value result : ColumnarValue V}
      (inside : Evaluates holds input value)
      (made : library.unshredVariant value target = .ok result) :
      Evaluates holds (.unshredVariant input target) result
  | call {function : String} {arguments : List PhysicalExpr} {values : List (ColumnarValue V)}
      {result : ColumnarValue V} (arity : values.length = arguments.length)
      (inside : ∀ (i : Nat) (argument : PhysicalExpr) (value : ColumnarValue V),
        arguments[i]? = some argument → values[i]? = some value →
        Evaluates holds argument value)
      (made : library.call function values = .ok result) :
      Evaluates holds (.call function arguments) result

end Evaluates

variable {V : Type} {library : ArrowLibrary V} {batch : RecordBatch V}

theorem evaluateAll_eq (exprs : List PhysicalExpr) :
    evaluateAll library batch exprs = exprs.mapM (·.evaluate library batch) := by
  induction exprs with
  | nil => rfl
  | cons expr exprs ih =>
    rw [evaluateAll, List.mapM_cons, ih]
    cases expr.evaluate library batch with
    | error e => rfl
    | ok value =>
      rw [ok_bind, ok_bind]
      cases exprs.mapM (·.evaluate library batch) <;> rfl

theorem transformAll_eq {f : PhysicalExpr → Except AdapterError PhysicalExpr}
    (exprs : List PhysicalExpr) : transformAll f exprs = exprs.mapM (·.transformUp f) := by
  induction exprs with
  | nil => rfl
  | cons expr exprs ih =>
    rw [transformAll, List.mapM_cons, ih]
    cases expr.transformUp f with
    | error e => rfl
    | ok transformed =>
      rw [ok_bind, ok_bind]
      cases exprs.mapM (·.transformUp f) <;> rfl

theorem columnsAll_eq (exprs : List PhysicalExpr) :
    columnsAll exprs = exprs.flatMap (·.columns) := by
  induction exprs with
  | nil => rfl
  | cons expr exprs ih => rw [columnsAll, ih, List.flatMap_cons]

section Columns

open IcebergPhysicalExprAdapter (onColumns)

variable {rewrite : DefaultAdapter}

theorem columns_of_argument {function : String} {arguments : List PhysicalExpr}
    {argument : PhysicalExpr} (member : argument ∈ arguments) {name : String}
    (inside : name ∈ argument.columns) : name ∈ (PhysicalExpr.call function arguments).columns := by
  rw [PhysicalExpr.columns, columnsAll_eq]
  exact List.mem_flatMap.mpr ⟨argument, member, inside⟩

/-- Rewriting depends on what becomes of the columns only. -/
theorem transformUp_congr {other : DefaultAdapter} {expr : PhysicalExpr}
    (same : ∀ name ∈ expr.columns, ∀ index, rewrite name index = other name index) :
    expr.transformUp (onColumns rewrite) = expr.transformUp (onColumns other) := by
  induction expr with
  | column name index => exact same name (List.mem_singleton_self name) index
  | null type => rfl
  | cast input target ih => rw [PhysicalExpr.transformUp, PhysicalExpr.transformUp, ih same]; rfl
  | fieldId input target nested ih =>
    rw [PhysicalExpr.transformUp, PhysicalExpr.transformUp, ih same]; rfl
  | unshredVariant input target ih =>
    rw [PhysicalExpr.transformUp, PhysicalExpr.transformUp, ih same]; rfl
  | call function arguments ih =>
    have inner : arguments.mapM (·.transformUp (onColumns rewrite)) =
        arguments.mapM (·.transformUp (onColumns other)) := by
      refine mapM_congr fun argument member => ih argument member fun name inside => ?_
      exact same name (columns_of_argument member inside)
    rw [PhysicalExpr.transformUp, PhysicalExpr.transformUp, transformAll_eq, transformAll_eq, inner]
    rfl

/-- An expression is rewritten exactly if its columns are. -/
theorem exists_transformUp_iff {builds : String → Prop} {expr : PhysicalExpr}
    (each : ∀ name ∈ expr.columns, ∀ index, (∃ out, rewrite name index = .ok out) ↔ builds name) :
    (∃ out, expr.transformUp (onColumns rewrite) = .ok out) ↔
      ∀ name ∈ expr.columns, builds name := by
  induction expr with
  | column name index =>
    have member : name ∈ [name] := List.mem_singleton_self name
    constructor
    · rintro built other here
      obtain rfl := List.mem_singleton.mp here
      exact (each other member index).mp built
    · intro builds
      exact (each name member index).mpr (builds name member)
  | null type => exact iff_of_true ⟨_, rfl⟩ nofun
  | cast input target ih =>
    refine Iff.trans ?_ (ih each)
    simp [PhysicalExpr.transformUp, onColumns]
  | fieldId input target nested ih =>
    refine Iff.trans ?_ (ih each)
    simp [PhysicalExpr.transformUp, onColumns]
  | unshredVariant input target ih =>
    refine Iff.trans ?_ (ih each)
    simp [PhysicalExpr.transformUp, onColumns]
  | call function arguments ih =>
    have inner := fun argument (member : argument ∈ arguments) =>
      ih argument member fun name inside => each name (columns_of_argument member inside)
    simp only [PhysicalExpr.transformUp, transformAll_eq, PhysicalExpr.columns, columnsAll_eq,
      List.mem_flatMap]
    constructor
    · rintro ⟨_, made⟩ name ⟨argument, member, inside⟩
      obtain ⟨transformed, made, -⟩ := bind_eq_ok.mp made
      exact (inner argument member).mp (exists_step_of_mapM made argument member) name inside
    · intro builds
      obtain ⟨transformed, made⟩ := mapM_total fun argument member =>
        (inner argument member).mpr fun name inside => builds name ⟨argument, member, inside⟩
      exact ⟨_, bind_eq_ok.mpr ⟨transformed, made, rfl⟩⟩

/-- A rewritten expression has the value of the expression, by the values of what its columns
became. -/
theorem evaluate_transformUp {holds : String → ColumnarValue V → Prop} {expr out : PhysicalExpr}
    {value : ColumnarValue V}
    (each : ∀ name ∈ expr.columns, ∀ index column, rewrite name index = .ok column →
      ∀ value, column.evaluate library batch = .ok value ↔ holds name value)
    (made : expr.transformUp (onColumns rewrite) = .ok out) :
    out.evaluate library batch = .ok value ↔ Evaluates library holds expr value := by
  induction expr generalizing out value with
  | column name index =>
    rw [each name (List.mem_singleton_self name) index out made]
    constructor
    · exact .column
    · rintro ⟨held⟩
      exact held
  | null type =>
    obtain rfl := Except.ok.inj made
    constructor
    · intro evaluated
      obtain rfl := Except.ok.inj evaluated
      exact .null type
    · rintro ⟨⟩
      rfl
  | cast input target ih =>
    obtain ⟨inner, transformed, kept⟩ := bind_eq_ok.mp made
    obtain rfl := Except.ok.inj kept
    rw [PhysicalExpr.evaluate, bind_eq_ok]
    constructor
    · rintro ⟨own, evaluated, made⟩
      exact .cast ((ih each transformed).mp evaluated) made
    · intro evaluates
      cases evaluates with
      | cast inside made => exact ⟨_, (ih each transformed).mpr inside, made⟩
  | fieldId input target nested ih =>
    obtain ⟨inner, transformed, kept⟩ := bind_eq_ok.mp made
    obtain rfl := Except.ok.inj kept
    rw [PhysicalExpr.evaluate, bind_eq_ok]
    constructor
    · rintro ⟨own, evaluated, made⟩
      exact .fieldId ((ih each transformed).mp evaluated) made
    · intro evaluates
      cases evaluates with
      | fieldId inside made => exact ⟨_, (ih each transformed).mpr inside, made⟩
  | unshredVariant input target ih =>
    obtain ⟨inner, transformed, kept⟩ := bind_eq_ok.mp made
    obtain rfl := Except.ok.inj kept
    rw [PhysicalExpr.evaluate, bind_eq_ok]
    constructor
    · rintro ⟨own, evaluated, made⟩
      exact .unshredVariant ((ih each transformed).mp evaluated) made
    · intro evaluates
      cases evaluates with
      | unshredVariant inside made => exact ⟨_, (ih each transformed).mpr inside, made⟩
  | call function arguments ih =>
    obtain ⟨inner, transformed, kept⟩ := bind_eq_ok.mp made
    obtain rfl := Except.ok.inj kept
    rw [transformAll_eq] at transformed
    have own : ∀ values, inner.mapM (·.evaluate library batch) = .ok values ↔
        List.Forall₂ (fun argument value => Evaluates library holds argument value)
          arguments values := by
      intro values
      refine mapM_after_iff (fun argument member out value made => ?_) transformed
      exact ih argument member
        (fun name inside => each name (columns_of_argument member inside)) made
    simp only [PhysicalExpr.evaluate, evaluateAll_eq, bind_eq_ok, own,
      Observation.forall₂_iff_places]
    constructor
    · rintro ⟨values, ⟨arity, inside⟩, made⟩
      exact .call arity inside made
    · intro evaluates
      cases evaluates with
      | call arity inside made => exact ⟨_, ⟨arity, inside⟩, made⟩

end Columns

/-! ### Columns -/

/-- What DataFusion's default adapter makes of a column: the field with its name, cast if its type
is another one and can be cast, and a null where there is none. -/
structure DefaultAdapter.Lawful (castable : DataType → DataType → Prop)
    (default : Fields → Fields → DefaultAdapter) : Prop where
  missing : ∀ {logical physical : Fields} {name : String} {field : Field},
    fieldWithName logical name = some field → fieldWithName physical name = none →
    field.nullable = true → ∀ index, default logical physical name index = .ok (.null field.dataType)
  required : ∀ {logical physical : Fields} {name : String} {field : Field},
    fieldWithName logical name = some field → fieldWithName physical name = none →
    field.nullable = false → ∀ index, ∃ error, default logical physical name index = .error error
  same : ∀ {logical physical : Fields} {name : String} {field held : Field} {place : Nat},
    fieldWithName logical name = some field → indexOf physical name = some place →
    physical[place]? = some held → held.dataType = field.dataType →
    ∀ index, default logical physical name index = .ok (.column name place)
  cast : ∀ {logical physical : Fields} {name : String} {field held : Field} {place : Nat},
    fieldWithName logical name = some field → indexOf physical name = some place →
    physical[place]? = some held → held.dataType ≠ field.dataType →
    Alike held.dataType field.dataType = false → castable held.dataType field.dataType →
    ∀ index, default logical physical name index = .ok (.cast (.column name place) field)
  uncastable : ∀ {logical physical : Fields} {name : String} {field held : Field} {place : Nat},
    fieldWithName logical name = some field → indexOf physical name = some place →
    physical[place]? = some held → held.dataType ≠ field.dataType →
    Alike held.dataType field.dataType = false → ¬ castable held.dataType field.dataType →
    ∀ index, ∃ error, default logical physical name index = .error error

/-- A column of the table that is neither one of row lineage nor a Variant. -/
def Plain (logical : Fields) (name : String) : Prop :=
  ∃ field, fieldWithName logical name = some field ∧ rowLineageFieldId name = none ∧
    field.metadata.extensionName ≠ some "arrow.parquet.variant"

/-- An expression is built for a field. -/
inductive Builds (castable : DataType → DataType → Prop) (physical : Fields) (field : Field) : Prop
  | absent (missing : placeOf physical field = none) (optional : field.nullable = true)
  | present {index : Nat} {held : Field} (place : placeOf physical field = some index)
      (here : physical[index]? = some held) (fits : Fits held.dataType field.dataType)
      (casts : held.name = field.name → held.dataType ≠ field.dataType →
        Alike held.dataType field.dataType = false → castable held.dataType field.dataType)

/-- A batch of a file. -/
structure OfFile (physical : Fields) (batch : RecordBatch V) : Prop where
  fields : batch.fields = physical
  types : batch.columns.map (·.dataType) = physical.map (·.dataType)
  typed : ∀ column ∈ batch.columns, WellTyped column

/-- The values of a field of the table in a batch of a file: those of the field with its id, or null
where there is none. -/
inductive Holds (library : ArrowLibrary V) (physical : Fields) (batch : RecordBatch V)
    (field : Field) : ColumnarValue V → Prop
  | absent (missing : placeOf physical field = none) :
      Holds library physical batch field (.null field.dataType)
  | array {index : Nat} {column out : ArrayRef V} (place : placeOf physical field = some index)
      (here : batch.columns[index]? = some column)
      (alike : column.dataType ≠ field.dataType → Alike column.dataType field.dataType = true)
      (reads : Reads library column field.dataType out) :
      Holds library physical batch field (.array out)
  | converted {index : Nat} {column : ArrayRef V} {value : ColumnarValue V}
      (place : placeOf physical field = some index) (here : batch.columns[index]? = some column)
      (differ : column.dataType ≠ field.dataType)
      (unlike : Alike column.dataType field.dataType = false)
      (made : library.castExpr (.array column) field = .ok value) :
      Holds library physical batch field value

section Distinct

variable {K : Type} {key : Field → K} {fields : Fields}

theorem place_unique (distinct : (fields.map key).Nodup) {i j : Nat} {field other : Field}
    (here : fields[i]? = some field) (there : fields[j]? = some other)
    (same : key field = key other) : i = j := by
  have within : i < (fields.map key).length := by
    obtain ⟨within, -⟩ := List.getElem?_eq_some_iff.mp here
    rwa [List.length_map]
  refine (List.getElem?_inj within distinct).mp ?_
  rw [List.getElem?_map, List.getElem?_map, here, there, Option.map_some, Option.map_some, same]

/-- The first field with a key is the only one. -/
theorem findIdx?_eq_some_iff [DecidableEq K] (distinct : (fields.map key).Nodup) {wanted : K}
    {index : Nat} :
    fields.findIdx? (fun field => decide (key field = wanted)) = some index ↔
      ∃ field, fields[index]? = some field ∧ key field = wanted := by
  constructor
  · intro found
    obtain ⟨within, same, -⟩ := List.findIdx?_eq_some_iff_getElem.mp found
    exact ⟨_, List.getElem?_eq_getElem within, by simpa using same⟩
  · rintro ⟨field, here, same⟩
    cases found : fields.findIdx? (fun field => decide (key field = wanted)) with
    | none =>
      have absent := List.findIdx?_eq_none_iff.mp found field (List.mem_of_getElem? here)
      simp [same] at absent
    | some other =>
      obtain ⟨within, same', -⟩ := List.findIdx?_eq_some_iff_getElem.mp found
      have same' : key fields[other] = wanted := by simpa using same'
      exact congrArg some (place_unique distinct (List.getElem?_eq_getElem within) here
        (same'.trans same.symm))

end Distinct

section Holds

variable {physical : Fields} {field : Field} {index : Nat} {column : ArrayRef V}
  {value : ColumnarValue V}

theorem holds_absent_iff (missing : placeOf physical field = none) :
    Holds library physical batch field value ↔ .null field.dataType = value := by
  constructor
  · intro holds
    cases holds with
    | absent => rfl
    | array place =>
      rw [missing] at place
      cases place
    | converted place =>
      rw [missing] at place
      cases place
  · rintro rfl
    exact .absent missing

theorem holds_array_iff (place : placeOf physical field = some index)
    (here : batch.columns[index]? = some column)
    (alike : column.dataType ≠ field.dataType → Alike column.dataType field.dataType = true) :
    Holds library physical batch field value ↔
      ∃ out, Reads library column field.dataType out ∧ .array out = value := by
  constructor
  · intro holds
    cases holds with
    | absent missing =>
      rw [place] at missing
      cases missing
    | array place' here' _ reads =>
      obtain rfl := Option.some.inj (place.symm.trans place')
      obtain rfl := Option.some.inj (here.symm.trans here')
      exact ⟨_, reads, rfl⟩
    | converted place' here' differ unlike =>
      obtain rfl := Option.some.inj (place.symm.trans place')
      obtain rfl := Option.some.inj (here.symm.trans here')
      rw [alike differ] at unlike
      cases unlike
  · rintro ⟨out, reads, rfl⟩
    exact .array place here alike reads

theorem holds_converted_iff (place : placeOf physical field = some index)
    (here : batch.columns[index]? = some column) (differ : column.dataType ≠ field.dataType)
    (unlike : Alike column.dataType field.dataType = false) :
    Holds library physical batch field value ↔
      library.castExpr (.array column) field = .ok value := by
  constructor
  · intro holds
    cases holds with
    | absent missing =>
      rw [place] at missing
      cases missing
    | array place' here' alike =>
      obtain rfl := Option.some.inj (place.symm.trans place')
      obtain rfl := Option.some.inj (here.symm.trans here')
      rw [alike differ] at unlike
      cases unlike
    | converted place' here' _ _ made =>
      obtain rfl := Option.some.inj (place.symm.trans place')
      obtain rfl := Option.some.inj (here.symm.trans here')
      exact made
  · exact .converted place here differ unlike

/-- The column of a place that is found is in the batch. -/
theorem OfFile.exists_column {held : Field} (ofFile : OfFile physical batch)
    (there : physical[index]? = some held) :
    ∃ column, batch.columns[index]? = some column ∧ column.dataType = held.dataType ∧
      WellTyped column := by
  have column := congrArg (·[index]?) ofFile.types
  simp only [List.getElem?_map, there, Option.map_some, Option.map_eq_some_iff] at column
  obtain ⟨column, here, type⟩ := column
  exact ⟨column, here, type, ofFile.typed column (List.mem_of_getElem? here)⟩

end Holds

section Mapping

variable {physical : Fields}

theorem physicalFieldsById_lookup {default : Fields → Fields → DefaultAdapter} {logical : Fields}
    (distinct : (physical.map (·.fieldId)).Nodup) {id : Int} {index : Nat} {held : Field} :
    (create default logical physical).physicalFieldsById.lookup id = some (index, held) ↔
      physical[index]? = some held ∧ held.fieldId = some id := by
  have entry : ∀ {key : Int} {place : Nat} {field : Field},
      (key, (place, field)) ∈ (physical.zipIdx.filterMap fun entry =>
        entry.1.fieldId.map fun id => (id, (entry.2, entry.1))) ↔
      physical[place]? = some field ∧ field.fieldId = some key := by
    intro key place field
    simp only [List.mem_filterMap, Option.map_eq_some_iff, Prod.mk.injEq]
    constructor
    · rintro ⟨⟨own, at_⟩, member, id, has, rfl, rfl, rfl⟩
      exact ⟨List.mk_mem_zipIdx_iff_getElem?.mp member, has⟩
    · rintro ⟨here, has⟩
      exact ⟨(field, place), List.mk_mem_zipIdx_iff_getElem?.mpr here, key, has, rfl, rfl, rfl⟩
  refine (HashMap.lookup_fromIter_of_distinct ?_).trans entry
  rintro ⟨key, place, field⟩ member ⟨key', place', field'⟩ member' same
  obtain rfl : key = key' := same
  obtain ⟨here, has⟩ := entry.mp member
  obtain ⟨here', has'⟩ := entry.mp member'
  obtain rfl := place_unique distinct here here' (has.trans has'.symm)
  obtain rfl := Option.some.inj (here.symm.trans here')
  rfl

variable {logical : Fields} {default : Fields → Fields → DefaultAdapter} {name : String}
  {field : Field}

theorem name_of_fieldWithName {schema : Fields} (found : fieldWithName schema name = some field) :
    field.name = name := by
  simpa using List.find?_some found

/-- The physical field of an id is the one at its place. -/
theorem lookup_eq (distinct : (physical.map (·.fieldId)).Nodup) {id : Int}
    (has : field.fieldId = some id) :
    (create default logical physical).physicalFieldsById.lookup id =
      (placeOf physical field).bind fun index => physical[index]?.map fun held => (index, held) := by
  cases here : placeOf physical field with
  | none =>
    cases loaded : (create default logical physical).physicalFieldsById.lookup id with
    | none => rfl
    | some entry =>
      obtain ⟨there, same⟩ := (physicalFieldsById_lookup distinct).mp loaded
      have present : placeOf physical field = some entry.1 :=
        (findIdx?_eq_some_iff distinct).mpr ⟨entry.2, there, same.trans has.symm⟩
      rw [here] at present
      cases present
  | some index =>
    obtain ⟨held, there, same⟩ := exists_of_placeOf here
    rw [(physicalFieldsById_lookup distinct).mpr ⟨there, same.trans has⟩, Option.bind_some, there]
    rfl

theorem fieldIdMapping_eq (distinct : (physical.map (·.fieldId)).Nodup)
    (found : fieldWithName logical name = some field) (id : field.fieldId ≠ none) :
    (create default logical physical).fieldIdMapping name =
      (placeOf physical field).bind fun index =>
        physical[index]?.map fun held => (field, index, held) := by
  obtain ⟨key, has⟩ := Option.ne_none_iff_exists'.mp id
  show (fieldWithName logical name).bind _ = _
  rw [found, Option.bind_some, has]
  show ((create default logical physical).physicalFieldsById.lookup key).bind _ = _
  rw [lookup_eq distinct has]
  cases here : placeOf physical field with
  | none => rfl
  | some index =>
    obtain ⟨held, there, -⟩ := exists_of_placeOf here
    rw [Option.bind_some, Option.bind_some, there]
    rfl

/-- A name is reused where the id is not in the file but the name is. -/
theorem reusedName_eq (ids : ∀ field ∈ physical, field.fieldId ≠ none)
    (distinct : (physical.map (·.fieldId)).Nodup)
    (found : fieldWithName logical name = some field) (id : field.fieldId ≠ none) :
    (create default logical physical).reusedNameWithDifferentId name =
      if placeOf physical field = none then (fieldWithName physical name).map fun _ => field
      else none := by
  obtain ⟨key, has⟩ := Option.ne_none_iff_exists'.mp id
  show (fieldWithName logical name).bind _ = _
  rw [found, Option.bind_some, has]
  show (if ((create default logical physical).physicalFieldsById.lookup key).isSome then none
    else (fieldWithName physical name).bind fun physical =>
      if physical.fieldId.any (· ≠ key) then some field else none) = _
  rw [lookup_eq distinct has]
  cases here : placeOf physical field with
  | none =>
    cases named : fieldWithName physical name with
    | none => rfl
    | some other =>
      have member := List.mem_of_find?_eq_some named
      obtain ⟨own, has'⟩ := Option.ne_none_iff_exists'.mp (ids other member)
      have differ : own ≠ key := by
        rintro rfl
        have absent := List.findIdx?_eq_none_iff.mp here other member
        simp [has, has'] at absent
      simp [has', differ]
  | some index =>
    obtain ⟨held, there, -⟩ := exists_of_placeOf here
    simp [there]

end Mapping

section Rewrite

open IcebergPhysicalExprAdapter

variable {castable : DataType → DataType → Prop} {default : Fields → Fields → DefaultAdapter}
  {logical physical : Fields} {name : String} {field held : Field} {place : Nat}

/-- What becomes of a plain column. -/
theorem rewriteColumn_eq (found : fieldWithName logical name = some field)
    (lineage : rowLineageFieldId name = none)
    (plain : field.metadata.extensionName ≠ some "arrow.parquet.variant") (index : Nat) :
    (create default logical physical).rewriteColumn name index =
      match (create default logical physical).reusedNameWithDifferentId name with
      | some field =>
        if field.nullable then .ok (.null field.dataType)
        else .error (.execution ("Required Iceberg field '" ++ field.name ++
          "' is absent from the data file"))
      | none => (do
        match ← (create default logical physical).rewriteFieldIdColumn name with
        | some physical => .ok physical
        | none => default logical physical name index) := by
  have other : (create default logical physical).isLogicalVariantColumn name = false := by
    show (fieldWithName logical name).any _ = false
    simp [found, plain]
  simp only [rewriteColumn, lineage, other]
  rfl

/-- A column that is not in the file is null, or missing. -/
theorem rewriteColumn_absent (lawful : DefaultAdapter.Lawful castable default)
    (ids' : ∀ field ∈ physical, field.fieldId ≠ none)
    (distinct : (physical.map (·.fieldId)).Nodup)
    (found : fieldWithName logical name = some field) (lineage : rowLineageFieldId name = none)
    (plain : field.metadata.extensionName ≠ some "arrow.parquet.variant")
    (id : field.fieldId ≠ none) (missing : placeOf physical field = none) (index : Nat) :
    (field.nullable = true →
      (create default logical physical).rewriteColumn name index = .ok (.null field.dataType)) ∧
    (field.nullable = false →
      ∃ error, (create default logical physical).rewriteColumn name index = .error error) := by
  rw [rewriteColumn_eq found lineage plain, reusedName_eq ids' distinct found id, if_pos missing]
  cases named : fieldWithName physical name with
  | some other =>
    constructor
    · intro nullable
      simp [nullable]
    · intro required
      simp [required]
  | none =>
    have unmapped : (create default logical physical).rewriteFieldIdColumn name = .ok none := by
      rw [rewriteFieldIdColumn, fieldIdMapping_eq distinct found id, missing]
      rfl
    rw [unmapped]
    constructor
    · exact fun nullable => lawful.missing found named nullable index
    · exact fun required => lawful.required found named required index

section Present

variable (distinct : (physical.map (·.fieldId)).Nodup)
  (found : fieldWithName logical name = some field) (lineage : rowLineageFieldId name = none)
  (plain : field.metadata.extensionName ≠ some "arrow.parquet.variant")
  (id : field.fieldId ≠ none) (here : placeOf physical field = some place)
  (there : physical[place]? = some held)

include distinct found lineage plain id here there

theorem rewriteColumn_present (ids' : ∀ field ∈ physical, field.fieldId ≠ none) (index : Nat) :
    (create default logical physical).rewriteColumn name index =
      if needsNestedProjection held.dataType field.dataType then
        withNestedProjection (.column held.name place) field held.dataType
      else if field.name = held.name then default logical physical name index
      else if field.dataType = held.dataType then
        .ok (.fieldId (.column held.name place) field none)
      else .ok (.fieldId (.cast (.column held.name place) field) field none) := by
  have mapped := @fieldIdMapping_eq physical logical default name field distinct found id
  rw [here, Option.bind_some, there, Option.map_some] at mapped
  rw [rewriteColumn_eq found lineage plain, reusedName_eq ids' distinct found id, here,
    if_neg nofun]
  simp only [rewriteFieldIdColumn, mapped]
  cases needsNestedProjection held.dataType field.dataType with
  | true =>
    rw [if_neg (by simp), if_pos rfl, if_pos rfl]
    cases withNestedProjection (.column held.name place) field held.dataType <;> rfl
  | false =>
    rw [if_neg Bool.false_ne_true, if_neg Bool.false_ne_true]
    by_cases same : field.name = held.name
    · rw [if_pos ⟨same, rfl⟩, if_pos same]
      rfl
    · rw [if_neg (same ·.1), if_neg same]
      by_cases type : field.dataType = held.dataType
      · rw [if_pos type, if_pos type]
        rfl
      · rw [if_neg type, if_neg type]
        rfl

end Present

theorem withNestedProjection_eq_ok_iff {input out : PhysicalExpr} {type : DataType}
    (differ : type ≠ field.dataType) (alike : Alike type field.dataType = true) :
    withNestedProjection input field type = .ok out ↔
      ∃ projection, NestedProjection.new type field.dataType = .ok (some projection) ∧
        .fieldId input field (some projection) = out := by
  have some_ := new_ne_none differ alike
  rw [withNestedProjection]
  cases made : NestedProjection.new type field.dataType with
  | error e => simp
  | ok projection =>
    cases projection with
    | none => exact absurd made some_
    | some projection => simp

theorem builds_present_iff (here : placeOf physical field = some place)
    (there : physical[place]? = some held) :
    Builds castable physical field ↔ Fits held.dataType field.dataType ∧
      (held.name = field.name → held.dataType ≠ field.dataType →
        Alike held.dataType field.dataType = false →
        castable held.dataType field.dataType) := by
  constructor
  · intro builds
    cases builds with
    | absent missing =>
      rw [here] at missing
      cases missing
    | present place there' fits casts =>
      obtain rfl := Option.some.inj (here.symm.trans place)
      obtain rfl := Option.some.inj (there.symm.trans there')
      exact ⟨fits, casts⟩
  · rintro ⟨fits, casts⟩
    exact .present here there fits casts

/-- The default adapter finds the field of an unchanged name. -/
theorem indexOf_eq (names : (physical.map (·.name)).Nodup)
    (found : fieldWithName logical name = some field) (there : physical[place]? = some held)
    (same : field.name = held.name) : indexOf physical name = some place :=
  (findIdx?_eq_some_iff names).mpr ⟨held, there, same.symm.trans (name_of_fieldWithName found)⟩

/-- What an expression is built for. -/
theorem exists_rewriteColumn_iff (lawful : DefaultAdapter.Lawful castable default)
    (ids : HasIds (.struct logical)) (ids' : HasIds (.struct physical))
    (names : (physical.map (·.name)).Nodup) (distinct : (physical.map (·.fieldId)).Nodup)
    (found : fieldWithName logical name = some field) (lineage : rowLineageFieldId name = none)
    (plain : field.metadata.extensionName ≠ some "arrow.parquet.variant") (index : Nat) :
    (∃ out, (create default logical physical).rewriteColumn name index = .ok out) ↔
      Builds castable physical field := by
  have member := List.mem_of_find?_eq_some found
  have id := ids.ids field member
  cases here : placeOf physical field with
  | none =>
    obtain ⟨null, required⟩ :=
      rewriteColumn_absent lawful ids'.ids distinct found lineage plain id here index
    cases nullable : field.nullable with
    | true => exact iff_of_true ⟨_, null nullable⟩ (.absent here nullable)
    | false =>
      obtain ⟨error, raised⟩ := required nullable
      rw [raised]
      refine iff_of_false nofun fun builds => ?_
      cases builds with
      | absent _ optional =>
        rw [nullable] at optional
        cases optional
      | present place =>
        rw [here] at place
        cases place
  | some place =>
    obtain ⟨held, there, -⟩ := exists_of_placeOf here
    rw [rewriteColumn_present distinct found lineage plain id here there ids'.ids,
      builds_present_iff here there]
    have sourceIds := ids'.inside (List.mem_of_getElem? there)
    have fits := exists_new_iff sourceIds (ids.inside member)
    by_cases type : held.dataType = field.dataType
    · have flat : needsNestedProjection held.dataType field.dataType = false := by
        simp [needsNestedProjection_eq, type]
      rw [flat, if_neg Bool.false_ne_true]
      refine iff_of_true ?_ ⟨type ▸ .same _, fun _ differ => absurd type differ⟩
      by_cases same : field.name = held.name
      · rw [if_pos same]
        exact ⟨_, lawful.same found (indexOf_eq names found there same) there type index⟩
      · rw [if_neg same, if_pos type.symm]
        exact ⟨_, rfl⟩
    · cases alike : Alike held.dataType field.dataType with
      | true =>
        have changed : needsNestedProjection held.dataType field.dataType = true := by
          simp [needsNestedProjection_eq, type, alike]
        rw [changed, if_pos rfl]
        simp only [withNestedProjection_eq_ok_iff type alike, reduceCtorEq, false_implies,
          implies_true, and_true, ← fits]
        constructor
        · rintro ⟨_, projection, made, -⟩
          exact ⟨_, made⟩
        · rintro ⟨projection, made⟩
          cases projection with
          | none => exact absurd made (new_ne_none type alike)
          | some projection => exact ⟨_, projection, made, rfl⟩
      | false =>
        have flat : needsNestedProjection held.dataType field.dataType = false := by
          simp [needsNestedProjection_eq, alike]
        rw [flat, if_neg Bool.false_ne_true]
        by_cases same : field.name = held.name
        · rw [if_pos same]
          have named := indexOf_eq names found there same
          constructor
          · rintro ⟨out, made⟩
            refine ⟨.unlike alike, fun _ _ _ => by_contra fun uncastable => ?_⟩
            obtain ⟨error, raised⟩ :=
              lawful.uncastable found named there type alike uncastable index
            rw [raised] at made
            cases made
          · rintro ⟨-, castable⟩
            exact ⟨_, lawful.cast found named there type alike (castable same.symm type rfl) index⟩
        · rw [if_neg same, if_neg (Ne.symm type)]
          exact iff_of_true ⟨_, rfl⟩ ⟨.unlike alike, fun other => absurd other.symm same⟩

/-- What a rewritten column evaluates to. -/
theorem evaluate_rewriteColumn (lawful : DefaultAdapter.Lawful castable default)
    (ids : HasIds (.struct logical)) (ids' : HasIds (.struct physical))
    (names : (physical.map (·.name)).Nodup) (distinct : (physical.map (·.fieldId)).Nodup)
    (found : fieldWithName logical name = some field) (lineage : rowLineageFieldId name = none)
    (plain : field.metadata.extensionName ≠ some "arrow.parquet.variant") {index : Nat}
    (ofFile : OfFile physical batch) {out : PhysicalExpr} {value : ColumnarValue V}
    (made : (create default logical physical).rewriteColumn name index = .ok out) :
    out.evaluate library batch = .ok value ↔ Holds library physical batch field value := by
  have member := List.mem_of_find?_eq_some found
  have id := ids.ids field member
  cases here : placeOf physical field with
  | none =>
    obtain ⟨null, required⟩ :=
      rewriteColumn_absent lawful ids'.ids distinct found lineage plain id here index
    rw [holds_absent_iff here]
    cases nullable : field.nullable with
    | true =>
      obtain rfl := Except.ok.inj ((null nullable).symm.trans made)
      rw [PhysicalExpr.evaluate, Except.ok.injEq]
    | false =>
      obtain ⟨error, raised⟩ := required nullable
      rw [raised] at made
      cases made
  | some place =>
    obtain ⟨held, there, -⟩ := exists_of_placeOf here
    obtain ⟨column, column_, type_, typed⟩ := ofFile.exists_column there
    rw [rewriteColumn_present distinct found lineage plain id here there ids'.ids] at made
    have sourceIds := ids'.inside (List.mem_of_getElem? there)
    have read : ∀ name, (PhysicalExpr.column name place).evaluate library batch =
        .ok (.array column) := by
      intro name
      rw [PhysicalExpr.evaluate, column_]
    by_cases type : held.dataType = field.dataType
    · have flat : needsNestedProjection held.dataType field.dataType = false := by
        simp [needsNestedProjection_eq, type]
      rw [flat, if_neg Bool.false_ne_true] at made
      rw [holds_array_iff here column_ fun differ => absurd (type_.trans type) differ]
      simp only [reads_self_iff (type_.trans type), exists_eq_left']
      by_cases same : field.name = held.name
      · rw [if_pos same, lawful.same found (indexOf_eq names found there same) there type] at made
        obtain rfl := Except.ok.inj made
        rw [read, Except.ok.injEq]
      · rw [if_neg same, if_pos type.symm] at made
        obtain rfl := Except.ok.inj made
        rw [PhysicalExpr.evaluate, read, ok_bind, evaluateFieldId, Except.ok.injEq]
    · have differ : column.dataType ≠ field.dataType := fun same => type (type_.symm.trans same)
      cases alike : Alike held.dataType field.dataType with
      | true =>
        have changed : needsNestedProjection held.dataType field.dataType = true := by
          simp [needsNestedProjection_eq, type, alike]
        rw [changed, if_pos rfl, withNestedProjection_eq_ok_iff type alike] at made
        obtain ⟨projection, built, rfl⟩ := made
        rw [← type_] at built alike sourceIds
        rw [holds_array_iff here column_ fun _ => alike, PhysicalExpr.evaluate, read, ok_bind,
          evaluateFieldId, map_eq_ok]
        exact exists_congr fun out => and_congr_left fun _ =>
          projectOrCast_eq_ok_iff sourceIds (ids.inside member) typed built
      | false =>
        have flat : needsNestedProjection held.dataType field.dataType = false := by
          simp [needsNestedProjection_eq, alike]
        rw [flat, if_neg Bool.false_ne_true] at made
        rw [holds_converted_iff here column_ differ (type_ ▸ alike)]
        by_cases same : field.name = held.name
        · have named := indexOf_eq names found there same
          rw [if_pos same] at made
          by_cases casts : castable held.dataType field.dataType
          · rw [lawful.cast found named there type alike casts] at made
            obtain rfl := Except.ok.inj made
            rw [PhysicalExpr.evaluate, read, ok_bind]
          · obtain ⟨error, raised⟩ := lawful.uncastable found named there type alike casts index
            rw [raised] at made
            cases made
        · rw [if_neg same, if_neg (Ne.symm type)] at made
          obtain rfl := Except.ok.inj made
          rw [PhysicalExpr.evaluate, PhysicalExpr.evaluate, read, ok_bind]
          simp only [evaluateFieldId, bind_eq_ok, Except.ok.injEq, exists_eq_right]

/-- A column that the default adapter does for becomes what it makes of it. -/
theorem rewriteColumn_of_not_requires {adapter : IcebergPhysicalExprAdapter}
    (unchanged : adapter.requiresIcebergRewrite name = false) (index : Nat) :
    adapter.rewriteColumn name index = adapter.default name index := by
  simp only [requiresIcebergRewrite, Bool.or_eq_false_iff, Option.isSome_eq_false_iff,
    Option.isNone_iff_eq_none] at unchanged
  obtain ⟨⟨⟨variant_, lineage⟩, reused⟩, mapped⟩ := unchanged
  have unmapped : adapter.rewriteFieldIdColumn name = .ok none := by
    rw [rewriteFieldIdColumn]
    cases loaded : adapter.fieldIdMapping name with
    | none => rfl
    | some mapping =>
      obtain ⟨logical, place, physical⟩ := mapping
      simp only [loaded, Option.any_some, Bool.or_eq_false_iff, decide_eq_false_iff_not,
        not_not] at mapped
      exact if_pos mapped
  simp only [rewriteColumn, lineage, reused, variant_, unmapped]
  rfl

/-- The quick exit makes no difference. -/
theorem rewrite_eq (adapter : IcebergPhysicalExprAdapter) (expr : PhysicalExpr) :
    adapter.rewrite expr = expr.transformUp (onColumns adapter.rewriteColumn) := by
  unfold rewrite
  split
  · rfl
  · next unchanged =>
    refine transformUp_congr fun name member index => ?_
    refine (rewriteColumn_of_not_requires ?_ index).symm
    simpa using (List.any_eq_false.mp (Bool.eq_false_of_not_eq_true unchanged)) name member

end Rewrite

/-! ### Expressions over a file -/

/-- An expression over plain columns is built exactly if each of its fields can be read from the
file, and it evaluates as the expression does over the values of the fields with these ids. -/
theorem columns_by_id {castable : DataType → DataType → Prop}
    {default : Fields → Fields → DefaultAdapter} (lawful : DefaultAdapter.Lawful castable default)
    {logical physical : Fields} (ids : HasIds (.struct logical)) (ids' : HasIds (.struct physical))
    (names : (physical.map (·.name)).Nodup) (distinct : (physical.map (·.fieldId)).Nodup)
    {expr : PhysicalExpr} (plain : ∀ name ∈ expr.columns, Plain logical name) :
    ((∃ out, (create default logical physical).rewrite expr = .ok out) ↔
      ∀ name ∈ expr.columns, ∀ field, fieldWithName logical name = some field →
        Builds castable physical field) ∧
    ∀ out, (create default logical physical).rewrite expr = .ok out →
      ∀ {batch : RecordBatch V}, OfFile physical batch → ∀ value,
        out.evaluate library batch = .ok value ↔
          Evaluates library (fun name value => ∃ field, fieldWithName logical name = some field ∧
            Holds library physical batch field value) expr value := by
  simp only [rewrite_eq]
  constructor
  · refine exists_transformUp_iff fun name member index => ?_
    obtain ⟨field, found, lineage, variant_⟩ := plain name member
    rw [exists_rewriteColumn_iff lawful ids ids' names distinct found lineage variant_]
    simp [found]
  · intro out made batch ofFile value
    refine evaluate_transformUp (fun name member index column made value => ?_) made
    obtain ⟨field, found, lineage, variant_⟩ := plain name member
    rw [evaluate_rewriteColumn lawful ids ids' names distinct found lineage variant_ ofFile made]
    simp [found]

/-! ### A file -/

/-- The metadata of a field with an id. -/
def withId (id : String) : Metadata := ⟨some id, none, []⟩

/-- The default adapter, where no types can be cast. -/
def byName (logical physical : Fields) : DefaultAdapter := fun name _ =>
  match fieldWithName logical name with
  | none => .error (.internal "no such column")
  | some field =>
    match indexOf physical name with
    | none => if field.nullable then .ok (.null field.dataType) else .error (.execution "missing")
    | some place =>
      match physical[place]? with
      | none => .error (.internal "no such column")
      | some held =>
        if held.dataType = field.dataType then .ok (.column name place)
        else .error (.execution "cannot cast")

theorem byName_lawful : DefaultAdapter.Lawful (fun _ _ => False) byName := by
  have nowhere : ∀ {physical : Fields} {name : String}, fieldWithName physical name = none →
      indexOf physical name = none := by
    intro physical name missing
    rw [fieldWithName, List.find?_eq_none] at missing
    exact List.findIdx?_eq_none_iff.mpr fun field member => by simpa using missing field member
  constructor
  · intro logical physical name field found missing nullable index
    simp [byName, found, nowhere missing, nullable]
  · intro logical physical name field found missing required index
    exact ⟨.execution "missing", by simp [byName, found, nowhere missing, required]⟩
  · intro logical physical name field held place found named there type index
    simp [byName, found, named, there, type]
  · intro logical physical name field held place found named there differ unlike casts
    exact absurd casts not_false
  · intro logical physical name field held place found named there differ unlike uncastable index
    exact ⟨.execution "cannot cast", by simp [byName, found, named, there, differ]⟩

/-- Arrow without casts and functions. -/
def plainArrow : ArrowLibrary Int where
  valid := fun _ => true
  cast := fun _ _ => .error (.arrow "cast")
  castExpr := fun _ _ => .error (.arrow "cast")
  unshredVariant := fun _ _ => .error (.arrow "variant")
  call := fun _ _ => .error (.arrow "call")

/-- A file with a struct of one field. -/
def fileFields : Fields :=
  [⟨"b", .leaf .utf8, true, withId "1"⟩,
    ⟨"a", .struct [⟨"x", .leaf .int32, true, withId "3"⟩], true, withId "2"⟩]

/-- A table in which the struct and its field have other names, and a field is added. -/
def renamedStruct : Field :=
  ⟨"b", .struct [⟨"z", .leaf .int32, true, withId "4"⟩, ⟨"y", .leaf .int32, true, withId "3"⟩],
    true, withId "2"⟩

theorem file_ids : HasIds (.struct fileFields) := by
  have inner : HasIds (.struct [⟨"x", .leaf .int32, true, withId "3"⟩]) := by
    refine .struct (by decide) fun field member => ?_
    obtain rfl := List.mem_singleton.mp member
    exact .leaf _
  refine .struct (by decide) fun field member => ?_
  rcases List.mem_pair.mp member with rfl | rfl
  · exact .leaf _
  · exact inner

theorem renamed_ids : HasIds (.struct [renamedStruct]) := by
  refine .struct (by decide) fun field member => ?_
  obtain rfl := List.mem_singleton.mp member
  refine .struct (by decide) fun field member => ?_
  rcases List.mem_pair.mp member with rfl | rfl
  · exact .leaf _
  · exact .leaf _

theorem renamed_plain :
    ∀ name ∈ (PhysicalExpr.column "b" 0).columns, Plain [renamedStruct] name := by
  intro name member
  obtain rfl := List.mem_singleton.mp member
  exact ⟨renamedStruct, rfl, by decide, by decide⟩

theorem renamed_builds : Builds (fun _ _ => False) fileFields renamedStruct := by
  have source := file_ids.inside (List.mem_of_getElem? (show fileFields[1]? = some _ from rfl))
  have target := renamed_ids.inside (List.mem_singleton_self renamedStruct)
  exact @Builds.present _ _ _ 1 _ (by decide) rfl ((exists_new_iff source target).mp ⟨_, rfl⟩)
    (by decide)

/-- The struct is read by its id, and so is the field inside it; the added field is null. -/
theorem columns_by_id_renamed :
    ∃ out, (create byName [renamedStruct] fileFields).rewrite (.column "b" 0) = .ok out ∧
      out.evaluate plainArrow
        ⟨fileFields, [.leaf .utf8 [some 0], .struct [⟨"x", .leaf .int32, true, withId "3"⟩]
          [.leaf .int32 [some 7]] none 1]⟩ =
        .ok (.array (.struct [⟨"z", .leaf .int32, true, withId "4"⟩,
          ⟨"y", .leaf .int32, true, withId "3"⟩]
          [.leaf .int32 [none], .leaf .int32 [some 7]] none 1)) := by
  obtain ⟨builds, values⟩ := @columns_by_id Int plainArrow _ _ byName_lawful [renamedStruct]
    fileFields renamed_ids file_ids (by decide) (by decide) (.column "b" 0) renamed_plain
  obtain ⟨out, made⟩ := builds.mpr fun name member field found => by
    obtain rfl := List.mem_singleton.mp member
    obtain rfl := Option.some.inj ((show some renamedStruct = some field from found))
    exact renamed_builds
  refine ⟨out, made, (values out made ⟨rfl, rfl, ?_⟩ _).mpr (.column ⟨renamedStruct, rfl, ?_⟩)⟩
  · intro column member
    rcases List.mem_pair.mp member with rfl | rfl
    · exact .leaf _ _
    · exact .struct rfl fun column member => List.mem_singleton.mp member ▸ .leaf _ _
  · refine @Holds.array _ _ _ _ _ 1 _ _ (by decide) rfl (fun _ => rfl) ?_
    refine @Reads.struct _ _ _ _ _ [.leaf .int32 [none], .leaf .int32 [some 7]] _ _ _ (by decide)
      rfl ?_ ?_ rfl
    · rintro (_ | _ | _) field result index column ⟨⟩ ⟨⟩ place here
      · cases (show none = some index from place)
      · obtain rfl := Option.some.inj ((show some 0 = some index from place))
        obtain rfl := Option.some.inj ((show some _ = some column from here))
        exact .same rfl
    · rintro (_ | _ | _) field result ⟨⟩ ⟨⟩ missing
      · rfl
      · cases missing

/-- A list whose elements have another id is not read, though they are optional; and the columns of
row lineage are read by the ids reserved for them. -/
theorem ids_apart :
    (∃ error, (create byName [⟨"xs", .list .list ⟨"element", .leaf .int32, true, withId "3"⟩, true,
        withId "1"⟩]
      [⟨"xs", .list .list ⟨"element", .leaf .int32, true, withId "2"⟩, true, withId "1"⟩]).rewrite
        (.column "xs" 0) = .error error) ∧
    (create byName [⟨"__iceberg_physical_row_id", .leaf .int64, true, withId "3"⟩]
      [⟨"x", .leaf .int64, true, withId "3"⟩,
        ⟨"y", .leaf .int64, true, withId "2147483540"⟩]).rewrite
        (.column "__iceberg_physical_row_id" 0) = .ok (.column "y" 1) := by
  constructor
  · exact ⟨_, rfl⟩
  · rfl

end IcebergRust.SchemaAdapter

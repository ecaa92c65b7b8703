import IcebergRust.DataFusion.SchemaAdapter
import IcebergRust.Lib.Fallible
import IcebergRust.Lib.Observation
import Mathlib.Data.List.Nodup

/-!
# Nested fields are read by field id

What a nested projection makes of an array, in terms of field ids alone.

* `Fits` says which types have a projection, `Reads` what the values of an array are under another
  type.  Neither mentions names or positions of the logical schema.
* `exists_new_iff` and `projectOrCast_eq_ok_iff` are that a projection is built where the types fit,
  and evaluates to what is read.
-/

namespace IcebergRust.SchemaAdapter

open Fallible NestedProjection

/-! ### Types -/

/-- Every field carries an id, at any depth; the entries of a map are no field. -/
inductive HasIds : DataType → Prop
  | leaf (type : LeafType) : HasIds (.leaf type)
  | struct {fields : Fields} (ids : ∀ field ∈ fields, field.fieldId ≠ none)
      (inside : ∀ field ∈ fields, HasIds field.dataType) : HasIds (.struct fields)
  | list {kind : ListKind} {field : Field} (id : field.fieldId ≠ none)
      (inside : HasIds field.dataType) : HasIds (.list kind field)
  | map {field : Field} {ordered : Bool} (inside : HasIds field.dataType) :
      HasIds (.map field ordered)

/-- The place of a field in a file, by its id. -/
def placeOf (source : Fields) (target : Field) : Option Nat :=
  source.findIdx? (·.fieldId = target.fieldId)

/-- Both types are structs, lists of one kind, or maps. -/
def Alike : DataType → DataType → Bool
  | .struct _, .struct _ => true
  | .list .list _, .list .list _ => true
  | .list .largeList _, .list .largeList _ => true
  | .list (.fixedSizeList _) _, .list (.fixedSizeList _) _ => true
  | .map _ _, .map _ _ => true
  | _, _ => false

/-- The ids of two children of containers agree. -/
def SameId (source target : Field) : Prop :=
  ∀ {first second : Int}, source.fieldId = some first → target.fieldId = some second →
    first = second

/-- A type can be read as another one: nothing that is required is missing. -/
inductive Fits : (source target : DataType) → Prop
  | same (type : DataType) : Fits type type
  | struct {source target : Fields}
      (present : ∀ field ∈ target, ∀ (index : Nat) (held : Field),
        placeOf source field = some index → source[index]? = some held →
        Fits held.dataType field.dataType)
      (absent : ∀ field ∈ target, placeOf source field = none → field.nullable = true) :
      Fits (.struct source) (.struct target)
  | list {kind : ListKind} {source target : Field} (ids : SameId source target)
      (inside : Fits source.dataType target.dataType) :
      Fits (.list kind source) (.list kind target)
  | map {source target : Field} {sorted ordered : Bool} (ids : SameId source target)
      (inside : Fits source.dataType target.dataType) :
      Fits (.map source sorted) (.map target ordered)
  | unlike {source target : DataType} (unlike : Alike source target = false) : Fits source target

theorem needsNestedProjection_eq (source target : DataType) :
    needsNestedProjection source target = (decide (source ≠ target) && Alike source target) := by
  unfold needsNestedProjection Alike
  split <;> simp_all

/-! ### Arrays -/

section Arrays

variable {V : Type}

/-- The columns of an array have the types of its fields. -/
inductive WellTyped : ArrayRef V → Prop
  | leaf (type : LeafType) (slots : List (Option V)) : WellTyped (.leaf type slots)
  | struct {fields : Fields} {columns : List (ArrayRef V)} {nulls : Option NullBuffer}
      {length : Nat} (types : columns.map (·.dataType) = fields.map (·.dataType))
      (inside : ∀ column ∈ columns, WellTyped column) :
      WellTyped (.struct fields columns nulls length)
  | list {layout : ListLayout} {field : Field} {values : ArrayRef V} {nulls : Option NullBuffer}
      (type : values.dataType = field.dataType) (inside : WellTyped values) :
      WellTyped (.list layout field values nulls)
  | map {field : Field} {offsets : List Nat} {entries : ArrayRef V} {nulls : Option NullBuffer}
      {ordered : Bool} (type : entries.dataType = field.dataType) (inside : WellTyped entries) :
      WellTyped (.map field offsets entries nulls ordered)

/-- The values of an array under another type.  A field of a struct has the values of the field with
its id, or is null where there is none; the lists and maps around it keep their offsets, and all of
them their nulls. -/
inductive Reads (library : ArrowLibrary V) : ArrayRef V → DataType → ArrayRef V → Prop
  | same {array : ArrayRef V} {target : DataType} (type : array.dataType = target) :
      Reads library array target array
  | struct {source target : Fields} {columns outs : List (ArrayRef V)} {nulls : Option NullBuffer}
      {length : Nat} {out : ArrayRef V} (differ : source ≠ target)
      (arity : outs.length = target.length)
      (present : ∀ (i : Nat) (field : Field) (result : ArrayRef V) (index : Nat)
        (column : ArrayRef V), target[i]? = some field → outs[i]? = some result →
        placeOf source field = some index → columns[index]? = some column →
        Reads library column field.dataType result)
      (absent : ∀ (i : Nat) (field : Field) (result : ArrayRef V), target[i]? = some field →
        outs[i]? = some result → placeOf source field = none →
        result = newNullArray V field.dataType length)
      (made : structTryNew library target outs nulls = .ok out) :
      Reads library (.struct source columns nulls length) (.struct target) out
  | list {layout : ListLayout} {source target : Field} {values out : ArrayRef V}
      {nulls : Option NullBuffer} (differ : source ≠ target)
      (inside : Reads library values target.dataType out)
      (valid : library.valid (.list layout target out nulls) = true) :
      Reads library (.list layout source values nulls) (.list layout.kind target)
        (.list layout target out nulls)
  | map {source target : Field} {offsets : List Nat} {entries : ArrayRef V}
      {nulls entryNulls : Option NullBuffer} {sorted ordered : Bool} {fields : Fields}
      {columns : List (ArrayRef V)} {length : Nat}
      (differ : DataType.map source sorted ≠ .map target ordered)
      (inside : Reads library entries target.dataType (.struct fields columns entryNulls length))
      (valid : library.valid
        (.map target offsets (.struct fields columns entryNulls length) nulls ordered) = true) :
      Reads library (.map source offsets entries nulls sorted) (.map target ordered)
        (.map target offsets (.struct fields columns entryNulls length) nulls ordered)
  | converted {array out : ArrayRef V} {target : DataType}
      (unlike : Alike array.dataType target = false) (differ : array.dataType ≠ target)
      (made : library.cast array target = .ok out) : Reads library array target out

end Arrays

/-! ### Building a projection -/

theorem newField_eq (source target : Field) :
    newField source target = new source.dataType target.dataType := by
  cases target
  rfl

theorem newChildren_eq (source targets : Fields) :
    newChildren source targets = targets.mapM (newChild source) := by
  induction targets with
  | nil => rfl
  | cons target targets ih =>
    rw [newChildren, List.mapM_cons, ih]
    cases newChild source target with
    | error e => rfl
    | ok child =>
      rw [ok_bind, ok_bind]
      cases targets.mapM (newChild source) <;> rfl

variable {target : Field} {source : DataType}

/-- In a file with ids the source of a field is found by its id. -/
theorem sourceIndex_eq {source : Fields} (ids : ∀ field ∈ source, field.fieldId ≠ none)
    (id : target.fieldId ≠ none) : sourceIndex source target = placeOf source target := by
  obtain ⟨key, found⟩ := Option.ne_none_iff_exists'.mp id
  unfold sourceIndex placeOf
  rw [found]
  cases source with
  | nil => rfl
  | cons first rest =>
    have some_ : (first :: rest).any (·.fieldId.isSome) = true :=
      List.any_eq_true.mpr ⟨first, List.mem_cons_self,
        Option.isSome_iff_ne_none.mpr (ids first List.mem_cons_self)⟩
    rw [some_]

/-- A place that is found is in the file. -/
theorem exists_of_placeOf {source : Fields} {index : Nat}
    (found : placeOf source target = some index) :
    ∃ held, source[index]? = some held ∧ held.fieldId = target.fieldId := by
  obtain ⟨within, same, -⟩ := List.findIdx?_eq_some_iff_getElem.mp found
  exact ⟨source[index], List.getElem?_eq_getElem within, by simpa using same⟩

/-- What the projection of a field is. -/
theorem newChild_eq_ok_iff {source : Fields} {child : StructChildProjection}
    (ids : ∀ field ∈ source, field.fieldId ≠ none) (id : target.fieldId ≠ none) :
    newChild source target = .ok child ↔
      (placeOf source target = none ∧ target.nullable = true ∧ child = ⟨none, target, none⟩) ∨
      ∃ index held nested, placeOf source target = some index ∧ source[index]? = some held ∧
        new held.dataType target.dataType = .ok nested ∧
        child = ⟨some index, target, nested⟩ := by
  have place := sourceIndex_eq ids id
  obtain ⟨name, dataType, nullable, metadata⟩ := target
  rw [newChild, place]
  cases found : placeOf source ⟨name, dataType, nullable, metadata⟩ with
  | none =>
    cases nullable with
    | true => simp [eq_comm]
    | false => simp
  | some index =>
    obtain ⟨held, here, -⟩ := exists_of_placeOf found
    simp only [here, map_eq_ok, reduceCtorEq, false_and, Option.some.injEq, false_or]
    constructor
    · rintro ⟨nested, made, rfl⟩
      exact ⟨index, held, nested, rfl, here, made, rfl⟩
    · rintro ⟨_, _, nested, rfl, there, made, rfl⟩
      obtain rfl := Option.some.inj (here.symm.trans there)
      exact ⟨nested, made, rfl⟩

theorem verifyContainerChildId_eq_ok_iff {source : Field} :
    verifyContainerChildId source target = .ok () ↔ SameId source target := by
  unfold verifyContainerChildId SameId
  cases source.fieldId with
  | none => simp
  | some first =>
    cases target.fieldId with
    | none => simp
    | some second => simp

/-- Kinds of lists that are projected are the same kind; only a changed width is an error. -/
theorem projects_cases (source target : ListKind) (first second : Field) :
    (source = target ∧ source.projects target = .ok true) ∨
      (Alike (.list source first) (.list target second) = false ∧
        source.projects target = .ok false) ∨
      (source ≠ target ∧ Alike (.list source first) (.list target second) = true ∧
        ∃ error, source.projects target = .error error) := by
  cases source <;> cases target
  case fixedSizeList.fixedSizeList size size' =>
    by_cases same : size = size'
    · subst same
      exact .inl ⟨rfl, if_neg (not_not_intro rfl)⟩
    · exact .inr (.inr ⟨by simp [same], rfl, _, if_pos same⟩)
  case list.list => exact .inl ⟨rfl, rfl⟩
  case largeList.largeList => exact .inl ⟨rfl, rfl⟩
  all_goals exact .inr (.inl ⟨rfl, rfl⟩)

/-- Nothing is projected where the types are the same. -/
theorem new_self (type : DataType) : new type type = .ok none := by
  cases type <;> simp [new]

/-- Nothing is projected where the types are not alike. -/
theorem new_unlike {target : DataType} (unlike : Alike source target = false) :
    new source target = .ok none := by
  cases target with
  | leaf type => simp [new]
  | struct fields =>
    cases source with
    | struct _ => cases unlike
    | _ => simp [new]
  | list kind field =>
    cases source with
    | list sourceKind source =>
      rcases projects_cases sourceKind kind source field with
        ⟨rfl, -⟩ | ⟨-, projects⟩ | ⟨-, alike, -⟩
      · cases sourceKind <;> cases unlike
      · simp [new, projects]
      · rw [alike] at unlike
        cases unlike
    | _ => simp [new]
  | map field ordered =>
    cases source with
    | map _ _ => cases unlike
    | _ => simp [new]

/-- Nothing is projected where no container is inside another one of its kind. -/
theorem new_flat {target : DataType} (flat : source ≠ target → Alike source target = false) :
    new source target = .ok none := by
  by_cases same : source = target
  · rw [same]
    exact new_self target
  · exact new_unlike (flat same)

/-- What alike types are. -/
theorem alike_struct {target : Fields} (alike : Alike source (.struct target) = true) :
    ∃ fields, source = .struct fields := by
  cases source with
  | struct fields => exact ⟨fields, rfl⟩
  | list kind _ => cases kind <;> cases alike
  | _ => cases alike

theorem alike_list {kind : ListKind} (alike : Alike source (.list kind target) = true) :
    ∃ sourceKind field, source = .list sourceKind field := by
  cases source with
  | list sourceKind field => exact ⟨sourceKind, field, rfl⟩
  | _ => cases alike

theorem alike_map {ordered : Bool} (alike : Alike source (.map target ordered) = true) :
    ∃ field sorted, source = .map field sorted := by
  cases source with
  | map field sorted => exact ⟨field, sorted, rfl⟩
  | list kind _ => cases kind <;> cases alike
  | _ => cases alike

theorem alike_leaf (source : DataType) (type : LeafType) : Alike source (.leaf type) = false := by
  cases source with
  | list kind _ => cases kind <;> rfl
  | _ => rfl

/-- The projection of a list. -/
theorem new_list_eq_ok_iff {sourceKind kind : ListKind} {source : Field}
    {projection : Option NestedProjection}
    (differ : DataType.list sourceKind source ≠ .list kind target)
    (alike : Alike (.list sourceKind source) (.list kind target) = true) :
    new (.list sourceKind source) (.list kind target) = .ok projection ↔
      sourceKind = kind ∧ SameId source target ∧
      ∃ values, new source.dataType target.dataType = .ok values ∧
        some (.list kind target values) = projection := by
  rw [new, if_neg differ]
  rcases projects_cases sourceKind kind source target with
    ⟨rfl, projects⟩ | ⟨unlike, -⟩ | ⟨other, -, error, projects⟩
  · simp only [projects, ok_bind, if_true, bind_eq_ok, map_eq_ok, newField_eq, true_and]
    constructor
    · rintro ⟨⟨⟩, verified, made⟩
      exact ⟨verifyContainerChildId_eq_ok_iff.mp verified, made⟩
    · rintro ⟨ids, made⟩
      exact ⟨(), verifyContainerChildId_eq_ok_iff.mpr ids, made⟩
  · rw [alike] at unlike
    cases unlike
  · simp [projects, other]

/-- The projection of a map. -/
theorem new_map_eq_ok_iff {source : Field} {sorted ordered : Bool}
    {projection : Option NestedProjection}
    (differ : DataType.map source sorted ≠ .map target ordered) :
    new (.map source sorted) (.map target ordered) = .ok projection ↔
      SameId source target ∧
      ∃ entries, new source.dataType target.dataType = .ok entries ∧
        some (.map target ordered entries) = projection := by
  rw [new, if_neg differ]
  simp only [bind_eq_ok, map_eq_ok, newField_eq]
  constructor
  · rintro ⟨⟨⟩, verified, made⟩
    exact ⟨verifyContainerChildId_eq_ok_iff.mp verified, made⟩
  · rintro ⟨ids, made⟩
    exact ⟨(), verifyContainerChildId_eq_ok_iff.mpr ids, made⟩

section Struct

variable {source target : Fields}

theorem HasIds.ids (ids : HasIds (.struct target)) : ∀ field ∈ target, field.fieldId ≠ none := by
  cases ids with
  | struct ids _ => exact ids

theorem HasIds.inside (ids : HasIds (.struct target)) {field : Field} (member : field ∈ target) :
    HasIds field.dataType := by
  cases ids with
  | struct _ inside => exact inside field member

theorem HasIds.list_inside {kind : ListKind} {field : Field} (ids : HasIds (.list kind field)) :
    HasIds field.dataType := by
  cases ids with
  | list _ inside => exact inside

theorem HasIds.map_inside {field : Field} {ordered : Bool} (ids : HasIds (.map field ordered)) :
    HasIds field.dataType := by
  cases ids with
  | map inside => exact inside

theorem new_struct (differ : source ≠ target) :
    new (.struct source) (.struct target) =
      (target.mapM (newChild source)).map fun children =>
        some (.struct ⟨target, children⟩) := by
  rw [new, if_neg (by simpa using differ), ← newChildren_eq]

/-- The children of a struct have projections exactly if they fit. -/
theorem exists_newChildren_iff (ids : HasIds (.struct source)) (ids' : HasIds (.struct target))
    (inside : ∀ field ∈ target, ∀ (index : Nat) (held : Field), source[index]? = some held →
      ((∃ nested, new held.dataType field.dataType = .ok nested) ↔
        Fits held.dataType field.dataType)) :
    (∃ children, target.mapM (newChild source) = .ok children) ↔
      (∀ field ∈ target, ∀ (index : Nat) (held : Field), placeOf source field = some index →
        source[index]? = some held → Fits held.dataType field.dataType) ∧
      ∀ field ∈ target, placeOf source field = none → field.nullable = true := by
  constructor
  · rintro ⟨children, made⟩
    have each := exists_step_of_mapM made
    constructor
    · intro field member index held place here
      obtain ⟨child, own⟩ := each field member
      rcases (newChild_eq_ok_iff ids.ids (ids'.ids field member)).mp own with
        ⟨missing, -⟩ | ⟨other, found, nested, place', here', built, -⟩
      · rw [place] at missing
        cases missing
      · obtain rfl := Option.some.inj (place.symm.trans place')
        obtain rfl := Option.some.inj (here.symm.trans here')
        exact (inside field member index held here).mp ⟨nested, built⟩
    · intro field member place
      obtain ⟨child, own⟩ := each field member
      rcases (newChild_eq_ok_iff ids.ids (ids'.ids field member)).mp own with
        ⟨-, nullable, -⟩ | ⟨other, found, nested, place', -⟩
      · exact nullable
      · rw [place] at place'
        cases place'
  · rintro ⟨present, absent⟩
    apply mapM_total
    intro field member
    have child := fun child => @newChild_eq_ok_iff field source child ids.ids (ids'.ids field member)
    cases place : placeOf source field with
    | none => exact ⟨_, (child _).mpr (.inl ⟨place, absent field member place, rfl⟩)⟩
    | some index =>
      obtain ⟨held, here, -⟩ := exists_of_placeOf place
      obtain ⟨nested, built⟩ := (inside field member index held here).mpr
        (present field member index held place here)
      exact ⟨_, (child _).mpr (.inr ⟨index, held, nested, place, here, built, rfl⟩)⟩

end Struct

/-- Different types that are alike have a projection, if they fit. -/
theorem new_ne_none {target : DataType} (differ : source ≠ target)
    (alike : Alike source target = true) : new source target ≠ .ok none := by
  intro made
  cases target with
  | leaf type =>
    rw [alike_leaf] at alike
    cases alike
  | struct target =>
    obtain ⟨source, rfl⟩ := alike_struct alike
    rw [new_struct fun same => differ (congrArg DataType.struct same)] at made
    obtain ⟨_, -, none_⟩ := map_eq_ok.mp made
    cases none_
  | list kind target =>
    obtain ⟨sourceKind, source, rfl⟩ := alike_list alike
    obtain ⟨-, -, _, -, none_⟩ := (new_list_eq_ok_iff differ alike).mp made
    cases none_
  | map target ordered =>
    obtain ⟨source, sorted, rfl⟩ := alike_map alike
    obtain ⟨-, _, -, none_⟩ := (new_map_eq_ok_iff differ).mp made
    cases none_

/-- A projection is built exactly if the types fit. -/
theorem exists_new_iff {target : DataType} (ids : HasIds source) (ids' : HasIds target) :
    (∃ projection, new source target = .ok projection) ↔ Fits source target := by
  induction target generalizing source with
  | leaf type =>
    have unlike := alike_leaf source type
    exact iff_of_true ⟨none, new_unlike unlike⟩ (.unlike unlike)
  | struct target ih =>
    cases alike : Alike source (.struct target) with
    | false => exact iff_of_true ⟨none, new_unlike alike⟩ (.unlike alike)
    | true =>
      obtain ⟨source, rfl⟩ := alike_struct alike
      by_cases same : source = target
      · subst same
        exact iff_of_true ⟨none, new_self _⟩ (.same _)
      · have children := exists_newChildren_iff ids ids' fun field member index held here =>
          ih field member (ids.inside (List.mem_of_getElem? here)) (ids'.inside member)
        simp only [new_struct same, map_eq_ok]
        constructor
        · rintro ⟨_, made, built, -⟩
          obtain ⟨present, absent⟩ := children.mp ⟨made, built⟩
          exact .struct present absent
        · intro fits
          cases fits with
          | same => exact absurd rfl same
          | struct present absent =>
            obtain ⟨made, built⟩ := children.mpr ⟨present, absent⟩
            exact ⟨_, made, built, rfl⟩
          | unlike unlike => cases unlike
  | list kind target ih =>
    cases alike : Alike source (.list kind target) with
    | false => exact iff_of_true ⟨none, new_unlike alike⟩ (.unlike alike)
    | true =>
      obtain ⟨sourceKind, source, rfl⟩ := alike_list alike
      by_cases same : DataType.list sourceKind source = .list kind target
      · rw [same]
        exact iff_of_true ⟨none, new_self _⟩ (.same _)
      · have within := ih ids.list_inside ids'.list_inside
        simp only [new_list_eq_ok_iff same alike]
        constructor
        · rintro ⟨_, rfl, ids, values, made, -⟩
          exact .list ids (within.mp ⟨values, made⟩)
        · intro fits
          cases fits with
          | same => exact absurd rfl same
          | list ids fits =>
            obtain ⟨values, made⟩ := within.mpr fits
            exact ⟨_, rfl, ids, values, made, rfl⟩
          | unlike unlike =>
            rw [alike] at unlike
            cases unlike
  | map target ordered ih =>
    cases alike : Alike source (.map target ordered) with
    | false => exact iff_of_true ⟨none, new_unlike alike⟩ (.unlike alike)
    | true =>
      obtain ⟨source, sorted, rfl⟩ := alike_map alike
      by_cases same : DataType.map source sorted = .map target ordered
      · rw [same]
        exact iff_of_true ⟨none, new_self _⟩ (.same _)
      · have within := ih ids.map_inside ids'.map_inside
        simp only [new_map_eq_ok_iff same]
        constructor
        · rintro ⟨_, ids, entries, made, -⟩
          exact .map ids (within.mp ⟨entries, made⟩)
        · intro fits
          cases fits with
          | same => exact absurd rfl same
          | map ids fits =>
            obtain ⟨entries, made⟩ := within.mpr fits
            exact ⟨_, ids, entries, made, rfl⟩
          | unlike unlike => cases unlike

/-! ### Applying a projection -/

section Apply

variable {V : Type} {library : ArrowLibrary V}

theorem applyChildren_eq (columns : List (ArrayRef V)) (length : Nat)
    (children : List StructChildProjection) :
    applyChildren library columns length children =
      children.mapM (applyChild library columns length) := by
  induction children with
  | nil => rfl
  | cons child children ih =>
    rw [applyChildren, List.mapM_cons, ih]
    cases applyChild library columns length child with
    | error e => rfl
    | ok column =>
      rw [ok_bind, ok_bind]
      cases children.mapM (applyChild library columns length) <;> rfl

variable {array out : ArrayRef V} {target : DataType}

theorem tryNew_eq_ok_iff :
    tryNew library array = .ok out ↔ library.valid array = true ∧ array = out := by
  unfold tryNew
  split <;> simp_all

/-- An array of the type itself is read as it is. -/
theorem reads_self_iff (type : array.dataType = target) :
    Reads library array target out ↔ array = out := by
  constructor
  · intro reads
    cases reads with
    | same => rfl
    | struct differ => exact absurd (DataType.struct.inj type) differ
    | list differ => exact absurd (DataType.list.inj type).2 differ
    | map differ => exact absurd type differ
    | converted _ differ => exact absurd type differ
  · rintro rfl
    exact .same type

/-- An array of a type that is not alike is cast. -/
theorem reads_unlike_iff (unlike : Alike array.dataType target = false)
    (differ : array.dataType ≠ target) :
    Reads library array target out ↔ library.cast array target = .ok out := by
  constructor
  · intro reads
    cases reads with
    | same type => exact absurd type differ
    | struct => cases unlike
    | @list layout => cases layout <;> cases unlike
    | map => cases unlike
    | converted _ _ made => exact made
  · exact .converted unlike differ

/-- Without a projection an array is read as it is, or cast. -/
theorem project_none_iff (unlike : array.dataType ≠ target → Alike array.dataType target = false) :
    projectOrCast library array target none = .ok out ↔ Reads library array target out := by
  rw [projectOrCast]
  by_cases type : array.dataType = target
  · rw [if_pos type, reads_self_iff type, Except.ok.injEq]
  · rw [if_neg type, reads_unlike_iff (unlike type) type]

section Struct

variable {source target : Fields} {columns : List (ArrayRef V)} {length : Nat}

/-- The column of a field, given what is made of the column with its id. -/
theorem applyChild_eq_ok_iff {field : Field} {child : StructChildProjection} {out : ArrayRef V}
    (ids : ∀ field ∈ source, field.fieldId ≠ none) (id : field.fieldId ≠ none)
    (types : columns.map (·.dataType) = source.map (·.dataType))
    (inside : ∀ (index : Nat) (column : ArrayRef V) (nested : Option NestedProjection),
      columns[index]? = some column →
      new column.dataType field.dataType = .ok nested →
      (projectOrCast library column field.dataType nested = .ok out ↔
        Reads library column field.dataType out))
    (made : newChild source field = .ok child) :
    applyChild library columns length child = .ok out ↔
      (∀ (index : Nat) (column : ArrayRef V), placeOf source field = some index →
        columns[index]? = some column → Reads library column field.dataType out) ∧
      (placeOf source field = none → out = newNullArray V field.dataType length) := by
  rcases (newChild_eq_ok_iff ids id).mp made with
    ⟨missing, -, rfl⟩ | ⟨index, held, nested, place, here, built, rfl⟩
  · simp [applyChild, missing, eq_comm]
  · have column := congrArg (·[index]?) types
    simp only [List.getElem?_map, here, Option.map_some, Option.map_eq_some_iff] at column
    obtain ⟨column, there, type⟩ := column
    rw [← type] at built
    simp only [applyChild, there, place, inside index column nested there built]
    constructor
    · intro reads
      refine ⟨?_, nofun⟩
      rintro _ _ ⟨⟩ there'
      obtain rfl := Option.some.inj (there.symm.trans there')
      exact reads
    · rintro ⟨present, -⟩
      exact present index column rfl there

/-- The columns of a struct, given what is made of the columns of its fields. -/
theorem applyStruct_eq_ok_iff {children : List StructChildProjection} {nulls : Option NullBuffer}
    {out : ArrayRef V} (ids : HasIds (.struct source)) (ids' : HasIds (.struct target))
    (types : columns.map (·.dataType) = source.map (·.dataType)) (differ : source ≠ target)
    (inside : ∀ field ∈ target, ∀ (index : Nat) (column : ArrayRef V)
      (nested : Option NestedProjection) (out : ArrayRef V), columns[index]? = some column →
      new column.dataType field.dataType = .ok nested →
      (projectOrCast library column field.dataType nested = .ok out ↔
        Reads library column field.dataType out))
    (made : target.mapM (newChild source) = .ok children) :
    applyStruct library ⟨target, children⟩ (.struct source columns nulls length) = .ok out ↔
      Reads library (.struct source columns nulls length) (.struct target) out := by
  have each : ∀ outs, children.mapM (applyChild library columns length) = .ok outs ↔
      List.Forall₂ (fun field out =>
        (∀ (index : Nat) (column : ArrayRef V), placeOf source field = some index →
          columns[index]? = some column → Reads library column field.dataType out) ∧
        (placeOf source field = none → out = newNullArray V field.dataType length))
        target outs := by
    intro outs
    refine mapM_after_iff (fun field member child out own => ?_) made
    exact applyChild_eq_ok_iff ids.ids (ids'.ids field member) types
      (fun index column nested => inside field member index column nested out) own
  rw [applyStruct]
  simp only [applyChildren_eq, bind_eq_ok, each, Observation.forall₂_iff_places]
  constructor
  · rintro ⟨outs, ⟨arity, related⟩, built⟩
    exact .struct differ arity
      (fun i field result index column here there =>
        (related i field result here there).1 index column)
      (fun i field result here there => (related i field result here there).2) built
  · intro reads
    cases reads with
    | same type => exact absurd (DataType.struct.inj type) differ
    | struct _ arity present absent built =>
      exact ⟨_, ⟨arity, fun i field result here there =>
        ⟨fun index column => present i field result index column here there,
          absent i field result here there⟩⟩, built⟩
    | converted unlike => cases unlike

end Struct

/-- What the projection of two types makes of an array is what is read of it. -/
theorem projectOrCast_eq_ok_iff {projection : Option NestedProjection} (ids : HasIds array.dataType)
    (ids' : HasIds target) (typed : WellTyped array)
    (made : new array.dataType target = .ok projection) :
    projectOrCast library array target projection = .ok out ↔ Reads library array target out := by
  induction target generalizing array out projection with
  | leaf type =>
    have unlike := alike_leaf array.dataType type
    obtain rfl := Except.ok.inj ((new_unlike unlike).symm.trans made)
    exact project_none_iff fun _ => unlike
  | struct target ih =>
    by_cases flat : array.dataType ≠ .struct target → Alike array.dataType (.struct target) = false
    · obtain rfl := Except.ok.inj ((new_flat flat).symm.trans made)
      exact project_none_iff flat
    · obtain ⟨differ, alike⟩ : array.dataType ≠ .struct target ∧
          Alike array.dataType (.struct target) = true := by simpa using flat
      cases array with
      | struct source columns nulls length =>
        have differ : source ≠ target := fun same => differ (congrArg DataType.struct same)
        cases typed with
        | struct types typed =>
          simp only [ArrayRef.dataType, new_struct differ, map_eq_ok] at made
          obtain ⟨children, made, rfl⟩ := made
          refine applyStruct_eq_ok_iff ids ids' types differ ?_ made
          intro field member index column nested out here built
          have held := List.mem_of_getElem? here
          have own : HasIds column.dataType := by
            obtain ⟨field, member, same⟩ := List.mem_map.mp (types ▸ List.mem_map_of_mem held)
            exact same ▸ ids.inside member
          exact ih field member own (ids'.inside member) (typed column held) built
      | list layout => cases layout <;> cases alike
      | leaf => cases alike
      | map => cases alike
  | list kind target ih =>
    by_cases flat : array.dataType ≠ .list kind target →
        Alike array.dataType (.list kind target) = false
    · obtain rfl := Except.ok.inj ((new_flat flat).symm.trans made)
      exact project_none_iff flat
    · obtain ⟨differ, alike⟩ : array.dataType ≠ .list kind target ∧
          Alike array.dataType (.list kind target) = true := by simpa using flat
      cases array with
      | list layout source values nulls =>
        cases typed with
        | list type typed =>
          obtain ⟨rfl, -, inner, built, rfl⟩ := (new_list_eq_ok_iff differ alike).mp made
          rw [← type] at built
          have within := fun {out} =>
            @ih values out inner (type ▸ ids.list_inside) ids'.list_inside typed built
          have same : layout.kind.downcast layout = some layout := by cases layout <;> rfl
          simp only [projectOrCast, apply, same, bind_eq_ok, tryNew_eq_ok_iff,
            within]
          constructor
          · rintro ⟨out, reads, valid, rfl⟩
            exact .list (fun same => differ (congrArg (DataType.list layout.kind) same)) reads valid
          · intro reads
            cases reads with
            | same type => exact absurd type differ
            | list _ reads valid => exact ⟨_, reads, valid, rfl⟩
            | converted unlike =>
              rw [alike] at unlike
              cases unlike
      | struct => cases alike
      | leaf => cases alike
      | map => cases alike
  | map target ordered ih =>
    by_cases flat : array.dataType ≠ .map target ordered →
        Alike array.dataType (.map target ordered) = false
    · obtain rfl := Except.ok.inj ((new_flat flat).symm.trans made)
      exact project_none_iff flat
    · obtain ⟨differ, alike⟩ : array.dataType ≠ .map target ordered ∧
          Alike array.dataType (.map target ordered) = true := by simpa using flat
      cases array with
      | map source offsets entries nulls sorted =>
        cases typed with
        | map type typed =>
          obtain ⟨-, inner, built, rfl⟩ := (new_map_eq_ok_iff differ).mp made
          rw [← type] at built
          have within := fun {out} =>
            @ih entries out inner (type ▸ ids.map_inside) ids'.map_inside typed built
          simp only [projectOrCast, apply, bind_eq_ok, within]
          constructor
          · rintro ⟨projected, reads, built⟩
            cases projected with
            | struct fields columns entryNulls length =>
              obtain ⟨valid, rfl⟩ := tryNew_eq_ok_iff.mp built
              exact .map differ reads valid
            | leaf => cases built
            | list => cases built
            | map => cases built
          · intro reads
            cases reads with
            | same type => exact absurd type differ
            | map _ reads valid => exact ⟨_, reads, tryNew_eq_ok_iff.mpr ⟨valid, rfl⟩⟩
            | converted unlike => cases unlike
      | list layout => cases layout <;> cases alike
      | struct => cases alike
      | leaf => cases alike

end Apply

end IcebergRust.SchemaAdapter

import IcebergRust.MaterializedView.DeltaTransform

/-!
# Runs of the transformation

What `transform_down` arrives at, and the rows of a union by name.

* `Yields` is a run that does not depend on how many levels it may descend; it is put together
  node by node (`Yields.of_step`), and there is at most one result (`Yields.unique`).
* A cell is found by the first field its column refers to; with distinct names that is the field.
* A union by name lines up the cells of its inputs (`eval_unionWithSchema_linedUp`); inputs with the
  same, distinct names give their rows (`eval_unionWithSchema`).
-/

namespace IcebergRust.DeltaQueries

open Fallible

variable {A : Type}

/-! ### Results -/

section Yields

variable {step : Plan A → Except DataFusionError (Plan A)} {plan next out : Plan A}

/-- From some number of levels on this is what the transformation arrives at. -/
def Yields (step : Plan A → Except DataFusionError (Plan A)) (plan out : Plan A) : Prop :=
  ∃ levels, ∀ more, levels ≤ more → transformDown step more plan = .ok out

theorem transformDown_succ_eq_ok {levels : Nat} :
    transformDown step (levels + 1) plan = .ok out ↔
      ∃ next, step plan = .ok next ∧ ∃ outs,
        List.Forall₂ (fun x y => transformDown step levels x = .ok y) next.inputs outs ∧
          next.withInputs outs = out := by
  constructor
  · intro run
    obtain ⟨next, one, run⟩ := bind_eq_ok.mp run
    obtain ⟨outs, below, run⟩ := bind_eq_ok.mp run
    exact ⟨next, one, outs, mapM_eq_ok.mp below, Except.ok.inj run⟩
  · rintro ⟨next, one, outs, below, rfl⟩
    exact bind_eq_ok.mpr ⟨next, one, bind_eq_ok.mpr ⟨outs, mapM_eq_ok.mpr below, rfl⟩⟩

theorem transformDown_mono {levels more : Nat} (le : levels ≤ more)
    (run : transformDown step levels plan = .ok out) : transformDown step more plan = .ok out := by
  induction levels generalizing more plan out with
  | zero => exact absurd run (by simp [transformDown])
  | succ levels ih =>
    obtain ⟨more, rfl⟩ : ∃ m, more = m + 1 := ⟨more - 1, by omega⟩
    obtain ⟨next, one, outs, below, same⟩ := transformDown_succ_eq_ok.mp run
    refine transformDown_succ_eq_ok.mpr ⟨next, one, outs, ?_, same⟩
    exact below.imp fun x y here => ih (Nat.le_of_succ_le_succ le) here

theorem Yields.of_run {levels : Nat} (run : transformDown step levels plan = .ok out) :
    Yields step plan out :=
  ⟨levels, fun _ le => transformDown_mono le run⟩

theorem Yields.unique {other : Plan A} (yields : Yields step plan out)
    (others : Yields step plan other) : out = other := by
  obtain ⟨n, runs⟩ := yields
  obtain ⟨m, run⟩ := others
  have both := (runs (max n m) (le_max_left n m)).symm.trans (run (max n m) (le_max_right n m))
  exact Except.ok.inj both

/-- Several results are arrived at with the same number of levels. -/
theorem common_levels {inputs outs : List (Plan A)}
    (below : List.Forall₂ (Yields step) inputs outs) :
    ∃ levels, ∀ more, levels ≤ more →
      List.Forall₂ (fun x y => transformDown step more x = .ok y) inputs outs := by
  induction below with
  | nil => exact ⟨0, fun _ _ => .nil⟩
  | cons first _ ih =>
    obtain ⟨n, runs⟩ := first
    obtain ⟨m, rest⟩ := ih
    refine ⟨max n m, fun more le => .cons ?_ ?_⟩
    · exact runs more ((le_max_left n m).trans le)
    · exact rest more ((le_max_right n m).trans le)

/-- One step, and the results for the inputs it leaves. -/
theorem Yields.of_step {outs : List (Plan A)} (one : step plan = .ok next)
    (below : List.Forall₂ (Yields step) next.inputs outs) :
    Yields step plan (next.withInputs outs) := by
  obtain ⟨levels, runs⟩ := common_levels below
  refine ⟨levels + 1, fun more le => ?_⟩
  obtain ⟨more, rfl⟩ : ∃ m, more = m + 1 := ⟨more - 1, by omega⟩
  exact transformDown_succ_eq_ok.mpr
    ⟨next, one, outs, runs more (Nat.le_of_succ_le_succ le), rfl⟩

/-- A step that leaves a node with one input. -/
theorem Yields.one {input output : Plan A} (one : step plan = .ok next)
    (inputs : next.inputs = [input]) (below : Yields step input output) :
    Yields step plan (next.withInputs [output]) :=
  .of_step one (inputs ▸ .cons below .nil)

/-- A step to a plan that is left as it is. -/
theorem Yields.settled (one : step plan = .ok next) (settled : step next = .ok next)
    (yields : Yields step next out) : Yields step plan out := by
  obtain ⟨levels, runs⟩ := yields
  refine ⟨levels + 1, fun more le => ?_⟩
  have run := runs more (by omega)
  obtain ⟨more, rfl⟩ : ∃ m, more = m + 1 := ⟨more - 1, by omega⟩
  obtain ⟨same, here, rest⟩ := transformDown_succ_eq_ok.mp run
  cases settled.symm.trans here
  exact transformDown_succ_eq_ok.mpr ⟨_, one, rest⟩

/-- A projection, where the step leaves projections alone. -/
theorem Yields.projection {input output : Plan A} (expr : List (Expr A))
    (one : step (.projection expr input) = .ok (.projection expr input))
    (below : Yields step input output) :
    Yields step (.projection expr input) (.projection expr output) :=
  .one one rfl below

end Yields

/-! ### Cells -/

section Columns

variable {schema other : List Column} {row rest : Row A} {column : Column}

@[simp] theorem Column.refersTo_self (column : Column) : column.refersTo column = true := by
  unfold Column.refersTo
  split
  · rename_i relation same
    simp [same]
  · simp

theorem Column.refersTo_unqualified {name : String} {field : Column} :
    Column.refersTo ⟨none, name⟩ field = true ↔ field.name = name := by
  simp [Column.refersTo]

theorem Column.refersTo_qualified {relation : TableReference} {name : String} {field : Column} :
    Column.refersTo ⟨some relation, name⟩ field = true ↔ field = ⟨some relation, name⟩ := by
  obtain ⟨r, n⟩ := field
  simp [Column.refersTo]

theorem Column.name_of_refersTo {field : Column} (refers : column.refersTo field = true) :
    field.name = column.name := by
  obtain ⟨relation, name⟩ := column
  cases relation with
  | none => exact Column.refersTo_unqualified.mp refers
  | some relation => rw [Column.refersTo_qualified.mp refers]

theorem indexOfColumn_eq_some {i : Nat} (h : i < schema.length)
    (refers : column.refersTo schema[i] = true)
    (first : ∀ j, ∀ below : j < i, ¬ column.refersTo schema[j] = true) :
    indexOfColumn schema column = some i :=
  List.findIdx?_eq_some_iff_getElem.mpr ⟨h, refers, first⟩

/-- With distinct names a field is found where it is. -/
theorem indexOfColumn_getElem (distinct : (schema.map (·.name)).Nodup) {i : Nat}
    (h : i < schema.length) (refers : column.refersTo schema[i] = true) :
    indexOfColumn schema column = some i := by
  refine indexOfColumn_eq_some h refers fun j below same => ?_
  have length : (schema.map (·.name)).length = schema.length := List.length_map _
  have inside : i < (schema.map (·.name)).length := length.symm ▸ h
  have before : j < (schema.map (·.name)).length := below.trans inside
  have names : (schema.map (·.name))[j] = (schema.map (·.name))[i] := by
    rw [List.getElem_map, List.getElem_map, Column.name_of_refersTo same,
      Column.name_of_refersTo refers]
  have index := (List.Nodup.getElem_inj_iff distinct).mp names
  omega

theorem cell_eq_getElem {i : Nat} (found : indexOfColumn schema column = some i)
    (h : i < row.length) : cell schema row column = row[i] := by
  rw [cell, found]
  show (row[i]?).join = _
  rw [List.getElem?_eq_getElem h]
  rfl

theorem cell_getElem (distinct : (schema.map (·.name)).Nodup) {i : Nat} (h : i < schema.length)
    (refers : column.refersTo schema[i] = true) (width : i < row.length) :
    cell schema row column = row[i] :=
  cell_eq_getElem (indexOfColumn_getElem distinct h refers) width

/-- The cells under all names are the row. -/
theorem cells_names (schema : List Column) (row : Row A)
    (distinct : (schema.map (·.name)).Nodup) (width : row.length = schema.length) :
    (schema.map (·.name)).map (fun name => cell schema row ⟨none, name⟩) = row := by
  refine List.ext_getElem (by simp [width]) fun i h inside => ?_
  have bound : i < schema.length := by simpa using h
  rw [List.getElem_map, List.getElem_map]
  exact cell_getElem distinct bound (Column.refersTo_unqualified.mpr rfl) inside

theorem resolvesColumn_name (schema : List Column) (distinct : (schema.map (·.name)).Nodup)
    {name : String} (member : name ∈ schema.map (·.name)) :
    resolvesColumn schema ⟨none, name⟩ = true := by
  have once := List.count_eq_one_of_mem distinct member
  rw [List.count, List.countP_map] at once
  have here : schema.countP (Column.refersTo ⟨none, name⟩) = 1 := once
  simp [resolvesColumn, here]

end Columns

/-! ### The rows of a union by name -/

section Union

variable {names : List String} {name : String}

theorem mem_insertName {other : String} :
    other ∈ insertName names name ↔ other ∈ names ∨ other = name := by
  unfold insertName
  split
  · rename_i member
    exact ⟨Or.inl, fun either => either.elim id fun same => same ▸ member⟩
  · rw [List.mem_append, List.mem_singleton]

theorem nodup_insertName (distinct : names.Nodup) : (insertName names name).Nodup := by
  unfold insertName
  split
  · exact distinct
  · rename_i new
    refine List.nodup_append.mpr ⟨distinct, List.nodup_singleton name, ?_⟩
    intro other member same here equal
    cases List.mem_singleton.mp here
    exact new (equal ▸ member)

theorem mem_foldl_insertName {found : List String} :
    name ∈ names.foldl insertName found ↔ name ∈ found ∨ name ∈ names := by
  induction names generalizing found with
  | nil => simp
  | cons first rest ih => rw [List.foldl_cons, ih, mem_insertName, List.mem_cons, or_assoc]

theorem nodup_foldl_insertName {found : List String} (distinct : found.Nodup) :
    (names.foldl insertName found).Nodup := by
  induction names generalizing found with
  | nil => exact distinct
  | cons first rest ih => exact ih (nodup_insertName distinct)

theorem mem_unionNames {inputs : List (Plan A)} :
    name ∈ unionNames inputs ↔ ∃ input ∈ inputs, name ∈ input.schema.map (·.name) := by
  have general : ∀ found : List String,
      name ∈ inputs.foldl (fun names input => (input.schema.map (·.name)).foldl insertName names)
        found ↔ name ∈ found ∨ ∃ input ∈ inputs, name ∈ input.schema.map (·.name) := by
    induction inputs with
    | nil => simp
    | cons input rest ih =>
      intro found
      rw [List.foldl_cons, ih, mem_foldl_insertName, or_assoc]
      simp
  exact (general []).trans ⟨fun either => either.resolve_left List.not_mem_nil, .inr⟩

theorem nodup_unionNames (inputs : List (Plan A)) : (unionNames inputs).Nodup := by
  have general : ∀ found : List String, found.Nodup →
      (inputs.foldl (fun names input => (input.schema.map (·.name)).foldl insertName names)
        found).Nodup := by
    induction inputs with
    | nil => exact fun found distinct => distinct
    | cons input rest ih => exact fun found distinct => ih _ (nodup_foldl_insertName distinct)
  exact general [] List.nodup_nil

theorem unionNames_congr {inputs outs : List (Plan A)}
    (same : inputs.map Plan.schema = outs.map Plan.schema) :
    unionNames inputs = unionNames outs := by
  have fold : ∀ plans : List (Plan A), unionNames plans =
      (plans.map Plan.schema).foldl
        (fun names schema => (schema.map (·.name)).foldl insertName names) [] := by
    intro plans
    rw [List.foldl_map]
    rfl
  rw [fold, fold, same]

theorem Plan.evalAll_eq [Scalar A] (plans : List (Plan A)) :
    Plan.evalAll plans = (plans.map Plan.eval).sum := by
  induction plans with
  | nil => rfl
  | cons plan rest ih => rw [Plan.evalAll, ih, List.map_cons, List.sum_cons]

theorem Plan.mem_evalAll [Scalar A] {plans : List (Plan A)} {row : Row A} :
    row ∈ Plan.evalAll plans ↔ ∃ plan ∈ plans, row ∈ plan.eval := by
  induction plans with
  | nil => simp [Plan.evalAll]
  | cons plan rest ih => simp [Plan.evalAll, ih]

theorem Plan.resolvesAll_iff {plans : List (Plan A)} :
    Plan.resolvesAll plans = true ↔ ∀ plan ∈ plans, plan.resolves = true := by
  induction plans with
  | nil => simp [Plan.resolvesAll]
  | cons plan rest ih => simp [Plan.resolvesAll, ih]

@[simp] theorem schema_unionWithSchema (inputs : List (Plan A)) (schema : List Column) :
    (unionWithSchema inputs schema).schema = schema := by
  simp [unionWithSchema, Plan.schema, Expr.toColumn, Function.comp_def]

/-- The cell of an input that comes under a name of the union. -/
def linedUp (schema : List Column) (row : Row A) (name : String) : Option A :=
  if name ∈ schema.map (·.name) then cell schema row ⟨none, name⟩ else none

variable {inputs : List (Plan A)} {schema : List Column}

theorem eval_unionColumn [Scalar A] {input : Plan A} {row : Row A} :
    (unionColumn input name).eval input.schema row = linedUp input.schema row name := by
  unfold unionColumn linedUp
  split <;> rfl

/-- A name is looked up in a row that has a cell for each name. -/
theorem cell_of_names (cells : String → Option A) (member : name ∈ names) :
    cell (names.map (⟨none, ·⟩)) (names.map cells) ⟨none, name⟩ =
      cells name := by
  have refers : ∀ other, Column.refersTo ⟨none, name⟩ ⟨none, other⟩ = (other == name) :=
    fun other => rfl
  have found : ∃ i, indexOfColumn (names.map (⟨none, ·⟩)) ⟨none, name⟩ = some i := by
    refine Option.isSome_iff_exists.mp ?_
    rw [indexOfColumn, List.findIdx?_isSome, List.any_eq_true]
    exact ⟨_, List.mem_map_of_mem member, Column.refersTo_self _⟩
  obtain ⟨i, found⟩ := found
  obtain ⟨inside, here, -⟩ := List.findIdx?_eq_some_iff_getElem.mp found
  have bound : i < names.length := by simpa using inside
  have same : names[i] = name := by simpa [refers] using here
  rw [cell_eq_getElem found (by simpa using bound), List.getElem_map, same]

/-- The rows of a union by name are those of its inputs with their cells lined up. -/
theorem eval_unionWithSchema_linedUp [Scalar A]
    (found : ∀ field ∈ schema, field.name ∈ unionNames inputs) :
    (unionWithSchema inputs schema).eval = (inputs.map fun input => input.eval.map fun row =>
      schema.map fun field => linedUp input.schema row field.name).sum := by
  have union : (unionByName inputs).eval = (inputs.map fun input => input.eval.map fun row =>
      (unionNames inputs).map (linedUp input.schema row)).sum := by
    show Plan.evalAll _ = _
    rw [Plan.evalAll_eq, List.map_map]
    refine congrArg List.sum (List.map_congr_left fun input _ => ?_)
    refine Multiset.map_congr rfl fun row _ => ?_
    rw [List.map_map]
    exact List.map_congr_left fun name _ => eval_unionColumn
  have mapped : ∀ (plans : List (Plan A)) (f : Plan A → Row A → Row A) (g : Row A → Row A),
      ((plans.map fun (plan : Plan A) => plan.eval.map (f plan)).sum).map g =
        (plans.map fun (plan : Plan A) => plan.eval.map fun row => g (f plan row)).sum := by
    intro plans f g
    induction plans with
    | nil => rfl
    | cons plan rest ih =>
      rw [List.map_cons, List.sum_cons, Multiset.map_add, ih, Multiset.map_map, List.map_cons,
        List.sum_cons]
      rfl
  show (unionByName inputs).eval.map _ = _
  rw [union, mapped]
  refine congrArg List.sum (List.map_congr_left fun input _ => ?_)
  refine Multiset.map_congr rfl fun row _ => ?_
  rw [List.map_map]
  exact List.map_congr_left fun field member => cell_of_names _ (found field member)

/-- A union by name can be planned when the names of its inputs are not ambiguous. -/
theorem resolves_unionWithSchema_linedUp
    (found : ∀ field ∈ schema, field.name ∈ unionNames inputs)
    (planned : ∀ input ∈ inputs, input.resolves = true ∧
      ∀ name ∈ input.schema.map (·.name), resolvesColumn input.schema ⟨none, name⟩ = true) :
    (unionWithSchema inputs schema).resolves = true := by
  simp only [unionWithSchema, unionByName, Plan.resolves, Bool.and_eq_true, List.all_eq_true]
  have names : ((unionNames inputs).map fun name => (⟨none, name⟩ : Column)).map (·.name) =
      unionNames inputs := by simp [Function.comp_def]
  constructor
  · intro expr member
    obtain ⟨field, known, rfl⟩ := List.mem_map.mp member
    refine resolvesColumn_name ((unionNames inputs).map (⟨none, ·⟩)) ?_ ?_
    · rw [names]
      exact nodup_unionNames inputs
    · rw [names]
      exact found field known
  · refine Plan.resolvesAll_iff.mpr fun plan member => ?_
    obtain ⟨input, known, rfl⟩ := List.mem_map.mp member
    obtain ⟨below, resolve⟩ := planned input known
    simp only [Plan.resolves, Bool.and_eq_true, List.all_eq_true]
    refine ⟨fun expr here => ?_, below⟩
    obtain ⟨name, -, rfl⟩ := List.mem_map.mp here
    unfold unionColumn
    split
    · rename_i listed
      exact resolve name listed
    · rfl

/-- Names that all inputs have. -/
theorem found_of_same (nonempty : inputs ≠ [])
    (same : ∀ input ∈ inputs, input.schema.map (·.name) = schema.map (·.name)) :
    ∀ field ∈ schema, field.name ∈ unionNames inputs := by
  intro field member
  obtain ⟨first, rest, rfl⟩ := List.exists_cons_of_ne_nil nonempty
  refine mem_unionNames.mpr ⟨first, List.mem_cons_self, ?_⟩
  rw [same first List.mem_cons_self]
  exact List.mem_map_of_mem member

/-- A union by name of inputs that have the names of the schema. -/
theorem eval_unionWithSchema [Scalar A] (nonempty : inputs ≠ [])
    (same : ∀ input ∈ inputs, input.schema.map (·.name) = schema.map (·.name))
    (distinct : (schema.map (·.name)).Nodup)
    (width : ∀ input ∈ inputs, ∀ row ∈ input.eval, row.length = schema.length) :
    (unionWithSchema inputs schema).eval = (inputs.map Plan.eval).sum := by
  rw [eval_unionWithSchema_linedUp (found_of_same nonempty same)]
  refine congrArg List.sum (List.map_congr_left fun input member => ?_)
  refine (Multiset.map_congr rfl fun row here => ?_).trans (Multiset.map_id input.eval)
  have length : input.schema.length = schema.length := by
    simpa using congrArg List.length (same input member)
  refine Eq.trans ?_ (cells_names input.schema row ((same input member).symm ▸ distinct)
    ((width input member row here).trans length.symm))
  rw [same input member, List.map_map]
  refine List.map_congr_left fun field known => if_pos ?_
  rw [same input member]
  exact List.mem_map_of_mem known

theorem resolves_unionWithSchema (nonempty : inputs ≠ [])
    (same : ∀ input ∈ inputs, input.schema.map (·.name) = schema.map (·.name))
    (distinct : (schema.map (·.name)).Nodup) (planned : ∀ input ∈ inputs, input.resolves = true) :
    (unionWithSchema inputs schema).resolves = true :=
  resolves_unionWithSchema_linedUp (found_of_same nonempty same) fun input member =>
    ⟨planned input member, fun _ => resolvesColumn_name _ ((same input member).symm ▸ distinct)⟩

end Union

/-! ### Steps at nodes that are no deltas -/

section Nodes

variable {state : SourceTableState A} {storage : StorageTable A}

/-- The inputs of a union by name are transformed where they stand. -/
theorem Yields.unionWithSchema {inputs outs : List (Plan A)} (schema : List Column)
    (below : List.Forall₂ (fun input out => Yields (deltaTransformDown state storage) input out ∧
      out.schema = input.schema) inputs outs) :
    Yields (deltaTransformDown state storage) (unionWithSchema inputs schema)
      (DeltaQueries.unionWithSchema outs schema) := by
  have schemas : inputs.map Plan.schema = outs.map Plan.schema := by
    induction below with
    | nil => rfl
    | cons first _ ih => rw [List.map_cons, List.map_cons, first.2, ih]
  have names := unionNames_congr schemas
  have wrapped : List.Forall₂ (Yields (deltaTransformDown state storage))
      (inputs.map fun input => .projection ((unionNames inputs).map (unionColumn input)) input)
      (outs.map fun out => .projection ((unionNames inputs).map (unionColumn out)) out) := by
    clear schemas names
    generalize unionNames inputs = all
    induction below with
    | nil => exact .nil
    | @cons input out _ _ first _ ih =>
      refine .cons ?_ ih
      have columns : unionColumn out = unionColumn input := by
        funext name
        rw [unionColumn, unionColumn, first.2]
      show Yields _ _ (Plan.projection (all.map (unionColumn out)) out)
      rw [columns]
      exact Yields.projection _ rfl first.1
  have inner : Yields (deltaTransformDown state storage) (unionByName inputs)
      (.union (outs.map fun out => .projection ((unionNames inputs).map (unionColumn out)) out)
        ((unionNames inputs).map (⟨none, ·⟩))) :=
    .of_step (rfl : deltaTransformDown state storage (unionByName inputs) =
      .ok (unionByName inputs)) wrapped
  rw [names] at inner
  exact Yields.projection _ rfl inner

end Nodes

end IcebergRust.DeltaQueries

import IcebergRust.Spec.Subtraction
import IcebergRust.Table.Assembled
import IcebergRust.Table.SnapshotBounds

/-!
# When partition values can be told apart

The functions of an append that compute with partition values: `bounding_partition_values`,
`select_manifest_partitioned` and `split_datafiles`.  They compare rectangles by the differences of
their bounds, so they need the differences of the values of each column.

* `Rectangle.Legal` is what rectangles over columns are; `expandWithNode_total` and `expand_total`
  keep it.
* `splitDatafiles_total` and `selectManifestPartitioned_total` are the two functions where the
  values of each column are separable.
* `partitions_total_iff` is the statement for a spec, whatever values its fields take.
-/

namespace IcebergRust

open Columnwise Fallible PartitionValue Value

/-- What the differences are taken by, and the operations that rectangles do not go through. -/
class DistanceLibraries where
  others : PartitionValue Value
  distances : Distances

instance [libraries : DistanceLibraries] : ComparisonLibraries :=
  ⟨{ libraries.others with trySub := Value.trySub libraries.distances }⟩

/-! ### Columns -/

/-- The values each column takes. -/
abbrev Columns := List (Value → Prop)

namespace PartitionSpec

/-- The names of the fields. -/
def names (spec : PartitionSpec) : List String := spec.fields.map (·.name)

/-- The columns, where each field takes some values. -/
def columns (spec : PartitionSpec) (takes : PartitionField → Value → Prop) : Columns :=
  spec.fields.map takes

end PartitionSpec

/-- One value for each column. -/
def Over (columns : Columns) (values : List Value) : Prop :=
  List.Forall₂ (fun takes value => takes value) columns values

/-- Of two values of a column the greater one has a difference from the other, if all columns take
values. -/
def Separated (columns : Columns) : Prop :=
  ∀ values, Over columns values →
    ∀ takes ∈ columns, ∀ a b, takes a → takes b → (b.cmp a).isLE → a.Separable b

/-- A tuple with cells of the columns. -/
def TupleOver (names : List String) (columns : Columns) (tuple : Struct Value) : Prop :=
  List.Forall₂ (fun name takes =>
    ∃ cell, tuple.get name = some cell ∧ ∀ value, cell = some value → takes value) names columns

/-- A value between two bounds.  NaN is in no bounds. -/
def Between (low value high : Value) : Prop :=
  value.isNan = true ∨ (low.cmp value).isLE ∧ (value.cmp high).isLE

namespace Rectangle

/-- A rectangle over columns: the unbounded one, or one of their values. -/
def Legal (columns : Columns) (rectangle : Rectangle Value) : Prop :=
  rectangle = .unbounded ∨ Over columns rectangle.min ∧ Over columns rectangle.max ∧
    List.Forall₂ (fun low high => (low.cmp high).isLE) rectangle.min rectangle.max

/-- A position that a rectangle bounds. -/
def Holds (rectangle : Rectangle Value) (position : List Value) : Prop :=
  rectangle = .unbounded ∨ ∀ (i : Nat) low value high, rectangle.min[i]? = some low →
    position[i]? = some value → rectangle.max[i]? = some high → Between low value high

end Rectangle

variable {columns : Columns} {values : List Value}

/-- The value of a column. -/
theorem Over.get (typed : Over columns values) {i : Nat} {takes : Value → Prop}
    (here : columns[i]? = some takes) : ∃ value, values[i]? = some value ∧ takes value :=
  (Observation.forall₂_iff_getElem?.mp typed).2 i takes here

/-- The column of a value. -/
theorem Over.column (typed : Over columns values) {i : Nat} {value : Value}
    (here : values[i]? = some value) : ∃ takes, columns[i]? = some takes ∧ takes value := by
  obtain ⟨inside, -⟩ := List.getElem?_eq_some_iff.mp here
  have column := List.getElem?_eq_getElem (typed.length_eq.symm ▸ inside)
  obtain ⟨other, found, takes⟩ := typed.get column
  cases here.symm.trans found
  exact ⟨_, column, takes⟩

/-- A float has a difference from every value it is comparable with. -/
theorem Value.Separable.symm_of_nan {own other : Value} (separable : own.Separable other)
    (nan : own.isNan = true ∨ other.isNan = true) : other.Separable own := by
  have same := separable.variant
  cases own <;> cases other <;> try (cases same; done)
  case float.float => trivial
  case double.double => trivial
  all_goals exact nan.elim (fun nan => nomatch nan) fun nan => nomatch nan

/-- NaN is separable from the values of its column as well. -/
theorem Separated.of_between (separated : Separated columns) (typed : Over columns values)
    {takes : Value → Prop} (member : takes ∈ columns) {a b : Value} (first : takes a)
    (second : takes b) (order : (b.cmp a).isLE ∨ a.isNan = true ∨ b.isNan = true) :
    a.Separable b := by
  have separated := separated values typed
  rcases order with less | nan
  · exact separated takes member a b first second less
  · rcases Value.isLE_total b a with less | more
    · exact separated takes member a b first second less
    · exact (separated takes member b a second first more).symm_of_nan nan.symm

/-! ### Rectangles -/

section Rectangles

namespace Rectangle

theorem Legal.unbounded : (unbounded : Rectangle Value).Legal columns := .inl rfl

variable {rectangle : Rectangle Value}

theorem Legal.eq_unbounded (legal : rectangle.Legal columns) (empty : rectangle.min.isEmpty = true) :
    rectangle = .unbounded := by
  rcases legal with same | ⟨min, max, -⟩
  · exact same
  · obtain ⟨mins, maxs⟩ := rectangle
    obtain rfl : mins = [] := List.isEmpty_iff.mp empty
    cases min
    cases max
    rfl

theorem Legal.single {position : List Value} (typed : Over columns position) :
    Legal columns ⟨position, position⟩ :=
  .inr ⟨typed, typed, List.forall₂_same.mpr fun _ _ => Std.ReflCmp.isLE_rfl⟩

/-- The rectangle of legal summaries. -/
theorem legal_summaryToRectangle {summaries : List (FieldSummary Value)}
    (typed : List.Forall₂ (fun takes summary => ∀ lower upper, FieldSummary.lowerBound summary =
      some lower → summary.upperBound = some upper → takes lower ∧ takes upper ∧
        (lower.cmp upper).isLE) columns summaries) :
    (summaryToRectangle summaries).Legal columns := by
  rw [summaryToRectangle_eq]
  cases found : summaries.mapM boundsOf with
  | none => exact .unbounded
  | some bounds =>
    refine .inr ?_
    have pairs := mapM_eq_some.mp found
    clear found
    induction typed generalizing bounds with
    | nil =>
      cases pairs
      exact ⟨.nil, .nil, .nil⟩
    | cons here _ ih =>
      cases pairs with
      | cons both rest =>
        obtain ⟨lower, upper⟩ := boundsOf_eq_some.mp both
        obtain ⟨first, second, order⟩ := here _ _ lower upper
        obtain ⟨mins, maxs, ordered⟩ := ih _ rest
        exact ⟨.cons first mins, .cons second maxs, .cons order ordered⟩

variable [DistanceLibraries]

/-- An expansion of a legal rectangle, bounded or not, by lower and upper values of the columns. -/
theorem expandBounds_total {low high : List Value} (legal : rectangle.Legal columns)
    (lows : Over columns low) (highs : Over columns high) :
    ∃ next, (do
        let min ← expandBound .lt rectangle.min low
        let max ← expandBound .gt rectangle.max high
        .ok (⟨min, max⟩ : Rectangle Value)) = .ok next ∧ next.Legal columns ∧
      (next = .unbounded ∨ List.Forall₂ (fun a b => (a.cmp b).isLE) next.min rectangle.min ∧
        List.Forall₂ (fun a b => (b.cmp a).isLE) next.max rectangle.max ∧
        List.Forall₂ (fun a b => (a.cmp b).isLE) next.min low ∧
        List.Forall₂ (fun a b => (b.cmp a).isLE) next.max high) := by
  rcases legal with rfl | ⟨min, max, ordered⟩
  · exact ⟨.unbounded, rfl, .unbounded, .inl rfl⟩
  · obtain ⟨lower, lowerRun, lowerOver, lowerLeft, lowerRight⟩ :=
      @improve_over _ Value.cmp _ _ _ _ min lows
    obtain ⟨upper, upperRun, upperOver, upperLeft, upperRight⟩ :=
      @improve_over _ Value.cmpDown _ _ _ _ max highs
    refine ⟨⟨lower, upper⟩, ?_, .inr ⟨lowerOver, upperOver, ?_⟩,
      .inr ⟨lowerLeft, upperLeft, lowerRight, upperRight⟩⟩
    · rw [expandBound_lt, expandBound_gt, lowerRun, upperRun]
      rfl
    · exact forall₂_isLE_trans lowerLeft (forall₂_isLE_trans ordered upperLeft.flip)

theorem expandWithNode_total {position : List Value} (legal : rectangle.Legal columns)
    (typed : Over columns position) :
    ∃ next, rectangle.expandWithNode position = .ok next ∧ next.Legal columns ∧
      next.Holds position ∧ ∀ other, rectangle.Holds other → next.Holds other := by
  obtain ⟨next, runs, legal', grows⟩ := expandBounds_total legal typed typed
  refine ⟨next, runs, legal', ?_, ?_⟩
  · rcases grows with absorbed | ⟨-, -, below, above⟩
    · exact .inl absorbed
    · refine .inr ?_
      intro i low value high lower here upper
      obtain ⟨_, here', less⟩ := (Observation.forall₂_iff_getElem?.mp below).2 i low lower
      obtain ⟨_, here'', more⟩ := (Observation.forall₂_iff_getElem?.mp above).2 i high upper
      cases here.symm.trans here'
      cases here.symm.trans here''
      exact .inr ⟨less, more⟩
  · rintro other (rfl | holds)
    · cases runs
      exact .inl rfl
    · rcases grows with absorbed | ⟨below, above, -, -⟩
      · exact .inl absorbed
      · refine .inr ?_
        intro i low value high lower here upper
        obtain ⟨min, lower', less⟩ := (Observation.forall₂_iff_getElem?.mp below).2 i low lower
        obtain ⟨max, upper', more⟩ := (Observation.forall₂_iff_getElem?.mp above).2 i high upper
        refine (holds i min value max lower' here upper').imp_right ?_
        rintro ⟨least, greatest⟩
        exact ⟨Std.TransCmp.isLE_trans less least, Std.TransCmp.isLE_trans greatest more⟩

theorem expand_total {other : Rectangle Value} (legal : rectangle.Legal columns)
    (legal' : other.Legal columns) : ∃ next, rectangle.expand other = .ok next ∧
      next.Legal columns := by
  rcases legal' with rfl | ⟨min, max, ordered⟩
  · exact ⟨.unbounded, if_pos (.inr rfl), .unbounded⟩
  · by_cases either : rectangle.min.isEmpty ∨ other.min.isEmpty
    · exact ⟨.unbounded, if_pos either, .unbounded⟩
    · obtain ⟨next, runs, legal'', -⟩ := expandBounds_total legal min max
      exact ⟨next, (if_neg either).trans runs, legal''⟩

end Rectangle

variable {rectangle : Rectangle Value}

/-- A position in a legal rectangle is separable from both of its bounds. -/
theorem Rectangle.Legal.separable (legal : rectangle.Legal columns) (separated : Separated columns)
    {position : List Value} (values : Over columns position) (holds : rectangle.Holds position)
    (bounded : rectangle ≠ .unbounded) :
    List.Forall₂ (fun a b => a.Separable b) position rectangle.min ∧
      List.Forall₂ (fun a b => a.Separable b) rectangle.max position := by
  have between := holds.resolve_left bounded
  obtain ⟨min, max, -⟩ := legal.resolve_left bounded
  constructor
  · refine Observation.forall₂_iff_getElem?.mpr ⟨?_, ?_⟩
    · rw [← values.length_eq, ← min.length_eq]
    · intro i value here
      obtain ⟨takes, column, own⟩ := values.column here
      obtain ⟨low, lower, first⟩ := min.get column
      obtain ⟨high, upper, -⟩ := max.get column
      refine ⟨low, lower, separated.of_between values (List.mem_of_getElem? column) own first ?_⟩
      exact (between i low value high lower here upper).symm.imp (·.1) .inl
  · refine Observation.forall₂_iff_getElem?.mpr ⟨?_, ?_⟩
    · rw [← max.length_eq, ← values.length_eq]
    · intro i high upper
      obtain ⟨takes, column, first⟩ := max.column upper
      obtain ⟨low, lower, -⟩ := min.get column
      obtain ⟨value, here, own⟩ := values.get column
      refine ⟨value, here, separated.of_between values (List.mem_of_getElem? column) first own ?_⟩
      exact (between i low value high lower here upper).symm.imp (·.2) .inr

/-! ### Differences -/

/-- The widths of a legal rectangle are differences. -/
theorem Rectangle.Legal.widths (legal : rectangle.Legal columns) (separated : Separated columns) :
    ∀ pair ∈ rectangle.max.zip rectangle.min, pair.1.Separable pair.2 := by
  rcases legal with rfl | ⟨min, max, ordered⟩
  · exact fun _ absent => nomatch absent
  · have apart := separated _ min
    clear separated
    obtain ⟨mins, maxs⟩ := rectangle
    dsimp only at min max ordered ⊢
    induction min generalizing maxs with
    | nil => exact fun _ absent => by simp at absent
    | @cons takes low columns mins here _ ih =>
      cases max with
      | cons here' rest =>
        cases ordered with
        | cons order orders =>
          rw [List.zip_cons_cons, List.forall_mem_cons]
          refine ⟨apart takes List.mem_cons_self _ _ here' here order, ?_⟩
          have within := fun takes member => apart takes (List.mem_cons_of_mem _ member)
          exact ih within _ rest orders

variable [DistanceLibraries]

theorem trySub_total {a b : Value} (separable : a.Separable b) :
    ∃ difference, PartitionValue.trySub a b = .ok difference :=
  (trySub_iff DistanceLibraries.distances a b).mpr separable

theorem orderOf_eq (a b : Value) : orderOf a b = .ok (a.cmp b) := rfl

theorem cmpWithPriority_total (as bs : List Value) :
    ∃ order, IcebergRust.cmpWithPriority as bs = .ok order := by
  induction as generalizing bs with
  | nil => exact ⟨.eq, rfl⟩
  | cons a as ih =>
    cases bs with
    | nil => exact ⟨.eq, rfl⟩
    | cons b bs =>
      rw [IcebergRust.cmpWithPriority, orderOf_eq, ok_bind]
      cases a.cmp b with
      | lt => exact ⟨.lt, rfl⟩
      | eq => exact ih bs
      | gt => exact ⟨.gt, rfl⟩

theorem trySubAll_total {as bs : List Value}
    (separable : List.Forall₂ (fun a b => a.Separable b) as bs) :
    ∃ differences, trySubAll as bs = .ok differences := by
  induction separable with
  | nil => exact ⟨[], rfl⟩
  | cons here _ ih =>
    obtain ⟨difference, subtracts⟩ := trySub_total here
    obtain ⟨rest, later⟩ := ih
    exact ⟨difference :: rest, by rw [trySubAll, subtracts, later]; rfl⟩

theorem cmpWidths_total {owns others : List (Value × Value)}
    (own : ∀ pair ∈ owns, pair.1.Separable pair.2)
    (other : ∀ pair ∈ others, pair.1.Separable pair.2) :
    ∃ order, Rectangle.cmpWidths owns others = .ok order := by
  induction owns generalizing others with
  | nil => exact ⟨.eq, rfl⟩
  | cons pair owns ih =>
    cases others with
    | nil => exact ⟨.eq, rfl⟩
    | cons pair' others =>
      obtain ⟨width, subtracts⟩ := trySub_total (own pair List.mem_cons_self)
      obtain ⟨width', subtracts'⟩ := trySub_total (other pair' List.mem_cons_self)
      have rest := ih (fun pair member => own pair (List.mem_cons_of_mem _ member))
        fun pair member => other pair (List.mem_cons_of_mem _ member)
      rw [Rectangle.cmpWidths, subtracts, ok_bind, subtracts', ok_bind, orderOf_eq, ok_bind]
      cases width.cmp width' with
      | lt => exact ⟨.lt, rfl⟩
      | eq => exact rest
      | gt => exact ⟨.gt, rfl⟩

theorem Rectangle.cmpWithPriority_total {other : Rectangle Value} (legal : rectangle.Legal columns)
    (legal' : other.Legal columns) (separated : Separated columns) :
    ∃ order, rectangle.cmpWithPriority other = .ok order := by
  unfold Rectangle.cmpWithPriority
  split
  · exact ⟨.gt, rfl⟩
  · exact ⟨.lt, rfl⟩
  · exact cmpWidths_total (legal.widths separated) (legal'.widths separated)

end Rectangles

/-! ### Bounding and splitting -/

section Splitting

variable {names : List String}

/-- One cell of `partition_struct_to_vec`. -/
def readCell (tuple : Struct Value) (name : String) : Except Error (Option Value) :=
  match tuple.get name with
  | some field => .ok field
  | none => .error (.invalidFormat "Partition struct")

theorem partitionStructToVec_eq (tuple : Struct Value) (names : List String) :
    partitionStructToVec tuple names = (names.mapM (readCell tuple)).map (·.mapM id) := by
  have step (read : String → Except Error (Option Value)) (same : read = readCell tuple) :
      (names.mapM read >>= fun fields => Except.ok (fields.mapM id)) =
        (names.mapM (readCell tuple)).map (·.mapM id) := by
    rw [same]
    cases names.mapM (readCell tuple) <;> rfl
  unfold partitionStructToVec
  apply step
  funext name
  unfold readCell
  cases tuple.get name <;> rfl

/-- The position of a tuple: none where one of its cells is null. -/
theorem partitionStructToVec_total {tuple : Struct Value} (typed : TupleOver names columns tuple) :
    ∃ node, partitionStructToVec tuple names = .ok node ∧
      ∀ position, node = some position → Over columns position := by
  have cells : ∃ cells, names.mapM (readCell tuple) = .ok cells ∧
      ∀ position, cells.mapM id = some position → Over columns position := by
    induction typed with
    | nil =>
      refine ⟨[], rfl, ?_⟩
      intro position same
      cases same
      exact .nil
    | cons here _ ih =>
      obtain ⟨cell, found, takes⟩ := here
      obtain ⟨cells, reads, others⟩ := ih
      refine ⟨cell :: cells, ?_, ?_⟩
      · rw [List.mapM_cons, reads, readCell, found]
        rfl
      · intro position same
        have pairs := mapM_eq_some.mp same
        cases pairs with
        | cons first rest => exact .cons (takes _ first) (others _ (mapM_eq_some.mpr rest))
  obtain ⟨cells, reads, typed⟩ := cells
  refine ⟨cells.mapM id, ?_, typed⟩
  rw [partitionStructToVec_eq, reads]
  rfl

/-- A tuple that a rectangle bounds, unless a cell of it is null. -/
def HeldBy (names : List String) (rectangle : Rectangle Value) (tuple : Struct Value) : Prop :=
  ∀ position, partitionStructToVec tuple names = .ok (some position) → rectangle.Holds position

/-- The part of a split and its rectangle. -/
def Parted (names : List String) (columns : Columns) (part : List (ManifestEntry Value))
    (bounds : Option (Rectangle Value)) : Prop :=
  (bounds = none → part = []) ∧ ∀ rectangle, bounds = some rectangle →
    rectangle.Legal columns ∧ ∀ entry ∈ part, HeldBy names rectangle entry.dataFile.partition

variable {bounds : Option (Rectangle Value)} {files : List (ManifestEntry Value)}
  {rect : Rectangle Value} {part : List (ManifestEntry Value)}

/-- An entry added to a part. -/
theorem Parted.add (parted : Parted names columns part bounds) {next : Rectangle Value}
    (legal : next.Legal columns) {entry : ManifestEntry Value}
    (here : HeldBy names next entry.dataFile.partition)
    (keeps : ∀ rectangle, bounds = some rectangle → ∀ position, rectangle.Holds position →
      next.Holds position) : Parted names columns (part ++ [entry]) (some next) := by
  refine ⟨(fun absent => nomatch absent), ?_⟩
  intro rectangle same
  cases same
  refine ⟨legal, ?_⟩
  intro other member
  rcases List.mem_append.mp member with earlier | last
  · cases bounds with
    | none =>
      rw [parted.1 rfl] at earlier
      cases earlier
    | some rectangle =>
      intro position found
      exact keeps rectangle rfl position ((parted.2 rectangle rfl).2 other earlier position found)
  · rw [List.mem_singleton.mp last]
    exact here

/-- What a split is given: entries over the columns that a legal rectangle bounds. -/
structure Splittable (names : List String) (columns : Columns) (files : List (ManifestEntry Value))
    (rect : Rectangle Value) : Prop where
  legal : rect.Legal columns
  typed : ∀ entry ∈ files, TupleOver names columns entry.dataFile.partition
  bounded : ∀ entry ∈ files, HeldBy names rect entry.dataFile.partition

theorem Splittable.unbounded (splittable : Splittable names columns files rect)
    (within : part ⊆ files) : Splittable names columns part .unbounded :=
  ⟨.unbounded, fun entry member => splittable.typed entry (within member),
    fun _ _ _ _ => .inl rfl⟩

theorem Parted.splittable (splittable : Splittable names columns files rect) (within : part ⊆ files)
    (parted : Parted names columns part bounds) :
    Splittable names columns part (bounds.getD .unbounded) := by
  cases bounds with
  | none => exact splittable.unbounded within
  | some rectangle =>
    obtain ⟨legal, bounded⟩ := parted.2 rectangle rfl
    exact ⟨legal, fun entry member => splittable.typed entry (within member), bounded⟩

variable [DistanceLibraries]

/-- A rectangle grown by a position holds it, and what it held before. -/
theorem growRect_total {position : List Value}
    (legal : ∀ rectangle, bounds = some rectangle → rectangle.Legal columns)
    (values : Over columns position) :
    ∃ next, growRect position bounds = .ok next ∧ next.Legal columns ∧ next.Holds position ∧
      ∀ rectangle, bounds = some rectangle → ∀ other, rectangle.Holds other → next.Holds other := by
  cases bounds with
  | none =>
    refine ⟨⟨position, position⟩, rfl, .single values, .inr ?_, fun _ absent => nomatch absent⟩
    intro i low value high lower here upper
    cases lower.symm.trans here
    cases upper.symm.trans here
    exact .inr ⟨Std.ReflCmp.isLE_rfl, Std.ReflCmp.isLE_rfl⟩
  | some rectangle =>
    obtain ⟨next, runs, legal', holds, keeps⟩ :=
      Rectangle.expandWithNode_total (legal rectangle rfl) values
    refine ⟨next, runs, legal', holds, ?_⟩
    intro other same
    cases same
    exact keeps

/-- One step of `bounding_partition_values`. -/
theorem boundingStep_total {file : DataFile Value}
    (legal : ∀ rectangle, bounds = some rectangle → rectangle.Legal columns)
    (typed : TupleOver names columns file.partition) :
    ∃ next, boundingStep names bounds file = .ok (some next) ∧ next.Legal columns ∧
      HeldBy names next file.partition ∧
      ∀ rectangle, bounds = some rectangle → ∀ tuple, HeldBy names rectangle tuple →
        HeldBy names next tuple := by
  obtain ⟨node, reads, position⟩ := partitionStructToVec_total typed
  unfold boundingStep
  rw [reads, ok_bind]
  cases node with
  | none =>
    exact ⟨.unbounded, rfl, .unbounded, fun _ _ => .inl rfl, fun _ _ _ _ _ _ => .inl rfl⟩
  | some node =>
    obtain ⟨next, grows, legal', holds, keeps⟩ := growRect_total legal (position node rfl)
    have here : HeldBy names next file.partition := by
      intro other same
      cases reads.symm.trans same
      exact holds
    have there : ∀ rectangle, bounds = some rectangle → ∀ tuple, HeldBy names rectangle tuple →
        HeldBy names next tuple :=
      fun rectangle same tuple bounded other found =>
        keeps rectangle same other (bounded other found)
    cases bounds with
    | none =>
      cases grows
      exact ⟨_, rfl, legal', here, there⟩
    | some rectangle =>
      have runs : (rectangle.expandWithNode node).map some = .ok (some next) := by
        rw [show rectangle.expandWithNode node = .ok next from grows]
        rfl
      dsimp only
      by_cases empty : rectangle.min.isEmpty = true
      · -- The unbounded rectangle is left as it is, which is what growing makes of it.
        obtain rfl := (legal rectangle rfl).eq_unbounded empty
        exact ⟨next, runs, legal', here, there⟩
      · rw [if_neg empty]
        exact ⟨next, runs, legal', here, there⟩

/-- What the loop has found of the files so far. -/
def Gathered (names : List String) (columns : Columns) (done : List (DataFile Value))
    (bounds : Option (Rectangle Value)) : Prop :=
  (bounds = none → done = []) ∧ ∀ rectangle, bounds = some rectangle →
    rectangle.Legal columns ∧ ∀ file ∈ done, HeldBy names rectangle file.partition

/-- `bounding_partition_values` of files over the columns. -/
theorem boundingPartitionValues_total {files : List (DataFile Value)} (some' : files ≠ [])
    (typed : ∀ file ∈ files, TupleOver names columns file.partition) :
    ∃ bounding, boundingPartitionValues files names = .ok bounding ∧ bounding.Legal columns ∧
      ∀ file ∈ files, HeldBy names bounding file.partition := by
  have run : ∃ bounds, files.foldlM (boundingStep names) none = .ok bounds ∧
      Gathered names columns files bounds := by
    refine foldlM_prefix_total (Gathered names columns) ?_
      ⟨fun _ => rfl, fun _ absent => nomatch absent⟩
    intro done file rest bounds whole noted
    have member : file ∈ files := whole ▸ List.mem_append_right _ List.mem_cons_self
    obtain ⟨next, runs, legal, here, keeps⟩ := boundingStep_total
      (fun rectangle same => (noted.2 rectangle same).1) (typed file member)
    refine ⟨some next, runs, (fun absent => nomatch absent), ?_⟩
    intro rectangle same
    cases same
    refine ⟨legal, ?_⟩
    intro other there
    rcases List.mem_append.mp there with earlier | last
    · cases bounds with
      | none =>
        rw [noted.1 rfl] at earlier
        cases earlier
      | some rectangle => exact keeps rectangle rfl _ ((noted.2 rectangle rfl).2 other earlier)
    · rw [List.mem_singleton.mp last]
      exact here
  obtain ⟨bounds, folds, noted⟩ := run
  cases bounds with
  | none => exact absurd (noted.1 rfl) some'
  | some bounding =>
    refine ⟨bounding, ?_, noted.2 bounding rfl⟩
    unfold boundingPartitionValues
    rw [folds]
    rfl

/-! ### One split -/

/-- One entry of a split. -/
theorem splitStep_total (separated : Separated columns) (legal : rect.Legal columns)
    (bounded : rect ≠ .unbounded) {halves : Halves Value}
    (smaller : Parted names columns halves.smaller halves.smallerRect)
    (larger : Parted names columns halves.larger halves.largerRect) {entry : ManifestEntry Value}
    (typed : TupleOver names columns entry.dataFile.partition)
    (holds : HeldBy names rect entry.dataFile.partition) :
    ∃ next, splitStep rect names halves entry = .ok next ∧
      Parted names columns next.smaller next.smallerRect ∧
      Parted names columns next.larger next.largerRect := by
  obtain ⟨node, reads, position⟩ := partitionStructToVec_total typed
  unfold splitStep
  rw [reads, ok_bind]
  cases node with
  | none =>
    refine ⟨_, rfl, ?_, larger⟩
    exact smaller.add .unbounded (fun _ _ => .inl rfl) fun _ _ _ _ => .inl rfl
  | some node =>
    have values := position node rfl
    obtain ⟨lower, upper⟩ := legal.separable separated values (holds node reads) bounded
    obtain ⟨fromLower, first⟩ := trySubAll_total lower
    obtain ⟨toUpper, second⟩ := trySubAll_total upper
    obtain ⟨order, compares⟩ := cmpWithPriority_total fromLower toUpper
    have own {next : Rectangle Value} (here : next.Holds node) :
        HeldBy names next entry.dataFile.partition := by
      intro other same
      cases reads.symm.trans same
      exact here
    obtain ⟨left, growsLeft, legalLeft, holdsLeft, keepsLeft⟩ :=
      growRect_total (fun rectangle same => (smaller.2 rectangle same).1) values
    obtain ⟨right, growsRight, legalRight, holdsRight, keepsRight⟩ :=
      growRect_total (fun rectangle same => (larger.2 rectangle same).1) values
    dsimp only
    rw [first, ok_bind, second, ok_bind, compares, ok_bind]
    cases order with
    | gt =>
      refine ⟨{ halves with larger := halves.larger ++ [entry], largerRect := some right },
        by rw [growsRight]; rfl, smaller, ?_⟩
      exact larger.add legalRight (own holdsRight) keepsRight
    | lt =>
      refine ⟨{ halves with smaller := halves.smaller ++ [entry], smallerRect := some left },
        by rw [growsLeft]; rfl, ?_, larger⟩
      exact smaller.add legalLeft (own holdsLeft) keepsLeft
    | eq =>
      refine ⟨{ halves with smaller := halves.smaller ++ [entry], smallerRect := some left },
        by rw [growsLeft]; rfl, ?_, larger⟩
      exact smaller.add legalLeft (own holdsLeft) keepsLeft

/-- `split_datafiles_once`: both halves can be split again. -/
theorem splitDatafilesOnce_total (separated : Separated columns)
    (splittable : Splittable names columns files rect) :
    ∃ smaller larger, splitDatafilesOnce files rect names = .ok (smaller, larger) ∧
      Splittable names columns smaller.1 smaller.2 ∧
      Splittable names columns larger.1 larger.2 := by
  obtain ⟨order, compares⟩ := cmpWithPriority_total rect.min rect.max
  have middle : order = .eq → ∃ smaller larger,
      splitDatafilesOnce files rect names = .ok (smaller, larger) ∧
      Splittable names columns smaller.1 smaller.2 ∧
      Splittable names columns larger.1 larger.2 := by
    rintro rfl
    refine ⟨_, _, by unfold splitDatafilesOnce; rw [compares]; rfl, ?_, ?_⟩
    · exact splittable.unbounded (List.take_subset _ _)
    · exact splittable.unbounded (List.drop_subset _ _)
  by_cases degenerate : order = .eq
  · exact middle degenerate
  · have bounded : rect ≠ .unbounded := by
      rintro rfl
      cases compares
      exact degenerate rfl
    have empty : Parted names columns [] none := ⟨fun _ => rfl, fun _ absent => nomatch absent⟩
    have runs : ∃ halves, files.foldlM (splitStep rect names) ⟨[], none, [], none⟩ = .ok halves ∧
        Parted names columns halves.smaller halves.smallerRect ∧
        Parted names columns halves.larger halves.largerRect := by
      refine foldlM_total (fun halves : Halves Value =>
        Parted names columns halves.smaller halves.smallerRect ∧
          Parted names columns halves.larger halves.largerRect) ?_ ⟨empty, empty⟩
      intro entry member halves here
      exact splitStep_total separated splittable.legal bounded here.1 here.2
        (splittable.typed entry member) (splittable.bounded entry member)
    obtain ⟨halves, folds, smaller, larger⟩ := runs
    have once : splitDatafilesOnce files rect names =
        .ok ((halves.smaller, halves.smallerRect.getD .unbounded),
          (halves.larger, halves.largerRect.getD .unbounded)) := by
      unfold splitDatafilesOnce
      rw [compares, ok_bind]
      cases order with
      | eq => exact absurd rfl degenerate
      | lt =>
        dsimp only
        rw [folds]
        rfl
      | gt =>
        dsimp only
        rw [folds]
        rfl
    have within := (ManifestListWriter.splitDatafilesOnce_perm once).subset
    refine ⟨_, _, once, ?_, ?_⟩
    · exact smaller.splittable splittable fun entry member =>
        within (List.mem_append_left _ member)
    · exact larger.splittable splittable fun entry member =>
        within (List.mem_append_right _ member)

/-- `split_datafiles`. -/
theorem splitDatafiles_total (separated : Separated columns)
    (splittable : Splittable names columns files rect) {n : Nat} (some' : n ≠ 0) :
    ∃ parts, splitDatafiles files rect names n = .ok parts := by
  induction n generalizing files rect with
  | zero => exact absurd rfl some'
  | succ n ih =>
    obtain ⟨smaller, larger, once, left, right⟩ := splitDatafilesOnce_total separated splittable
    unfold splitDatafiles
    rw [once, ok_bind]
    dsimp only
    by_cases last : n = 0
    · rw [if_pos last]
      exact ⟨_, rfl⟩
    · rw [if_neg last]
      obtain ⟨first, firstRun⟩ := ih left last
      obtain ⟨second, secondRun⟩ := ih right last
      exact ⟨first ++ second, by rw [firstRun, secondRun]; rfl⟩

end Splitting

/-! ### Selecting -/

section Selecting

/-- A manifest whose summaries are of the columns. -/
def Summarized (columns : Columns) (row : ManifestListEntry Value) : Prop :=
  ∃ summaries, row.partitions = some summaries ∧
    List.Forall₂ (fun takes summary => ∀ lower upper, FieldSummary.lowerBound summary =
      some lower → summary.upperBound = some upper → takes lower ∧ takes upper ∧
        (lower.cmp upper).isLE) columns summaries

/-- Rows that can be written to a list in any order. -/
def Copyable (output : ListOutput Value) (rows : List (ManifestListEntry Value)) : Prop :=
  ∀ copied : List (ManifestListEntry Value), copied.Subperm rows →
    ∃ after, copied.foldlM appendManifest output = .ok after

variable {output : ListOutput Value} {rows : List (ManifestListEntry Value)}
  {row : ManifestListEntry Value}

theorem Copyable.emit (copyable : Copyable output rows) {copied : List (ManifestListEntry Value)}
    {written : ListOutput Value} (copies : copied.foldlM appendManifest output = .ok written)
    (within : (copied ++ [row]).Subperm rows) :
    ∃ after, appendManifest written row = .ok after ∧
      (copied ++ [row]).foldlM appendManifest output = .ok after := by
  obtain ⟨after, all⟩ := copyable _ within
  have last := all
  rw [List.foldlM_append, copies, ok_bind] at last
  obtain ⟨next, appends, rest⟩ := foldlM_cons_eq_ok.mp last
  cases foldlM_nil_eq_ok.mp rest
  exact ⟨after, appends, all⟩

/-- The rows of a candidate. -/
def candidateRow {κ : Type} (candidate : Option (κ × ManifestListEntry Value)) :
    List (ManifestListEntry Value) :=
  (candidate.map (·.2)).toList

variable [DistanceLibraries] {bounding : Rectangle Value}

theorem expandedBounds_total (legal : bounding.Legal columns) (summarized : Summarized columns row) :
    ∃ key, expandedBounds bounding row = .ok key ∧ key.Legal columns := by
  obtain ⟨summaries, there, typed⟩ := summarized
  unfold expandedBounds
  rw [there]
  exact Rectangle.expand_total (Rectangle.legal_summaryToRectangle typed) legal

theorem chooseByBounds_total (separated : Separated columns) {selected bounds : Rectangle Value}
    (legal : selected.Legal columns) (legal' : bounds.Legal columns) :
    chooseByBounds selected bounds = .ok .keep ∨ chooseByBounds selected bounds = .ok .replace := by
  obtain ⟨order, compares⟩ := Rectangle.cmpWithPriority_total legal legal' separated
  unfold chooseByBounds
  rw [compares, ok_bind]
  cases order with
  | gt => exact .inr rfl
  | lt => exact .inl rfl
  | eq => exact .inl rfl

/-- A compatible row competes with the candidate, and one of them is copied. -/
theorem offer_total (separated : Separated columns) (copyable : Copyable output rows)
    {copied : List (ManifestListEntry Value)} {written : ListOutput Value}
    (copies : copied.foldlM appendManifest output = .ok written)
    {candidate : Option (Rectangle Value × ManifestListEntry Value)}
    (legal : ∀ selected, candidate = some selected → selected.1.Legal columns)
    {key : Rectangle Value} (legal' : key.Legal columns)
    (within : (copied ++ row :: candidateRow candidate).Subperm rows) :
    ∃ copied' written' candidate',
      offer appendManifest chooseByBounds (written, candidate) key row =
        .ok (written', candidate') ∧
      copied'.foldlM appendManifest output = .ok written' ∧
      (copied' ++ candidateRow candidate').Perm (copied ++ row :: candidateRow candidate) ∧
      ∀ selected, candidate' = some selected → selected.1.Legal columns := by
  cases candidate with
  | none =>
    refine ⟨copied, written, some (key, row), rfl, copies, .refl _, ?_⟩
    intro selected same
    cases same
    exact legal'
  | some selected =>
    obtain ⟨selectedKey, selected⟩ := selected
    have own := legal _ rfl
    rcases chooseByBounds_total separated own legal' with keep | replace
    · have fits : (copied ++ [row]).Subperm rows := by
        refine .trans (List.Sublist.subperm ?_) within
        exact List.Sublist.append_left (List.Sublist.cons_cons _ (List.nil_sublist _)) _
      obtain ⟨after, appends, all⟩ := copyable.emit copies fits
      refine ⟨copied ++ [row], after, some (selectedKey, selected), ?_, all, ?_, legal⟩
      · unfold offer
        dsimp only
        rw [keep, ok_bind]
        dsimp only
        rw [appends]
        rfl
      · rw [List.append_assoc]
        exact .refl _
    · have swapped : (copied ++ [selected] ++ [row]).Perm (copied ++ row :: [selected]) := by
        rw [List.append_assoc]
        exact (List.Perm.swap row selected []).append_left copied
      have fits : (copied ++ [selected]).Subperm rows := by
        refine .trans (List.Sublist.subperm (List.sublist_append_left _ [row])) ?_
        exact swapped.subperm.trans within
      obtain ⟨after, appends, all⟩ := copyable.emit copies fits
      refine ⟨copied ++ [selected], after, some (key, row), ?_, all, swapped, ?_⟩
      · unfold offer
        dsimp only
        rw [replace, ok_bind]
        dsimp only
        rw [appends]
        rfl
      · intro other same
        cases same
        exact legal'

/-- The pass over some rows: what has been copied and the candidates are these rows. -/
def Passed (columns : Columns) (output : ListOutput Value) (done : List (ManifestListEntry Value))
    (state : SelectState Value (Rectangle Value)) : Prop :=
  ∃ copied, copied.foldlM appendManifest output = .ok state.output ∧
    (copied ++ (candidateRow state.data ++ candidateRow state.deletes)).Perm done ∧
    (∀ selected, state.data = some selected → selected.1.Legal columns) ∧
    ∀ selected, state.deletes = some selected → selected.1.Legal columns

/-- One row of the pass. -/
theorem selectStep_total (separated : Separated columns) (copyable : Copyable output rows)
    (legal : bounding.Legal columns) {allows : ManifestListEntry Value → Bool}
    {done : List (ManifestListEntry Value)} (within : (row :: done).Subperm rows)
    (summarized : allows row = true → Summarized columns row)
    {state : SelectState Value (Rectangle Value)} (passed : Passed columns output done state) :
    ∃ next, selectStep allows (expandedBounds bounding) chooseByBounds state row = .ok next ∧
      Passed columns output (row :: done) next := by
  obtain ⟨copied, copies, rearranged, data, deletes⟩ := passed
  have here : (copied ++ row :: (candidateRow state.data ++ candidateRow state.deletes)).Perm
      (row :: done) := List.perm_middle.trans (rearranged.cons row)
  unfold selectStep
  dsimp only
  cases compatible : allows row with
  | false =>
    have fits : (copied ++ [row]).Subperm rows := by
      refine .trans (List.Sublist.subperm ?_) (here.subperm.trans within)
      exact List.Sublist.append_left (List.Sublist.cons_cons _ (List.nil_sublist _)) _
    obtain ⟨after, appends, all⟩ := copyable.emit copies fits
    refine ⟨{ state with
      output := after, fileCountAllEntries := countFiles state.fileCountAllEntries row }, ?_,
      copied ++ [row], all, ?_, data, deletes⟩
    · rw [if_neg (by decide), appends]
      rfl
    · rw [List.append_assoc]
      exact here
  | true =>
    obtain ⟨key, bounds, legal'⟩ := expandedBounds_total legal (summarized compatible)
    rw [if_pos rfl, bounds, ok_bind]
    cases row.content with
    | data =>
      have fits : (copied ++ row :: candidateRow state.data).Subperm rows := by
        refine .trans (List.Sublist.subperm ?_) (here.subperm.trans within)
        exact List.Sublist.append_left (List.Sublist.cons_cons _ (List.sublist_append_left _ _)) _
      obtain ⟨copied', written, candidate, offers, copies', moved, legals⟩ :=
        offer_total separated copyable copies data legal' fits
      dsimp only
      rw [offers]
      refine ⟨_, rfl, copied', copies', ?_, legals, deletes⟩
      dsimp only
      rw [← List.append_assoc]
      refine (moved.append_right _).trans ?_
      rw [List.append_assoc, List.cons_append]
      exact here
    | deletes =>
      have fits : (copied ++ row :: candidateRow state.deletes).Subperm rows := by
        refine .trans (List.Sublist.subperm ?_) (here.subperm.trans within)
        exact List.Sublist.append_left (List.Sublist.cons_cons _ (List.sublist_append_right _ _)) _
      obtain ⟨copied', written, candidate, offers, copies', moved, legals⟩ :=
        offer_total separated copyable copies deletes legal' fits
      dsimp only
      rw [offers]
      refine ⟨_, rfl, copied', copies', ?_, data, legals⟩
      dsimp only
      have apart := (moved.append_right (candidateRow state.data)).trans
        (List.Perm.of_eq (by rw [List.append_assoc, List.cons_append]))
      refine (List.perm_append_comm.append_left copied').trans ?_
      rw [← List.append_assoc]
      exact (apart.trans ((List.perm_append_comm.cons row).append_left copied)).trans here

/-- `select_manifest_partitioned`. -/
theorem selectManifestPartitioned_total (separated : Separated columns) {metadata : TableMetadata}
    {types : List IcebergType} (typing : rewritePartitionTypes metadata = .ok types)
    (copyable : Copyable output rows) (legal : bounding.Legal columns)
    (summarized : ∀ row ∈ rows, rewriteAllows metadata types row = true → Summarized columns row) :
    ∃ selected, selectManifestPartitioned rows output bounding metadata = .ok selected := by
  have runs : ∃ final, rows.foldlM (selectStep (rewriteAllows metadata types)
        (expandedBounds bounding) chooseByBounds) ⟨output, none, none, 0⟩ = .ok final ∧
      Passed columns output rows.reverse final := by
    refine foldlM_prefix_total (fun done state => Passed columns output done.reverse state) ?_ ?_
    · intro done row rest state whole passed
      have within : (row :: done.reverse).Subperm rows := by
        have back := List.reverse_perm (done ++ [row])
        rw [List.reverse_append, List.reverse_singleton, List.singleton_append] at back
        refine back.subperm.trans (List.Sublist.subperm ?_)
        rw [whole, List.append_cons done row rest]
        exact List.sublist_append_left _ _
      rw [List.reverse_append]
      exact selectStep_total separated copyable legal within
        (summarized row (whole ▸ List.mem_append_right _ List.mem_cons_self)) passed
    · exact ⟨[], rfl, .nil, (fun _ absent => nomatch absent), fun _ absent => nomatch absent⟩
  obtain ⟨final, folds, -⟩ := runs
  unfold selectManifestPartitioned selectManifest
  rw [typing, ok_bind, folds]
  exact ⟨_, rfl⟩

end Selecting

/-! ### Every spec -/

section Specs

theorem exists_over :
    (∃ values, Over columns values) ↔ ∀ takes ∈ columns, ∃ value, takes value := by
  constructor
  · rintro ⟨values, typed⟩ takes member
    obtain ⟨i, here⟩ := List.mem_iff_getElem?.mp member
    obtain ⟨value, -, own⟩ := typed.get here
    exact ⟨value, own⟩
  · intro takes
    induction columns with
    | nil => exact ⟨[], .nil⟩
    | cons first columns ih =>
      obtain ⟨value, own⟩ := takes first List.mem_cons_self
      obtain ⟨values, typed⟩ := ih fun takes' member => takes takes' (List.mem_cons_of_mem _ member)
      exact ⟨value :: values, .cons own typed⟩

variable {spec : PartitionSpec}

theorem separated_columns {takes : PartitionField → Value → Prop} :
    Separated (spec.columns takes) ↔
      ((∀ field ∈ spec.fields, ∃ value, takes field value) →
        ∀ field ∈ spec.fields, ∀ a b, takes field a → takes field b → (b.cmp a).isLE →
          a.Separable b) := by
  have values : (∃ values, Over (spec.columns takes) values) ↔
      ∀ field ∈ spec.fields, ∃ value, takes field value :=
    exists_over.trans List.forall_mem_map
  rw [← values, ← List.forall_mem_map (P := fun takes' : Value → Prop =>
    ∀ a b, takes' a → takes' b → (b.cmp a).isLE → a.Separable b)]
  exact ⟨fun separated ⟨filled, typed⟩ => separated filled typed,
    fun separated filled typed => separated ⟨filled, typed⟩⟩

/-- Bounds of all columns, given those of one. -/
theorem Over.exists_pairs {columns : Columns} {values : List Value} (typed : Over columns values)
    {takes : Value → Prop} (member : takes ∈ columns) {low high : Value} (first : takes low)
    (second : takes high) (order : (low.cmp high).isLE) : ∃ pairs : List (Value × Value),
      List.Forall₂ (fun takes pair => takes pair.1 ∧ takes pair.2 ∧ (pair.1.cmp pair.2).isLE)
        columns pairs ∧ (low, high) ∈ pairs := by
  have others {columns : Columns} {values : List Value} (typed : Over columns values) :
      List.Forall₂ (fun takes (pair : Value × Value) =>
        takes pair.1 ∧ takes pair.2 ∧ (pair.1.cmp pair.2).isLE) columns
        (values.map fun value => (value, value)) :=
    List.forall₂_map_right_iff.mpr (typed.imp fun _ _ own => ⟨own, own, Std.ReflCmp.isLE_rfl⟩)
  induction typed with
  | nil => cases member
  | @cons own value columns values here rest ih =>
    rcases List.mem_cons.mp member with rfl | later
    · exact ⟨(low, high) :: _, .cons ⟨first, second, order⟩ (others rest), List.mem_cons_self⟩
    · obtain ⟨pairs, inside, found⟩ := ih later
      exact ⟨(value, value) :: pairs, .cons ⟨here, here, Std.ReflCmp.isLE_rfl⟩ inside,
        List.mem_cons_of_mem _ found⟩

/-- The summary of two bounds. -/
def boundsSummary (pair : Value × Value) : FieldSummary Value :=
  ⟨false, none, some pair.1, some pair.2⟩

theorem summaryToRectangle_bounds (pairs : List (Value × Value)) :
    summaryToRectangle (pairs.map boundsSummary) = ⟨pairs.map (·.1), pairs.map (·.2)⟩ := by
  have read : (pairs.map boundsSummary).mapM boundsOf = some pairs :=
    mapM_eq_some.mpr (List.forall₂_map_left_iff.mpr (List.forall₂_same.mpr fun _ _ => rfl))
  rw [summaryToRectangle_eq, read]

/-- A table whose schema the manifests of its one spec are written under. -/
def specTable (schema : Schema) (spec : PartitionSpec) : TableMetadata :=
  { longTable .v1 with
    schemas := AList.singleton 0 schema
    partitionSpecs := AList.singleton 0 spec
    snapshots := AList.singleton 1 { listedSnapshot with schemaId := some 0 } }

theorem specTable_allows {schema : Schema} {types : List IcebergType}
    (typed : spec.dataTypes schema.fields = .ok types)
    (partitions : Option (List (FieldSummary Value))) :
    rewriteAllows (specTable schema spec) types (listedManifest "a.avro" 0 partitions) = true := by
  have same : rewriteAllows (specTable schema spec) types (listedManifest "a.avro" 0 partitions) =
      decide ((spec.dataTypes schema.fields).toOption = some types) := rfl
  rw [same, typed]
  exact decide_eq_true rfl

theorem copyable_first (rows : List (ManifestListEntry Value)) :
    Copyable (.start .v1 none) rows := by
  intro copied _
  have runs : ∃ after, copied.foldlM appendManifest (ListOutput.start .v1 none) = .ok after ∧
      after.writer.formatVersion = .v1 := by
    refine foldlM_total (fun output : ListOutput Value => output.writer.formatVersion = .v1) ?_ rfl
    rintro row - ⟨⟨version, written⟩, assigner⟩ rfl
    exact ⟨_, rfl, rfl⟩
  obtain ⟨after, copies, -⟩ := runs
  exact ⟨after, copies⟩

variable [DistanceLibraries]

/-- An append computes with all partition values of a spec, in any table of this default spec. -/
structure PartitionsTotal (spec : PartitionSpec) (takes : PartitionField → Value → Prop) :
    Prop where
  bounds : ∀ files : List (DataFile Value), files ≠ [] →
    (∀ file ∈ files, TupleOver spec.names (spec.columns takes) file.partition) →
    ∃ bounding, boundingPartitionValues files spec.names = .ok bounding ∧
      bounding.Legal (spec.columns takes) ∧
      ∀ file ∈ files, HeldBy spec.names bounding file.partition
  selects : ∀ (metadata : TableMetadata) (types : List IcebergType)
    (rows : List (ManifestListEntry Value)) (output : ListOutput Value)
    (bounding : Rectangle Value), metadata.defaultPartitionSpec = .ok spec →
    rewritePartitionTypes metadata = .ok types → Copyable output rows →
    (∀ row ∈ rows, rewriteAllows metadata types row = true →
      Summarized (spec.columns takes) row) → bounding.Legal (spec.columns takes) →
    ∃ selected, selectManifestPartitioned rows output bounding metadata = .ok selected
  splits : ∀ (files : List (ManifestEntry Value)) (rect : Rectangle Value) (n : Nat),
    Splittable spec.names (spec.columns takes) files rect → n ≠ 0 →
    ∃ parts, splitDatafiles files rect spec.names n = .ok parts

theorem Rectangle.expand_self {rectangle : Rectangle Value} (bounded : rectangle.min ≠ []) :
    rectangle.expand rectangle = .ok rectangle := by
  have runs : rectangle.expand rectangle = (do
      let min ← expandBound .lt rectangle.min rectangle.min
      let max ← expandBound .gt rectangle.max rectangle.max
      .ok (⟨min, max⟩ : Rectangle Value)) := if_neg (by simp [bounded])
  rw [runs, expandBound_lt, expandBound_gt, improve_self, improve_self]
  rfl

/-- A rectangle compared with itself: all of its widths are taken. -/
theorem trySub_of_cmpWidths {pairs : List (Value × Value)} {order : Ordering}
    (run : Rectangle.cmpWidths pairs pairs = .ok order) :
    ∀ pair ∈ pairs, ∃ difference, PartitionValue.trySub pair.1 pair.2 = .ok difference := by
  induction pairs with
  | nil => exact fun _ absent => nomatch absent
  | cons pair pairs ih =>
    obtain ⟨width, subtracts, run⟩ := bind_eq_ok.mp run
    rw [subtracts, ok_bind, orderOf_eq, ok_bind, @Std.ReflCmp.compare_self _ Value.cmp] at run
    intro other member
    rcases List.mem_cons.mp member with rfl | later
    · exact ⟨width, subtracts⟩
    · exact ih run other later

/-- Two equal rows are compared by the widths of their rectangle. -/
theorem selects_widths {schema : Schema} {types : List IcebergType}
    (typed : spec.dataTypes schema.fields = .ok types) {pairs : List (Value × Value)}
    (inside : pairs ≠ []) {selected : SelectedManifest Value} (run : selectManifestPartitioned
      [listedManifest "a.avro" 0 (some (pairs.map boundsSummary)),
        listedManifest "a.avro" 0 (some (pairs.map boundsSummary))]
      (.start .v1 none) ⟨pairs.map (·.1), pairs.map (·.2)⟩ (specTable schema spec) = .ok selected) :
    ∀ pair ∈ pairs, ∃ difference, PartitionValue.trySub pair.2 pair.1 = .ok difference := by
  set rectangle : Rectangle Value := ⟨pairs.map (·.1), pairs.map (·.2)⟩ with rectangle_eq
  set row : ManifestListEntry Value :=
    listedManifest "a.avro" 0 (some (pairs.map boundsSummary)) with row_eq
  have bounds : expandedBounds rectangle row = .ok rectangle := by
    have read : expandedBounds rectangle row =
      (summaryToRectangle (pairs.map boundsSummary)).expand rectangle := rfl
    rw [read, summaryToRectangle_bounds]
    exact Rectangle.expand_self (by simpa [rectangle_eq] using inside)
  have allowed := specTable_allows typed (some (pairs.map boundsSummary))
  have typing : rewritePartitionTypes (specTable schema spec) = .ok types := typed
  let started : SelectState Value (Rectangle Value) := ⟨.start .v1 none, none, none, 0⟩
  let offered : SelectState Value (Rectangle Value) :=
    ⟨.start .v1 none, some (rectangle, row), none, countFiles 0 row⟩
  have first : selectStep (rewriteAllows (specTable schema spec) types) (expandedBounds rectangle)
      chooseByBounds started row = .ok offered := by
    unfold selectStep
    dsimp only
    rw [if_pos allowed, bounds]
    rfl
  unfold selectManifestPartitioned selectManifest at run
  rw [typing, ok_bind, List.foldlM_cons] at run
  obtain ⟨final, run, -⟩ := bind_eq_ok.mp run
  obtain ⟨state, run, rest⟩ := bind_eq_ok.mp run
  obtain ⟨next, second, -⟩ := foldlM_cons_eq_ok.mp rest
  cases first.symm.trans run
  unfold selectStep at second
  dsimp only at second
  rw [if_pos allowed, bounds, ok_bind] at second
  obtain ⟨_, offers, -⟩ := bind_eq_ok.mp second
  obtain ⟨_, chooses, -⟩ := bind_eq_ok.mp offers
  obtain ⟨order, compares, -⟩ := bind_eq_ok.mp chooses
  have widths : rectangle.cmpWithPriority rectangle = Rectangle.cmpWidths
      (rectangle.max.zip rectangle.min) (rectangle.max.zip rectangle.min) := by
    unfold Rectangle.cmpWithPriority
    cases rectangle.min.isEmpty <;> rfl
  intro pair member
  refine trySub_of_cmpWidths (widths.symm.trans compares) (pair.2, pair.1) ?_
  rw [rectangle_eq, List.zip_map']
  exact List.mem_map_of_mem member

end Specs

/-! ### Runs -/

/-- Libraries of columns without floats and without strings. -/
@[reducible] def plainDistances : DistanceLibraries where
  others := { plainLibraries.others with
    decodeBound := Value.decodeBound fun text => .error (.uuid text) }
  distances := ⟨fun own _ => own, fun own _ => own, fun _ => 0⟩

/-- The spec that partitions a column into 16 buckets. -/
def bucketSpec : PartitionSpec := ⟨0, [⟨1, 1000, "x_bucket", .bucket 16⟩]⟩

end IcebergRust

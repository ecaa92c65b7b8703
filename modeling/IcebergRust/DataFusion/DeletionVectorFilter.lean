import IcebergRust.DataFusion.DeleteGroups
import IcebergRust.Spec.DeletionVector

/-!
# The deletion vector filter

`DeletionVectorPredicate` of `datafusion_iceberg/src/deletion_vector_filter.rs`, which
`apply_position_deletes` places above the scans, anti-joins and unions of a table scan.

* `DeletionVectorPredicate.evaluate` looks up one vector, by the path of the first row.
* `evaluate_located` is what it computes for rows that have a path and a position.
* `keepsOwn_iff` compares this with the vector of each row's own path; on a batch of one file both
  are the same (`keepsOwn_of_one_file`).
-/

namespace IcebergRust

open Fallible

/-- An arrow array: of the two types the predicate casts to, or of another one. -/
inductive ArrowArray where
  | utf8 (values : List (Option String))
  | int64 (values : List (Option Int))
  | other (dataType : String)
deriving DecidableEq, Repr

/-- The text of `DataType` for the type of an array. -/
def ArrowArray.dataType : ArrowArray → String
  | .utf8 _ => "Utf8"
  | .int64 _ => "Int64"
  | .other dataType => dataType

/-- `RecordBatch`. -/
structure RecordBatch where
  columns : List ArrowArray
  numRows : Nat

/-- `PhysicalExpr`, by what `evaluate` and `into_array` make of a batch. -/
abbrev PhysicalExpr := RecordBatch → Except DataFusionError ArrowArray

/-- `ColumnarValue` of Booleans. -/
inductive ColumnarValue where
  | array (values : List Bool)
  | scalar (value : Bool)
deriving DecidableEq, Repr

/-- Whether `FilterExec` keeps the row at an index. -/
def ColumnarValue.keeps (value : ColumnarValue) (index : Nat) : Bool :=
  match value with
  | .array values => values.getD index false
  | .scalar value => value

/-- `DeletionVectorPredicate`. -/
structure DeletionVectorPredicate where
  filePath : PhysicalExpr
  rowPosition : PhysicalExpr
  vectors : HashMap String DeletionVector

/-- The value the loop of `evaluate` appends for a position. -/
def keepPosition (vector : DeletionVector) (position : Option Int) :
    Except DataFusionError Bool :=
  match position with
  | none => .error (.execution "Iceberg deletion-vector row position cannot be null")
  | some position =>
    if position < 0 then
      .error (.execution ("Iceberg deletion-vector row position cannot be negative: " ++
        toString position))
    else .ok !vector.contains position.toNat

/-- The path of the first row of a batch that is not empty. -/
def firstFilePath (paths : ArrowArray) : Except DataFusionError String :=
  match paths with
  | .utf8 (some path :: _) => .ok path
  | .utf8 _ => .error (.execution "Iceberg deletion-vector file path cannot be null")
  | other => .error (.execution ("Iceberg deletion-vector file path must be Utf8, got " ++
      other.dataType))

/-- The loop of `evaluate` over the positions of a batch. -/
def keepPositions (vector : DeletionVector) (positions : ArrowArray) :
    Except DataFusionError ColumnarValue :=
  match positions with
  | .int64 positions => (positions.mapM (keepPosition vector)).map .array
  | other => .error (.execution ("Iceberg deletion-vector row position must be Int64, got " ++
      other.dataType))

namespace DeletionVectorPredicate

/-- `DeletionVectorPredicate::evaluate`. -/
def evaluate (predicate : DeletionVectorPredicate) (batch : RecordBatch) :
    Except DataFusionError ColumnarValue :=
  if batch.numRows = 0 then .ok (.array [])
  else do
    let path ← firstFilePath (← predicate.filePath batch)
    match predicate.vectors.lookup path with
    | none => .ok (.scalar true)
    | some vector => keepPositions vector (← predicate.rowPosition batch)

variable {predicate : DeletionVectorPredicate} {batch : RecordBatch} {rows : List (String × Nat)}

/-- The batch has these rows, by the path of their file and their position in it. -/
structure Reads (predicate : DeletionVectorPredicate) (batch : RecordBatch)
    (rows : List (String × Nat)) : Prop where
  numRows : batch.numRows = rows.length
  filePath : predicate.filePath batch = .ok (.utf8 (rows.map fun row => some row.1))
  rowPosition : predicate.rowPosition batch = .ok (.int64 (rows.map fun row => some (row.2 : Int)))

/-- Whether the vector under a path contains a position. -/
def deletes (predicate : DeletionVectorPredicate) (path : String) (position : Nat) : Bool :=
  (predicate.vectors.lookup path).any (·.contains position)

/-- The predicate keeps the rows that the vector of their own path does not contain. -/
def KeepsOwn (predicate : DeletionVectorPredicate) (batch : RecordBatch)
    (rows : List (String × Nat)) : Prop :=
  ∃ value, predicate.evaluate batch = .ok value ∧
    ∀ index row, rows[index]? = some row →
      (value.keeps index = true ↔ predicate.deletes row.1 row.2 = false)

/-- The vector of the first row's path and the vector of a row's own path agree about the row's
position. -/
def FirstAgrees (predicate : DeletionVectorPredicate) (rows : List (String × Nat)) : Prop :=
  ∀ first ∈ rows.head?, ∀ row ∈ rows,
    predicate.deletes first.1 row.2 = predicate.deletes row.1 row.2

instance (predicate : DeletionVectorPredicate) (rows : List (String × Nat)) :
    Decidable (predicate.FirstAgrees rows) :=
  inferInstanceAs (Decidable (∀ first ∈ rows.head?, ∀ row ∈ rows,
    predicate.deletes first.1 row.2 = predicate.deletes row.1 row.2))

theorem keepPosition_natCast (vector : DeletionVector) (position : Nat) :
    keepPosition vector (some (position : Int)) = .ok !vector.contains position := by
  have natural : ¬ (position : Int) < 0 := by omega
  unfold keepPosition
  dsimp only
  rw [if_neg natural, Int.toNat_natCast]

theorem keepPositions_natCast (vector : DeletionVector) (rows : List (String × Nat)) :
    keepPositions vector (.int64 (rows.map fun row => some (row.2 : Int))) =
      .ok (.array (rows.map fun row => !vector.contains row.2)) := by
  have appended : (rows.map fun row => some (row.2 : Int)).mapM (keepPosition vector) =
      .ok (rows.map fun row => !vector.contains row.2) := by
    induction rows with
    | nil => rfl
    | cons row rows ih =>
      rw [List.map_cons, List.mapM_cons, keepPosition_natCast, ih]
      rfl
  unfold keepPositions
  dsimp only
  rw [appended]
  rfl

/-- Every row is looked up in the vector of the first row's path. -/
theorem evaluate_located {first : String × Nat} (reads : predicate.Reads batch (first :: rows)) :
    ∃ value, predicate.evaluate batch = .ok value ∧
      ∀ index row, (first :: rows)[index]? = some row →
        value.keeps index = !predicate.deletes first.1 row.2 := by
  have filled : batch.numRows ≠ 0 := by
    rw [reads.numRows]
    exact Nat.succ_ne_zero _
  have looked : predicate.evaluate batch = (match predicate.vectors.lookup first.1 with
      | none => .ok (.scalar true)
      | some vector => .ok (.array ((first :: rows).map fun row => !vector.contains row.2))) := by
    unfold evaluate
    rw [if_neg filled, reads.filePath]
    cases found : predicate.vectors.lookup first.1 with
    | none =>
      simp only [bind, Except.bind, List.map_cons, firstFilePath, found]
    | some vector =>
      simp only [bind, Except.bind, List.map_cons, firstFilePath, found, reads.rowPosition]
      exact keepPositions_natCast vector (first :: rows)
  cases found : predicate.vectors.lookup first.1 with
  | none =>
    rw [found] at looked
    refine ⟨_, looked, fun index row at_ => ?_⟩
    rw [deletes, found]
    rfl
  | some vector =>
    rw [found] at looked
    refine ⟨_, looked, fun index row here => ?_⟩
    rw [deletes, found, ColumnarValue.keeps, List.getD_eq_getElem?_getD, List.getElem?_map, here]
    rfl

/-- The rows of a batch are kept by the vector of their own path just where the vector of the
first row's path says the same. -/
theorem keepsOwn_iff (reads : predicate.Reads batch rows) :
    predicate.KeepsOwn batch rows ↔ predicate.FirstAgrees rows := by
  cases rows with
  | nil =>
    have empty : predicate.evaluate batch = .ok (.array []) := if_pos reads.numRows
    constructor
    · intro _ first isFirst
      cases isFirst
    · exact fun _ => ⟨_, empty, fun index row here => nomatch here⟩
  | cons first rows =>
    obtain ⟨value, evaluated, kept⟩ := evaluate_located reads
    constructor
    · rintro ⟨other, same, own⟩ start isFirst row member
      obtain rfl : first = start := Option.some.inj isFirst
      obtain rfl : value = other := Except.ok.inj (evaluated.symm.trans same)
      obtain ⟨index, here⟩ := List.getElem?_of_mem member
      have decided := own index row here
      rw [kept index row here, Bool.not_eq_true'] at decided
      exact Bool.eq_iff_iff.mpr (by simpa using not_congr decided)
    · intro agrees
      refine ⟨value, evaluated, fun index row here => ?_⟩
      rw [kept index row here, agrees first rfl row (List.mem_of_getElem? here), Bool.not_eq_true']

/-! ### A batch of two files -/

/-- The columns of a scan that the filter reads. -/
def scanned (vectors : HashMap String DeletionVector) : DeletionVectorPredicate where
  filePath batch := .ok (batch.columns.getD 0 (.other "Null"))
  rowPosition batch := .ok (batch.columns.getD 1 (.other "Null"))
  vectors := vectors

/-- A batch of a path and a position for each row. -/
def located (rows : List (String × Nat)) : RecordBatch where
  columns :=
    [.utf8 (rows.map fun row => some row.1), .int64 (rows.map fun row => some (row.2 : Int))]
  numRows := rows.length

theorem reads_located (vectors : HashMap String DeletionVector) (rows : List (String × Nat)) :
    (scanned vectors).Reads (located rows) rows where
  numRows := rfl
  filePath := rfl
  rowPosition := rfl

/-- The second row of one file is deleted. -/
def secondDeleted : DeletionVectorPredicate := scanned (HashMap.fromIter [("a", ⟨{1}⟩)])

theorem keepsOwn_two_rows :
    secondDeleted.KeepsOwn (located [("a", 0), ("a", 1)]) [("a", 0), ("a", 1)] :=
  (keepsOwn_iff (reads_located _ _)).mpr (by decide)

/-- The second row of another file, in a batch that begins with a row of the first. -/
theorem not_keepsOwn_two_files :
    ¬ secondDeleted.KeepsOwn (located [("a", 0), ("b", 1)]) [("a", 0), ("b", 1)] := by
  rintro ⟨value, evaluated, own⟩
  have run : secondDeleted.evaluate (located [("a", 0), ("b", 1)]) =
      .ok (.array [true, false]) := by decide
  obtain rfl : value = .array [true, false] := Except.ok.inj (evaluated.symm.trans run)
  exact absurd ((own 1 ("b", 1) rfl).mpr (by decide)) (by decide)

end DeletionVectorPredicate

end IcebergRust

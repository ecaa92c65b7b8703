import IcebergRust.Lib.Fallible
import IcebergRust.Spec.Schema
import IcebergRust.Spec.Value

/-!
# Arrays and the partition transforms on them

The arrays and record batches of `arrow`, and `transform_arrow` of
`iceberg-rust/src/arrow/transform.rs`.

* `DataType.Native` is what a slot of an array holds; an array has slots of its type only.
* `transformSlot` is the type a transform leads to and the kernel it applies to every slot.
* `transformArrow_row`: the slots are transformed one by one, so a row has the same partition
  values whatever batch it is in.
-/

namespace IcebergRust.Arrow

open Fallible

/-! ### Arrays -/

/-- `DataType`: the types the transforms match on. -/
inductive DataType where
  | int16
  | int32
  | int64
  | date32
  | time32Millisecond
  | time64Microsecond
  | timestampMicrosecond (timezone : Option String)
  | timestampNanosecond (timezone : Option String)
  | utf8
  | other (name : String)
deriving DecidableEq, Repr

/-- `ArrowError`; a panic is among them. -/
inductive ArrowError where
  | schemaError (message : String)
  | computeError (message : String)
  | parseError (message : String)
  | panicked (message : String)
deriving DecidableEq, Repr

namespace DataType

/-- What a slot of an array of this type holds, where it is not null. -/
def Native : DataType → Type
  | .int16 => BitVec 16
  | .int32 => BitVec 32
  | .int64 => BitVec 64
  | .date32 => BitVec 32
  | .time32Millisecond => BitVec 32
  | .time64Microsecond => BitVec 64
  | .timestampMicrosecond _ => BitVec 64
  | .timestampNanosecond _ => BitVec 64
  | .utf8 => String
  | .other _ => String

instance (type : DataType) : DecidableEq type.Native :=
  match type with
  | .int16 => inferInstanceAs (DecidableEq (BitVec 16))
  | .int32 => inferInstanceAs (DecidableEq (BitVec 32))
  | .int64 => inferInstanceAs (DecidableEq (BitVec 64))
  | .date32 => inferInstanceAs (DecidableEq (BitVec 32))
  | .time32Millisecond => inferInstanceAs (DecidableEq (BitVec 32))
  | .time64Microsecond => inferInstanceAs (DecidableEq (BitVec 64))
  | .timestampMicrosecond _ => inferInstanceAs (DecidableEq (BitVec 64))
  | .timestampNanosecond _ => inferInstanceAs (DecidableEq (BitVec 64))
  | .utf8 => inferInstanceAs (DecidableEq String)
  | .other _ => inferInstanceAs (DecidableEq String)

end DataType

/-- One slot of an array, with the type of the array. -/
abbrev Cell := (type : DataType) × Option type.Native

/-- `ArrayRef`. -/
structure ArrayRef where
  dataType : DataType
  values : List (Option dataType.Native)
deriving DecidableEq

namespace ArrayRef

/-- The slot at an index. -/
def cell (array : ArrayRef) (index : Nat) : Cell :=
  ⟨array.dataType, array.values.getD index none⟩

/-- `Array::null_count`. -/
def nullCount (array : ArrayRef) : Nat := array.values.count none

/-- `take`: the slots at some indices. -/
def take (array : ArrayRef) (indices : List Nat) : ArrayRef where
  dataType := array.dataType
  values := indices.map fun index => array.values.getD index none

theorem cell_take (array : ArrayRef) {indices : List Nat} {position : Nat}
    (within : position < indices.length) :
    (array.take indices).cell position = array.cell indices[position] := by
  simp [cell, take, within]

end ArrayRef

/-- `RecordBatch`: named columns of one length. -/
structure RecordBatch where
  columns : List (String × ArrayRef)
  numRows : Nat
  sameLength : ∀ column ∈ columns, column.2.values.length = numRows

/-- A row: a named cell for each column. -/
abbrev Row := List (String × Cell)

namespace RecordBatch

/-- `RecordBatch::column_by_name`. -/
def columnByName (batch : RecordBatch) (name : String) : Option ArrayRef :=
  batch.columns.lookup name

/-- The row at an index. -/
def row (batch : RecordBatch) (index : Nat) : Row :=
  batch.columns.map fun column => (column.1, column.2.cell index)

/-- The rows of a batch. -/
def rows (batch : RecordBatch) : List Row := (List.range batch.numRows).map batch.row

/-- `take` on every column. -/
def take (batch : RecordBatch) (indices : List Nat) : RecordBatch where
  columns := batch.columns.map fun column => (column.1, column.2.take indices)
  numRows := indices.length
  sameLength := by
    intro column member
    obtain ⟨original, -, rfl⟩ := List.mem_map.mp member
    exact List.length_map _

theorem rows_take (batch : RecordBatch) (indices : List Nat) :
    (batch.take indices).rows = indices.map batch.row := by
  apply List.ext_getElem
  · simp [rows, take]
  · intro position within _
    have inside : position < indices.length := by simpa [rows, take] using within
    simp only [rows, take, row, List.getElem_map, List.getElem_range, List.map_map]
    apply List.map_congr_left
    intro column _
    exact congrArg (column.1, ·) (column.2.cell_take inside)

/-- The cell of a row under the name of a column. -/
theorem lookup_row (batch : RecordBatch) (name : String) (index : Nat) :
    (batch.row index).lookup name = (batch.columnByName name).map (·.cell index) := by
  unfold row columnByName
  induction batch.columns with
  | nil => rfl
  | cons column columns ih =>
    rw [List.map_cons, List.lookup_cons, List.lookup_cons, ih]
    cases name == column.1 <;> rfl

/-- A column has a slot for each row. -/
theorem length_column {batch : RecordBatch} {name : String} {array : ArrayRef}
    (found : batch.columnByName name = some array) : array.values.length = batch.numRows := by
  obtain ⟨before, after, columns, -⟩ := List.lookup_eq_some_iff.mp found
  apply batch.sameLength (name, array)
  rw [columns]
  exact List.mem_append_right _ List.mem_cons_self

end RecordBatch

/-! ### Transforms -/

/-- The functions of other packages the transforms call; `zone` is the clock of a time zone that
can be parsed, by the microseconds it shows. -/
structure Kernels extends Value.Libraries where
  zone : String → Option (Int → Int)

/-- The type of the result, and what becomes of each slot. -/
abbrev SlotKernel (type : DataType) :=
  (target : DataType) × (Option type.Native → Except ArrowError (Option target.Native))

/-- `unary`. -/
def unary {α β : Type} (f : α → β) (slot : Option α) : Except ArrowError (Option β) :=
  .ok (slot.map f)

/-- `datepart_to_years`. -/
def datepartToYears (year _month : Int) : BitVec 32 := BitVec.ofInt 32 (year - 1970)

/-- `datepart_to_months`. -/
def datepartToMonths (year month : Int) : BitVec 32 :=
  BitVec.ofInt 32 (12 * (year - 1970) + month - 1)

/-- A function of the year and the month from `date_part`, which is null beyond the calendar. -/
def dateParts {α : Type} (kernels : Kernels) (f : Int → Int → BitVec 32) (day : α → Int)
    (slot : Option α) : Except ArrowError (Option (BitVec 32)) :=
  .ok (slot.bind fun value =>
    (kernels.yearMonth (day value)).map fun found => f found.1 (found.2 + 1))

/-- The clock `date_part` reads a timestamp of a time zone by. -/
def Kernels.clock (kernels : Kernels) (timezone : Option String) :
    Except ArrowError (Int → Int) :=
  match timezone with
  | none => .ok id
  | some name =>
    match kernels.zone name with
    | some clock => .ok clock
    | none => .error (.parseError ("Invalid timezone \"" ++ name ++ "\""))

/-- `dateParts` of microseconds in a time zone. -/
def zonedParts (kernels : Kernels) (f : Int → Int → BitVec 32) (timezone : Option String) :
    Except ArrowError (Option (BitVec 64) → Except ArrowError (Option (BitVec 32))) :=
  (kernels.clock timezone).map fun clock =>
    dateParts kernels f fun micros : BitVec 64 => clock micros.toInt / 86400000000

/-- `bucket`. -/
def bucket (kernels : Kernels) (bytes : List UInt8) (width : Nat) : BitVec 32 :=
  BitVec.ofNat 32 ((kernels.murmur3 bytes &&& 0x7fffffff#32).toNat % width)

/-- `i - i.rem_euclid(w)` on a slot; the kernel also visits the slots of nulls. -/
def truncateSlot {bits : Nat} (width : BitVec bits) :
    Option (BitVec bits) → Except ArrowError (Option (BitVec bits))
  | none => if width = 0 then .error (.panicked "rem_euclid") else .ok none
  | some i =>
    match Value.truncateInteger i width with
    | .ok kept => .ok (some kept)
    | .error _ => .error (.panicked "rem_euclid")

/-- Units of time since 1970, rounded down and cut to 32 bits. -/
def unitsSince (unit : Int) (value : BitVec 64) : BitVec 32 := BitVec.ofInt 32 (value.toInt / unit)

/-- The arms of `transform_arrow`. -/
def transformSlot (kernels : Kernels) :
    (type : DataType) → Transform → Except ArrowError (SlotKernel type)
  | type, .identity => .ok ⟨type, .ok⟩
  | .date32, .day => .ok ⟨.int32, unary fun days : BitVec 32 => days⟩
  | .date32, .month =>
    .ok ⟨.int32, dateParts kernels datepartToMonths fun days : BitVec 32 => days.toInt⟩
  | .date32, .year =>
    .ok ⟨.int32, dateParts kernels datepartToYears fun days : BitVec 32 => days.toInt⟩
  | .timestampMicrosecond _, .hour => .ok ⟨.int32, unary (unitsSince 3600000000)⟩
  | .timestampMicrosecond _, .day => .ok ⟨.int32, unary (unitsSince 86400000000)⟩
  | .timestampMicrosecond timezone, .month =>
    (zonedParts kernels datepartToMonths timezone).map fun kernel => ⟨.int32, kernel⟩
  | .timestampMicrosecond timezone, .year =>
    (zonedParts kernels datepartToYears timezone).map fun kernel => ⟨.int32, kernel⟩
  | .timestampNanosecond _, .hour => .ok ⟨.int32, unary (unitsSince 3600000000000)⟩
  | .timestampNanosecond _, .day => .ok ⟨.int32, unary (unitsSince 86400000000000)⟩
  | .timestampNanosecond _, .month =>
    .ok ⟨.int32, dateParts kernels datepartToMonths fun nanos : BitVec 64 =>
      nanos.toInt / 86400000000000⟩
  | .timestampNanosecond _, .year =>
    .ok ⟨.int32, dateParts kernels datepartToYears fun nanos : BitVec 64 =>
      nanos.toInt / 86400000000000⟩
  | .timestampNanosecond _, .bucket m =>
    .ok ⟨.int32, unary fun nanos : BitVec 64 =>
      bucket kernels (Value.leBytes (BitVec.ofInt 64 (nanos.toInt / 1000))) m⟩
  | .timestampMicrosecond _, .bucket m =>
    .ok ⟨.int32, unary fun micros : BitVec 64 => bucket kernels (Value.leBytes micros) m⟩
  | .int16, .truncate m => .ok ⟨.int16, truncateSlot (BitVec.ofNat 16 m)⟩
  | .int32, .truncate m => .ok ⟨.int32, truncateSlot (BitVec.ofNat 32 m)⟩
  | .int64, .truncate m => .ok ⟨.int64, truncateSlot (BitVec.ofNat 64 m)⟩
  | .int32, .bucket m =>
    .ok ⟨.int32, unary fun i : BitVec 32 => bucket kernels (Value.leBytes (i.signExtend 64)) m⟩
  | .int64, .bucket m =>
    .ok ⟨.int32, unary fun i : BitVec 64 => bucket kernels (Value.leBytes i) m⟩
  | .date32, .bucket m =>
    .ok ⟨.int32, unary fun i : BitVec 32 => bucket kernels (Value.leBytes (i.signExtend 64)) m⟩
  | .time32Millisecond, .bucket m =>
    .ok ⟨.int32, unary fun i : BitVec 32 => bucket kernels (Value.leBytes (i.signExtend 64)) m⟩
  | .time64Microsecond, .bucket m =>
    .ok ⟨.int32, unary fun i : BitVec 64 => bucket kernels (Value.leBytes i) m⟩
  | .utf8, .bucket m =>
    .ok ⟨.int32, unary fun text : String => bucket kernels text.toUTF8.toList m⟩
  | _, _ => .error (.computeError "Failed to perform transform for datatype")

/-- The check of the bucket width that comes first. -/
def bucketWidth : Transform → Except ArrowError Unit
  | .bucket width =>
    if width = 0 ∨ 2147483647 < width then .error (.computeError "Invalid bucket width") else .ok ()
  | _ => .ok ()

/-- `transform_arrow`. -/
def transformArrow (kernels : Kernels) (array : ArrayRef) (transform : Transform) :
    Except ArrowError ArrayRef := do
  bucketWidth transform
  let kernel ← transformSlot kernels array.dataType transform
  let values ← array.values.mapM kernel.2
  .ok ⟨kernel.1, values⟩

/-- What `transform_arrow` makes of one slot. -/
def transformCell (kernels : Kernels) (cell : Cell) (transform : Transform) :
    Except ArrowError Cell := do
  bucketWidth transform
  let kernel ← transformSlot kernels cell.1 transform
  let value ← kernel.2 cell.2
  .ok ⟨kernel.1, value⟩

variable {kernels : Kernels} {array out : ArrayRef} {transform : Transform}

/-- Transforming an array transforms each of its slots. -/
theorem transformArrow_spec (run : transformArrow kernels array transform = .ok out) :
    out.values.length = array.values.length ∧ ∀ index < array.values.length,
      transformCell kernels (array.cell index) transform = .ok (out.cell index) := by
  simp only [transformArrow, bind_eq_ok] at run
  obtain ⟨_, wide, kernel, selected, values, mapped, made⟩ := run
  obtain rfl := Except.ok.inj made
  have pairs := mapM_eq_ok.mp mapped
  refine ⟨pairs.length_eq.symm, fun index within => ?_⟩
  have slot : kernel.2 (array.values.getD index none) = .ok (values.getD index none) := by
    have inside : index < values.length := pairs.length_eq ▸ within
    rw [List.getD_eq_getElem?_getD, List.getD_eq_getElem?_getD, List.getElem?_eq_getElem within,
      List.getElem?_eq_getElem inside]
    exact pairs.get within inside
  simp only [transformCell, bind_eq_ok]
  exact ⟨_, wide, kernel, selected, _, slot, rfl⟩

end IcebergRust.Arrow

import IcebergRust.Spec.ManifestList

/-!
# Bounding rectangles of partition values

`iceberg-rust/src/util/mod.rs`: the rectangles the manifest selection compares and
the splitting of data files divides.  An index beyond the end of a vector panics in
the source and is an error here.

* `Rectangle.cmpWithPriority` and `cmpWithPriority` compare column by column, the
  earlier columns first; an empty rectangle is the unbounded one.
-/

namespace IcebergRust

open PartitionValue

variable {V : Type} [PartitionValue V]

/-- The order of `a` and `b` as `Value`s, with the error of the callers. -/
def orderOf (a b : V) : Except Error Ordering :=
  match partialCmp a b with
  | some ordering => .ok ordering
  | none => .error (.invalidFormat "Types for Partial Order")

/-- `util::cmp_with_priority`. -/
def cmpWithPriority : List V → List V → Except Error Ordering
  | a :: as, b :: bs => do
    match ← orderOf a b with
    | .eq => cmpWithPriority as bs
    | ordering => .ok ordering
  | _, _ => .ok .eq

/-- `util::try_sub`: the right vector is indexed up to the length of the left one. -/
def trySubAll : List V → List V → Except Error (List V)
  | [], _ => .ok []
  | _ :: _, [] => .error (.panicked "index out of bounds")
  | a :: as, b :: bs => do
    let difference ← trySub a b
    let rest ← trySubAll as bs
    .ok (difference :: rest)

structure Rectangle (V : Type) where
  min : List V
  max : List V
deriving DecidableEq

namespace Rectangle

def unbounded : Rectangle V := ⟨[], []⟩

/-- One bound of `expand`: the new value where it is beyond the current one. -/
def expandBound (beyond : Ordering) : List V → List V → Except Error (List V)
  | [], _ => .ok []
  | _ :: _, [] => .error (.panicked "index out of bounds")
  | current :: currents, value :: values => do
    let rest ← expandBound beyond currents values
    .ok ((if partialCmp value current = some beyond then value else current) :: rest)

/-- `Rectangle::expand`: an unbounded rectangle absorbs. -/
def expand (rectangle other : Rectangle V) : Except Error (Rectangle V) :=
  if rectangle.min.isEmpty ∨ other.min.isEmpty then .ok unbounded
  else do
    let min ← expandBound .lt rectangle.min other.min
    let max ← expandBound .gt rectangle.max other.max
    .ok ⟨min, max⟩

/-- `Rectangle::expand_with_node`. -/
def expandWithNode (rectangle : Rectangle V) (node : List V) : Except Error (Rectangle V) := do
  let min ← expandBound .lt rectangle.min node
  let max ← expandBound .gt rectangle.max node
  .ok ⟨min, max⟩

/-- The widths of two rectangles, compared column by column. -/
def cmpWidths : List (V × V) → List (V × V) → Except Error Ordering
  | own :: owns, other :: others => do
    let ownWidth ← trySub own.1 own.2
    let otherWidth ← trySub other.1 other.2
    match ← orderOf ownWidth otherWidth with
    | .eq => cmpWidths owns others
    | ordering => .ok ordering
  | _, _ => .ok .eq

/-- `Rectangle::cmp_with_priority`. -/
def cmpWithPriority (rectangle other : Rectangle V) : Except Error Ordering :=
  match rectangle.min.isEmpty, other.min.isEmpty with
  | true, false => .ok .gt
  | false, true => .ok .lt
  | _, _ => cmpWidths (rectangle.max.zip rectangle.min) (other.max.zip other.min)

end Rectangle

/-- `partition_struct_to_vec`: `none` where one of the columns is null. -/
def partitionStructToVec (partition : Struct V) (names : List String) :
    Except Error (Option (List V)) := do
  let fields ← names.mapM fun name =>
    match partition.get name with
    | some field => Except.ok field
    | none => .error (.invalidFormat "Partition struct")
  .ok (fields.mapM id)

/-- `summary_to_rectangle`: unbounded as soon as one column has no bounds. -/
def summaryToRectangle (summaries : List (FieldSummary V)) : Rectangle V :=
  match summaries.mapM fun summary => do
      let lower ← summary.lowerBound
      let upper ← summary.upperBound
      some (lower, upper) with
  | some bounds => ⟨bounds.map (·.1), bounds.map (·.2)⟩
  | none => .unbounded

/-- One step of `bounding_partition_values`. -/
def boundingStep (names : List String) (bounds : Option (Rectangle V)) (file : DataFile V) :
    Except Error (Option (Rectangle V)) := do
  match ← partitionStructToVec file.partition names with
  | none => .ok (some .unbounded)
  | some node =>
    match bounds with
    | none => .ok (some ⟨node, node⟩)
    | some rectangle =>
      if rectangle.min.isEmpty then .ok (some rectangle)
      else (rectangle.expandWithNode node).map some

/-- `bounding_partition_values` of `operation.rs`. -/
def boundingPartitionValues (files : List (DataFile V)) (names : List String) :
    Except Error (Rectangle V) := do
  match ← files.foldlM (boundingStep names) none with
  | some rectangle => .ok rectangle
  | none => .error (.notFound "Bounding partition values")

end IcebergRust

import IcebergRust.Lib.Columnwise
import IcebergRust.Lib.Observation
import IcebergRust.Spec.ValueOrder
import IcebergRust.Table.PartitionBounds
import IcebergRust.Util

/-!
# Expanding rectangles

`Rectangle::expand` of `util/mod.rs` on the values of partition columns, and the rectangles of the
summaries of manifests.

* `expand_spec` is one expansion.  It goes by positions and panics where the other rectangle is
  shorter.
* `Hull` is what a run of expansions leaves; `foldlM_expand` says when it gets there.
* `FieldSummary.Admits` is what a summary that says the truth says of a cell.
-/

namespace IcebergRust

open Columnwise Fallible PartitionValue

/-! ### Rectangles -/

/-- The operations of `Value` that rectangles do not go through. -/
class ComparisonLibraries where
  others : PartitionValue Value

/-- `PartialOrd` of `Value` is derived. -/
instance [libraries : ComparisonLibraries] : PartitionValue Value :=
  { libraries.others with partialCmp := fun a b => some (a.cmp b) }

/-- The opposite order. -/
def Value.cmpDown (a b : Value) : Ordering := b.cmp a

instance : Std.TransCmp Value.cmpDown := inferInstanceAs (Std.TransCmp fun a b => Value.cmp b a)

namespace Rectangle

/-- A rectangle that bounds something. -/
def bounded (rectangle : Rectangle Value) : Bool := !rectangle.min.isEmpty

/-- As many lower as upper bounds. -/
def Even (rectangle : Rectangle Value) : Prop := rectangle.min.length = rectangle.max.length

/-- In every column the least lower and the greatest upper bound of rectangles. -/
structure Hull (rectangle : Rectangle Value) (rectangles : List (Rectangle Value)) : Prop where
  even : rectangle.Even
  min : Bottom Value.cmp rectangle.min (rectangles.map (·.min))
  max : Bottom Value.cmpDown rectangle.max (rectangles.map (·.max))

theorem Hull.single {rectangle : Rectangle Value} (even : rectangle.Even) :
    rectangle.Hull [rectangle] :=
  ⟨even, .single _, .single _⟩

/-- None of the rectangles before the first unbounded one has fewer columns. -/
def Fits (width : Nat) (rectangles : List (Rectangle Value)) : Prop :=
  ∀ rectangle ∈ rectangles.takeWhile (·.bounded), width ≤ rectangle.min.length

theorem bounded_of_length {first second : Rectangle Value}
    (width : first.min.length = second.min.length) : first.bounded = second.bounded := by
  unfold bounded
  rw [Bool.eq_iff_iff]
  simp [← List.length_eq_zero_iff, width]

end Rectangle

section Rectangles

variable [ComparisonLibraries]

theorem expandBound_lt (currents values : List Value) :
    Rectangle.expandBound .lt currents values = match improve Value.cmp currents values with
      | some kept => .ok kept
      | none => .error (.panicked "index out of bounds") := by
  induction currents generalizing values with
  | nil => rfl
  | cons current currents ih =>
    cases values with
    | nil => rfl
    | cons value values =>
      rw [Rectangle.expandBound, ih, improve]
      cases improve Value.cmp currents values with
      | none => rfl
      | some rest =>
        have step : (if partialCmp value current = some .lt then value else current) =
            keep Value.cmp current value :=
          if_congr Option.some_inj rfl rfl
        rw [ok_bind, step]
        rfl

theorem expandBound_gt (currents values : List Value) :
    Rectangle.expandBound .gt currents values = match improve Value.cmpDown currents values with
      | some kept => .ok kept
      | none => .error (.panicked "index out of bounds") := by
  induction currents generalizing values with
  | nil => rfl
  | cons current currents ih =>
    cases values with
    | nil => rfl
    | cons value values =>
      rw [Rectangle.expandBound, ih, improve]
      cases improve Value.cmpDown currents values with
      | none => rfl
      | some rest =>
        have step : (if partialCmp value current = some .gt then value else current) =
            keep Value.cmpDown current value :=
          if_congr (Option.some_inj.trans Std.OrientedCmp.gt_iff_lt) rfl rfl
        rw [ok_bind, step]
        rfl

namespace Rectangle

theorem expand_unbounded {rectangle other : Rectangle Value}
    (either : rectangle.bounded = false ∨ other.bounded = false) :
    rectangle.expand other = .ok .unbounded := by
  simp only [bounded, Bool.not_eq_false'] at either
  exact if_pos either

/-- One expansion of a bounded rectangle by a bounded one. -/
theorem expand_spec {rectangle other : Rectangle Value} {before : List (Rectangle Value)}
    (hull : rectangle.Hull before) (even : other.Even) (own : rectangle.bounded = true)
    (others : other.bounded = true) :
    (other.min.length < rectangle.min.length ∧
        rectangle.expand other = .error (.panicked "index out of bounds")) ∨
      (rectangle.min.length ≤ other.min.length ∧ ∃ next, rectangle.expand other = .ok next ∧
        next.min.length = rectangle.min.length ∧ next.Hull (before ++ [other])) := by
  have runs : rectangle.expand other = (do
      let min ← expandBound .lt rectangle.min other.min
      let max ← expandBound .gt rectangle.max other.max
      .ok ⟨min, max⟩) := by
    simp only [bounded, Bool.not_eq_true'] at own others
    exact if_neg (by simp [own, others])
  rw [runs, expandBound_lt, expandBound_gt]
  unfold Even at even
  have ownEven := hull.even
  unfold Even at ownEven
  cases lower : improve Value.cmp rectangle.min other.min with
  | none => exact .inl ⟨improve_eq_none_iff.mp lower, rfl⟩
  | some min =>
    have long : rectangle.min.length ≤ other.min.length := by
      by_contra short
      rw [improve_eq_none_iff.mpr (Nat.lt_of_not_le short)] at lower
      cases lower
    cases upper : improve Value.cmpDown rectangle.max other.max with
    | none =>
      have short := improve_eq_none_iff.mp upper
      omega
    | some max =>
      refine .inr ⟨long, ⟨min, max⟩, rfl, length_improve lower, ?_, ?_, ?_⟩
      · unfold Even
        rw [length_improve lower, length_improve upper, ownEven]
      · rw [List.map_append]
        exact hull.min.improve lower
      · rw [List.map_append]
        exact hull.max.improve upper

theorem foldlM_expand_unbounded (rectangles : List (Rectangle Value)) :
    rectangles.foldlM expand unbounded = .ok unbounded := by
  induction rectangles with
  | nil => rfl
  | cons rectangle rectangles ih =>
    rw [List.foldlM_cons, expand_unbounded (.inl rfl)]
    exact ih

/-- Expanding a bounded rectangle by others: it panics where one of them is too short, and an
unbounded one absorbs. -/
theorem foldlM_expand {start : Rectangle Value} {before rest : List (Rectangle Value)}
    (hull : start.Hull before) (own : start.bounded = true) (even : ∀ other ∈ rest, other.Even) :
    (¬ Fits start.min.length rest ∧ Panics (rest.foldlM expand start)) ∨
      (Fits start.min.length rest ∧ rest.all (·.bounded) = false ∧
        rest.foldlM expand start = .ok unbounded) ∨
      (Fits start.min.length rest ∧ rest.all (·.bounded) = true ∧
        ∃ final, rest.foldlM expand start = .ok final ∧
          final.min.length = start.min.length ∧ final.Hull (before ++ rest)) := by
  induction rest generalizing start before with
  | nil =>
    refine .inr (.inr ⟨fun _ absent => (nomatch absent), rfl, start, rfl, rfl, ?_⟩)
    rw [List.append_nil]
    exact hull
  | cons other rest ih =>
    rw [List.foldlM_cons]
    cases others : other.bounded with
    | false =>
      refine .inr (.inl ⟨?_, ?_, ?_⟩)
      · unfold Fits
        rw [List.takeWhile_cons_of_neg (by simp [others])]
        exact fun _ absent => nomatch absent
      · simp [others]
      · rw [expand_unbounded (.inr others)]
        exact foldlM_expand_unbounded rest
    | true =>
      have fits (width : Nat) : Fits width (other :: rest) ↔
          width ≤ other.min.length ∧ Fits width rest := by
        unfold Fits
        rw [List.takeWhile_cons_of_pos others, List.forall_mem_cons]
      have all : (other :: rest).all (·.bounded) = rest.all (·.bounded) := by simp [others]
      rw [fits, all]
      rcases expand_spec hull (even other List.mem_cons_self) own others with
        ⟨short, stops⟩ | ⟨long, next, steps, width, hull⟩
      · refine .inl ⟨fun fits => absurd fits.1 (Nat.not_le.mpr short), ?_⟩
        rw [stops]
        exact ⟨_, rfl⟩
      · have enough : (start.min.length ≤ other.min.length ∧ Fits start.min.length rest) ↔
            Fits start.min.length rest := and_iff_right long
        rw [steps, ok_bind, enough, ← width, List.append_cons]
        exact ih hull ((bounded_of_length width).trans own) fun other member =>
          even other (List.mem_cons_of_mem _ member)

end Rectangle

end Rectangles

/-! ### Summaries -/

/-- The rectangles of the manifests that have summaries. -/
def recorded (rows : List (ManifestListEntry Value)) : List (Rectangle Value) :=
  rows.filterMap fun row => row.partitions.map summaryToRectangle

theorem mem_recorded {rows : List (ManifestListEntry Value)} {row : ManifestListEntry Value}
    (member : row ∈ rows) {summaries : List (FieldSummary Value)}
    (there : row.partitions = some summaries) : summaryToRectangle summaries ∈ recorded rows :=
  List.mem_filterMap.mpr ⟨row, member, by rw [there]; rfl⟩

/-- The two bounds of a summary. -/
def boundsOf (summary : FieldSummary Value) : Option (Value × Value) := do
  let lower ← summary.lowerBound
  let upper ← summary.upperBound
  some (lower, upper)

theorem boundsOf_eq_some {summary : FieldSummary Value} {bounds : Value × Value} :
    boundsOf summary = some bounds ↔
      summary.lowerBound = some bounds.1 ∧ summary.upperBound = some bounds.2 := by
  simp only [boundsOf, Option.bind_eq_bind, Option.bind_eq_some_iff, Option.some_inj]
  constructor
  · rintro ⟨lower, low, upper, high, rfl⟩
    exact ⟨low, high⟩
  · rintro ⟨low, high⟩
    exact ⟨_, low, _, high, rfl⟩

theorem summaryToRectangle_eq (summaries : List (FieldSummary Value)) :
    summaryToRectangle summaries = match summaries.mapM boundsOf with
      | some bounds => ⟨bounds.map (·.1), bounds.map (·.2)⟩
      | none => .unbounded := by
  unfold summaryToRectangle
  rw [show (summaries.mapM fun summary => do
    let lower ← summary.lowerBound
    let upper ← summary.upperBound
    some (lower, upper)) = summaries.mapM boundsOf from rfl]
  cases summaries.mapM boundsOf with
  | none => rfl
  | some bounds => rfl

theorem summaryToRectangle_even (summaries : List (FieldSummary Value)) :
    (summaryToRectangle summaries).Even := by
  rw [summaryToRectangle_eq]
  cases summaries.mapM boundsOf with
  | none => rfl
  | some bounds => simp [Rectangle.Even]

/-- A rectangle that bounds something has the bounds of every summary. -/
theorem summaryToRectangle_spec {summaries : List (FieldSummary Value)}
    (bounded : (summaryToRectangle summaries).bounded = true) :
    (summaryToRectangle summaries).min.length = summaries.length ∧
      ∀ (i : Nat) summary, summaries[i]? = some summary → ∃ lower upper,
        summary.lowerBound = some lower ∧ summary.upperBound = some upper ∧
        (summaryToRectangle summaries).min[i]? = some lower ∧
        (summaryToRectangle summaries).max[i]? = some upper := by
  rw [summaryToRectangle_eq] at bounded ⊢
  cases found : summaries.mapM boundsOf with
  | none =>
    rw [found] at bounded
    cases bounded
  | some bounds =>
    have pairs := mapM_eq_some.mp found
    refine ⟨by rw [List.length_map, pairs.length_eq], ?_⟩
    intro i summary here
    obtain ⟨bound, there, both⟩ := (Observation.forall₂_iff_getElem?.mp pairs).2 i summary here
    obtain ⟨lower, upper⟩ := boundsOf_eq_some.mp both
    refine ⟨bound.1, bound.2, lower, upper, ?_, ?_⟩
    · simp [there]
    · simp [there]

/-- What a summary says of a cell, where it says anything: NaN is beyond its bounds. -/
structure FieldSummary.Admits (summary : FieldSummary Value) (cell : Option Value) : Prop where
  null : cell = none → summary.containsNull = true
  lower : ∀ value, cell = some value → value.isNan = false →
    ∀ bound, summary.lowerBound = some bound → Value.AtMost bound value
  upper : ∀ value, cell = some value → value.isNan = false →
    ∀ bound, summary.upperBound = some bound → Value.AtMost value bound

/-- The summaries of a manifest say the truth about a tuple. -/
def SummariesAdmit (fields : List PartitionField) (summaries : List (FieldSummary Value))
    (tuple : Struct Value) : Prop :=
  List.Forall₂ (fun field summary =>
    ∃ cell, tuple.get field.name = some cell ∧ summary.Admits cell) fields summaries

end IcebergRust

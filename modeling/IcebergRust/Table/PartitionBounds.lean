import IcebergRust.Spec.LongValue
import IcebergRust.Spec.Order
import IcebergRust.Table.PartitionTuple
import IcebergRust.Table.Written

/-!
# The bounds of partition summaries

`update_partitions` over the entries of a manifest, however its writer was begun.

* `Value.variantCmp` is the comparison of its two matches; on values of one type it decides their
  order (`variantCmp_decides`).
* `FieldSummary.record_covers` is one value recorded in one summary, `updatePartitions_summarize` a
  tuple in the summaries of a spec.
* `partitionBounds_sound` is the statement for a manifest: what its row says of a column holds of
  every entry.
-/

namespace IcebergRust

open Fallible Lexicographic PartitionValue

/-! ### Comparing values -/

namespace Value

/-- The comparisons of `update_partitions`: values of one variant, decimals by their number, and
the bytes of a `fixed` whatever its length. -/
def variantCmp : Value → Value → Option Ordering
  | .boolean a, .boolean b => some (compare a b)
  | .int a, .int b => some (compare a.toInt b.toInt)
  | .longInt a, .longInt b => some (compare a.toInt b.toInt)
  | .float a, .float b => some (compare a.rank b.rank)
  | .double a, .double b => some (compare a.rank b.rank)
  | .date a, .date b => some (compare a.toInt b.toInt)
  | .time a, .time b => some (compare a.toInt b.toInt)
  | .timestamp a, .timestamp b => some (compare a.toInt b.toInt)
  | .timestampTZ a, .timestampTZ b => some (compare a.toInt b.toInt)
  | .timestampNano a, .timestampNano b => some (compare a.toInt b.toInt)
  | .timestampTZNano a, .timestampTZNano b => some (compare a.toInt b.toInt)
  | .string a, .string b => some (compareOfLessAndEq (utf8 a) (utf8 b))
  | .uuid a, .uuid b => some (compare a.toNat b.toNat)
  | .fixed _ a, .fixed _ b => some (compareOfLessAndEq a b)
  | .binary a, .binary b => some (compareOfLessAndEq a b)
  | .decimal a, .decimal b =>
    some (compare (a.mantissa * 10 ^ b.scale) (b.mantissa * 10 ^ a.scale))
  | _, _ => none

/-- A `Float` or `Double`. -/
def isFloating : Value → Bool
  | .float _ => true
  | .double _ => true
  | _ => false

/-- A `Float` or `Double` that is NaN. -/
def isNan : Value → Bool
  | .float value => value.isNan
  | .double value => value.isNan
  | _ => false

/-- A decimal of the scale of a type. -/
def decimalUnchanged : Value → IcebergType → Bool
  | .decimal value, .primitive (.decimal _ scale) => value.scale = scale
  | _, _ => false

/-- What an ordering says of two values. -/
structure Decides (order : Ordering) (a b : Value) : Prop where
  less : order = .lt → AtMost a b
  notLess : order ≠ .lt → AtMost b a
  greater : order = .gt → AtMost b a
  notGreater : order ≠ .gt → AtMost a b

theorem decides_number {a b : Value} (type : a.datatype = b.datatype) (text : a.text = b.text) :
    Decides (compare a.number b.number) a b := by
  have low : a.number ≤ b.number → AtMost a b := by
    intro less
    rcases Int.lt_or_eq_of_le less with below | same
    · exact ⟨type, .inl below⟩
    · exact ⟨type, .inr ⟨same, text ▸ List.le_refl _⟩⟩
  have high : b.number ≤ a.number → AtMost b a := by
    intro more
    rcases Int.lt_or_eq_of_le more with above | same
    · exact ⟨type.symm, .inl above⟩
    · exact ⟨type.symm, .inr ⟨same, text ▸ List.le_refl _⟩⟩
  constructor
  · exact fun less => low (Int.le_of_lt (compare_lt_iff_lt.mp less))
  · exact fun notLess => high (not_lt.mp fun below => notLess (compare_lt_iff_lt.mpr below))
  · exact fun greater => high (Int.le_of_lt (compare_gt_iff_gt.mp greater))
  · exact fun notGreater => low (not_lt.mp fun above => notGreater (compare_gt_iff_gt.mpr above))

theorem decides_text {a b : Value} (type : a.datatype = b.datatype) (number : a.number = b.number) :
    Decides (compareOfLessAndEq a.text b.text) a b := by
  have low : a.text ≤ b.text → AtMost a b := fun less => ⟨type, .inr ⟨number, less⟩⟩
  have high : b.text ≤ a.text → AtMost b a := fun more => ⟨type.symm, .inr ⟨number.symm, more⟩⟩
  unfold compareOfLessAndEq
  by_cases below : a.text < b.text
  · rw [if_pos below]
    have less := low (List.le_of_lt below)
    exact ⟨fun _ => less, fun other => absurd rfl other, fun other => (nomatch other), fun _ => less⟩
  · rw [if_neg below]
    have more := high (List.not_lt.mp below)
    by_cases same : a.text = b.text
    · rw [if_pos same]
      have less := low (same ▸ List.le_refl _)
      exact ⟨fun other => (nomatch other), fun _ => more, fun other => (nomatch other), fun _ => less⟩
    · rw [if_neg same]
      exact ⟨fun other => (nomatch other), fun _ => more, fun _ => more,
        fun other => absurd rfl other⟩

/-- Values of one type are compared in their order. -/
theorem variantCmp_decides {a b : Value} (type : a.datatype = b.datatype) :
    ∃ order, variantCmp a b = some order ∧ Decides order a b := by
  cases a <;> cases b <;> try (cases type; done)
  case string.string => exact ⟨_, rfl, decides_text type rfl⟩
  case fixed.fixed => exact ⟨_, rfl, decides_text type rfl⟩
  case binary.binary => exact ⟨_, rfl, decides_text type rfl⟩
  case boolean.boolean a b =>
    refine ⟨_, rfl, ?_⟩
    have numbers := decides_number type rfl
    cases a <;> cases b <;> exact numbers
  case decimal.decimal a b =>
    -- Decimals of one type have one scale.
    have scale : a.scale = b.scale := by
      simp only [datatype, IcebergType.primitive.injEq, PrimitiveType.decimal.injEq, true_and] at type
      exact type
    have positive : (0 : Int) < 10 ^ b.scale := Int.pow_pos (by decide)
    have same : compare (a.mantissa * 10 ^ b.scale) (b.mantissa * 10 ^ a.scale) =
        compare a.mantissa b.mantissa := by
      rw [scale]
      rcases lt_trichotomy a.mantissa b.mantissa with less | equal | more
      · rw [compare_lt_iff_lt.mpr less, compare_lt_iff_lt]
        exact Int.mul_lt_mul_of_pos_right less positive
      · rw [equal]
        simp
      · rw [compare_gt_iff_gt.mpr more, compare_gt_iff_gt]
        exact Int.mul_lt_mul_of_pos_right more positive
    exact ⟨_, rfl, same ▸ decides_number type rfl⟩
  case uuid.uuid a b =>
    refine ⟨_, rfl, ?_⟩
    have numbers := decides_number type rfl
    have same : compare a.toNat b.toNat = compare (number (.uuid a)) (number (.uuid b)) := by
      simp only [number]
      rcases lt_trichotomy a.toNat b.toNat with less | equal | more
      · rw [compare_lt_iff_lt.mpr less, eq_comm, compare_lt_iff_lt]
        exact Int.ofNat_lt.mpr less
      · rw [equal]
        simp
      · rw [compare_gt_iff_gt.mpr more, eq_comm, compare_gt_iff_gt]
        exact Int.ofNat_lt.mpr more
    exact same ▸ numbers
  all_goals exact ⟨_, rfl, decides_number type rfl⟩

/-- A type as values know it: decimals without their precision. -/
def known : IcebergType → IcebergType
  | .primitive (.decimal _ scale) => .primitive (.decimal 38 scale)
  | type => type

/-- A value of a type, whatever the number of its digits. -/
def OfType (value : Value) (type : IcebergType) : Prop := value.datatype = known type

theorem ofType_of_decimalUnchanged {value : Value} {type : IcebergType}
    (unchanged : value.decimalUnchanged type = true) : value.OfType type := by
  unfold decimalUnchanged at unchanged
  split at unchanged
  · rw [OfType, datatype, of_decide_eq_true unchanged, known]
  · cases unchanged

/-- Values of a type have one datatype. -/
theorem OfType.datatype_eq {a b : Value} {type : IcebergType} (first : a.OfType type)
    (second : b.OfType type) : a.datatype = b.datatype := first.trans second.symm

end Value

/-! ### The operations of a manifest -/

/-- The Avro library and the operations that partition summaries do not go through. -/
class SummaryLibraries where
  manifest : ManifestLibraries

/-- The operations of `Value` that `update_partitions` and `promote_partition_to_types` use. -/
instance [libraries : SummaryLibraries] : ManifestLibraries where
  parseStr := libraries.manifest.parseStr
  store := libraries.manifest.store
  others := { libraries.manifest.others with
    decimalUnchanged := Value.decimalUnchanged
    variantCmp := Value.variantCmp
    isFloating := Value.isFloating
    isNan := Value.isNan }

/-! ### One summary -/

/-- The bounds of a summary are of a type. -/
structure FieldSummary.OfType (summary : FieldSummary Value) (type : IcebergType) : Prop where
  lower : ∀ bound, summary.lowerBound = some bound → bound.OfType type
  upper : ∀ bound, summary.upperBound = some bound → bound.OfType type

/-- What a summary says holds of one cell. -/
structure FieldSummary.Covers (summary : FieldSummary Value) (cell : Option Value) : Prop where
  null : cell = none → summary.containsNull = true
  nan : ∀ value, cell = some value → value.isNan = true → summary.containsNan = some true
  between : ∀ value, cell = some value → value.isNan = false →
    ∃ lower upper, summary.lowerBound = some lower ∧ summary.upperBound = some upper ∧
      Value.AtMost lower value ∧ Value.AtMost value upper

theorem FieldSummary.empty_ofType (type : IcebergType) :
    (FieldSummary.empty : FieldSummary Value).OfType type := by
  constructor
  · exact fun _ absent => nomatch absent
  · exact fun _ absent => nomatch absent

section Summary

variable [SummaryLibraries]

/-- The new lower bound is below the value and the old one. -/
theorem lowerOf_spec {value : Value} {type : IcebergType} (typed : value.OfType type)
    {bound : Option Value} (bounds : ∀ current, bound = some current → current.OfType type) :
    ∃ lower, lowerOf value bound = some lower ∧ lower.OfType type ∧ Value.AtMost lower value ∧
      ∀ current, bound = some current → Value.AtMost lower current := by
  cases bound with
  | none => exact ⟨value, rfl, typed, .refl value, fun _ absent => nomatch absent⟩
  | some current =>
    have currentTyped := bounds current rfl
    obtain ⟨order, found, decides⟩ := Value.variantCmp_decides (typed.datatype_eq currentTyped)
    have run : lowerOf value (some current) =
        if Value.variantCmp value current = some .lt then some value else some current := rfl
    rw [run, found]
    by_cases less : order = .lt
    · rw [if_pos (congrArg some less)]
      refine ⟨value, rfl, typed, .refl value, ?_⟩
      intro other same
      cases same
      exact decides.less less
    · rw [if_neg fun same => less (Option.some_inj.mp same)]
      refine ⟨current, rfl, currentTyped, decides.notLess less, ?_⟩
      intro other same
      cases same
      exact .refl current

/-- The new upper bound is above the value and the old one. -/
theorem upperOf_spec {value : Value} {type : IcebergType} (typed : value.OfType type)
    {bound : Option Value} (bounds : ∀ current, bound = some current → current.OfType type) :
    ∃ upper, upperOf value bound = some upper ∧ upper.OfType type ∧ Value.AtMost value upper ∧
      ∀ current, bound = some current → Value.AtMost current upper := by
  cases bound with
  | none => exact ⟨value, rfl, typed, .refl value, fun _ absent => nomatch absent⟩
  | some current =>
    have currentTyped := bounds current rfl
    obtain ⟨order, found, decides⟩ := Value.variantCmp_decides (typed.datatype_eq currentTyped)
    have run : upperOf value (some current) =
        if Value.variantCmp value current = some .gt then some value else some current := rfl
    rw [run, found]
    by_cases greater : order = .gt
    · rw [if_pos (congrArg some greater)]
      refine ⟨value, rfl, typed, .refl value, ?_⟩
      intro other same
      cases same
      exact decides.greater greater
    · rw [if_neg fun same => greater (Option.some_inj.mp same)]
      refine ⟨current, rfl, currentTyped, decides.notGreater greater, ?_⟩
      intro other same
      cases same
      exact .refl current

namespace FieldSummary

variable {summary : FieldSummary Value} {type : IcebergType}

/-- A NaN is noted, and changes no bound. -/
theorem record_nan {value : Value} (nan : value.isNan = true) :
    summary.record (some value) = { summary with containsNan := some true } :=
  if_pos nan

/-- A value that is no NaN moves the bounds. -/
theorem record_number {value : Value} (number : value.isNan = false) :
    summary.record (some value) = { summary with
      containsNan := if value.isFloating then some (summary.containsNan.getD false)
        else summary.containsNan
      lowerBound := lowerOf value summary.lowerBound
      upperBound := upperOf value summary.upperBound } :=
  if_neg (Bool.eq_false_iff.mp number)

/-- A summary that has recorded a cell covers it and what it covered before. -/
theorem record_covers (bounds : summary.OfType type) {cell : Option Value}
    (typed : ∀ value, cell = some value → value.OfType type) :
    (summary.record cell).OfType type ∧ (summary.record cell).Covers cell ∧
      ∀ other, summary.Covers other → (summary.record cell).Covers other := by
  cases cell with
  | none =>
    refine ⟨⟨bounds.lower, bounds.upper⟩, ⟨fun _ => rfl, ?_, ?_⟩, ?_⟩
    · exact fun _ absent => nomatch absent
    · exact fun _ absent => nomatch absent
    · exact fun other covered => ⟨fun _ => rfl, covered.nan, covered.between⟩
  | some value =>
    cases nan : value.isNan with
    | true =>
      rw [record_nan nan]
      refine ⟨⟨bounds.lower, bounds.upper⟩, ⟨(fun absent => nomatch absent), ?_, ?_⟩, ?_⟩
      · exact fun _ _ _ => rfl
      · intro other same number
        cases same
        rw [nan] at number
        cases number
      · exact fun other covered => ⟨covered.null, fun _ _ _ => rfl, covered.between⟩
    | false =>
      rw [record_number nan]
      obtain ⟨lower, lowerFound, lowerTyped, belowValue, belowLower⟩ :=
        lowerOf_spec (typed value rfl) bounds.lower
      obtain ⟨upper, upperFound, upperTyped, aboveValue, aboveUpper⟩ :=
        upperOf_spec (typed value rfl) bounds.upper
      refine ⟨⟨?_, ?_⟩, ⟨(fun absent => nomatch absent), ?_, ?_⟩, ?_⟩
      · intro bound same
        rw [← Option.some_inj.mp (lowerFound.symm.trans same)]
        exact lowerTyped
      · intro bound same
        rw [← Option.some_inj.mp (upperFound.symm.trans same)]
        exact upperTyped
      · intro other same number
        cases same
        rw [nan] at number
        cases number
      · intro other same _
        cases same
        exact ⟨lower, upper, lowerFound, upperFound, belowValue, aboveValue⟩
      · intro other covered
        refine ⟨covered.null, ?_, ?_⟩
        · intro number same isNan
          have noted := covered.nan number same isNan
          dsimp only
          rw [noted]
          split <;> rfl
        · intro number same isNumber
          obtain ⟨first, last, firstFound, lastFound, low, high⟩ :=
            covered.between number same isNumber
          exact ⟨lower, upper, lowerFound, upperFound, (belowLower first firstFound).trans low,
            high.trans (aboveUpper last lastFound)⟩

end FieldSummary

end Summary

/-! ### The summaries of a spec -/

/-- The values of a tuple in the columns of a spec are of the types of its fields. -/
def Struct.OfTypes (tuple : Struct Value) (fields : List PartitionField)
    (types : List IcebergType) : Prop :=
  List.Forall₂ (fun field type =>
    ∀ value, tuple.get field.name = some (some value) → value.OfType type) fields types

/-- What the summaries of a spec say holds of a tuple. -/
def SummariesCover (fields : List PartitionField) (summaries : List (FieldSummary Value))
    (tuple : Struct Value) : Prop :=
  List.Forall₂ (fun field summary =>
    ∃ cell, tuple.get field.name = some cell ∧ summary.Covers cell) fields summaries

/-- Summaries of the types of a spec that cover tuples. -/
structure Summarize (fields : List PartitionField) (types : List IcebergType)
    (summaries : List (FieldSummary Value)) (tuples : List (Struct Value)) : Prop where
  types : List.Forall₂ FieldSummary.OfType summaries types
  covers : ∀ tuple ∈ tuples, SummariesCover fields summaries tuple

theorem Summarize.empty {fields : List PartitionField} {types : List IcebergType}
    (columns : types.length = fields.length) :
    Summarize fields types (fields.map fun _ => FieldSummary.empty) [] where
  types := by
    rw [List.forall₂_iff_get]
    refine ⟨by rw [List.length_map, columns], ?_⟩
    intro i _ _
    rw [List.get_eq_getElem, List.getElem_map]
    exact FieldSummary.empty_ofType _
  covers _ absent := absurd absent List.not_mem_nil

section Update

variable [SummaryLibraries]

/-- A tuple is recorded in each of the summaries. -/
theorem updatePartitions_spec {tuple : Struct Value} {fields : List PartitionField}
    {types : List IcebergType} {summaries after : List (FieldSummary Value)}
    (run : updatePartitions tuple fields summaries = .ok after)
    (bounds : List.Forall₂ FieldSummary.OfType summaries types) (typed : tuple.OfTypes fields types) :
    List.Forall₂ FieldSummary.OfType after types ∧ SummariesCover fields after tuple ∧
      ∀ other, SummariesCover fields summaries other → SummariesCover fields after other := by
  unfold Struct.OfTypes at typed
  induction typed generalizing summaries after with
  | nil =>
    cases bounds
    cases run
    exact ⟨.nil, .nil, fun _ covered => covered⟩
  | cons here _ ih =>
    rename_i field type fields types _
    cases bounds with
    | cons first rest =>
      rename_i summary summaries
      unfold updatePartitions at run
      split at run
      · cases run
      · rename_i cell found
        obtain ⟨others, updates, same⟩ := bind_eq_ok.mp run
        cases same
        obtain ⟨types, covers, keeps⟩ := ih updates rest
        have values : ∀ value, cell = some value → value.OfType type :=
          fun value same => here value (found.trans (congrArg some same))
        obtain ⟨ofType, covered, kept⟩ := FieldSummary.record_covers first values
        refine ⟨.cons ofType types, .cons ⟨cell, found, covered⟩ covers, ?_⟩
        intro other before
        cases before with
        | cons head tail =>
          obtain ⟨cell', found', covered'⟩ := head
          exact .cons ⟨cell', found', kept cell' covered'⟩ (keeps other tail)

/-- Summaries that have recorded a tuple cover it as well. -/
theorem updatePartitions_summarize {tuple : Struct Value} {fields : List PartitionField}
    {types : List IcebergType} {summaries after : List (FieldSummary Value)}
    {tuples : List (Struct Value)} (run : updatePartitions tuple fields summaries = .ok after)
    (before : Summarize fields types summaries tuples) (typed : tuple.OfTypes fields types) :
    Summarize fields types after (tuples ++ [tuple]) := by
  obtain ⟨types, covers, keeps⟩ := updatePartitions_spec run before.types typed
  refine ⟨types, ?_⟩
  intro other member
  rcases List.mem_append.mp member with earlier | here
  · exact keeps other (before.covers other earlier)
  · rw [List.mem_singleton.mp here]
    exact covers

end Update

/-! ### Promotion -/

/-- The tuple `promote_partition_to_types` leaves. -/
def Struct.promoted [SummaryLibraries] (fields : List PartitionField) (types : List IcebergType)
    (tuple : Struct Value) : Except Error (Struct Value) :=
  (fields.zip types).foldlM DataFile.promotePartitionField tuple

theorem Value.promoteIceberg_ofType {value promoted : Value} {type : IcebergType}
    (run : value.promoteIceberg value.datatype type = .ok promoted) : promoted.OfType type := by
  unfold promoteIceberg at run
  split at run
  · rename_i same
    cases run
    rw [OfType, ← same]
    cases value <;> rfl
  · split at run
    · cases run
      rfl
    · cases run
      rfl
    · obtain ⟨micros, -, rfl⟩ := map_eq_ok.mp run
      rfl
    · obtain ⟨nanos, -, rfl⟩ := map_eq_ok.mp run
      rfl
    · rename_i decimal _ sourceScale _ targetScale source target
      split at run
      · rename_i scales
        cases run
        rw [← scales.1]
        exact congrArg known source
      · cases run
    · cases run

section Promote

variable [SummaryLibraries] {before after : Struct Value}

theorem promotePartitionField_spec {field : PartitionField} {type : IcebergType}
    (run : DataFile.promotePartitionField before (field, type) = .ok after) :
    (∀ value, after.get field.name = some (some value) → value.OfType type) ∧
      ∀ name, name ≠ field.name → after.get name = before.get name := by
  unfold DataFile.promotePartitionField at run
  split at run
  · cases run
  · rename_i found
    cases run
    refine ⟨?_, fun _ _ => rfl⟩
    intro value present
    rw [found] at present
    cases present
  · rename_i value found
    dsimp only at run found
    split at run
    · rename_i differs
      obtain ⟨promoted, promotes, rfl⟩ := map_eq_ok.mp run
      refine ⟨?_, ?_⟩
      · intro other present
        rw [Struct.get_set, if_pos ⟨rfl, by rw [found]; rfl⟩] at present
        cases present
        exact Value.promoteIceberg_ofType promotes
      · intro name other
        rw [Struct.get_set, if_neg fun same => other same.1]
    · rename_i same
      cases run
      refine ⟨?_, fun _ _ => rfl⟩
      intro other present
      rw [found] at present
      cases present
      rcases not_and_or.mp same with equal | unchanged
      · have datatype : value.datatype = type := not_not.mp equal
        rw [Value.OfType, ← datatype]
        cases value <;> rfl
      · exact Value.ofType_of_decimalUnchanged (not_not.mp unchanged)

/-- Promotion leaves the columns of other names alone. -/
theorem promoted_get {fields : List PartitionField} {types : List IcebergType}
    (run : before.promoted fields types = .ok after) {name : String}
    (other : name ∉ fields.map (·.name)) : after.get name = before.get name := by
  refine foldlM_invariant (fun tuple : Struct Value => tuple.get name = before.get name) ?_ run rfl
  intro column member tuple next kept promotes
  rw [(promotePartitionField_spec promotes).2 name ?_, kept]
  intro same
  apply other
  rw [same]
  exact List.mem_map_of_mem (List.of_mem_zip member).1

/-- With distinct names, a promoted tuple is of the types of its fields. -/
theorem Struct.promoted_ofTypes {fields : List PartitionField} {types : List IcebergType}
    (columns : types.length = fields.length) (distinct : (fields.map (·.name)).Nodup)
    (run : before.promoted fields types = .ok after) : after.OfTypes fields types := by
  induction fields generalizing types before with
  | nil =>
    rw [List.eq_nil_of_length_eq_zero columns]
    exact .nil
  | cons field fields ih =>
    cases types with
    | nil => cases columns
    | cons type types =>
      obtain ⟨middle, first, rest⟩ := foldlM_cons_eq_ok.mp run
      obtain ⟨fresh, distinct⟩ := List.nodup_cons.mp distinct
      refine .cons ?_ (ih (Nat.succ_inj.mp columns) distinct rest)
      rw [promoted_get rest fresh]
      exact (promotePartitionField_spec first).1

end Promote

/-! ### Manifests -/

/-- The partition tuples of entries. -/
def tuplesOf (entries : List (ManifestEntry Value)) : List (Struct Value) :=
  entries.map (·.dataFile.partition)

/-- A row without summaries is of an unpartitioned table, or has recorded nothing yet; else its
summaries cover the tuples. -/
def RowSummarizes (fields : List PartitionField) (types : List IcebergType)
    (partitions : Option (List (FieldSummary Value))) (tuples : List (Struct Value)) : Prop :=
  match partitions with
  | none => fields = [] ∨ tuples = []
  | some summaries => Summarize fields types summaries tuples

section Manifests

variable [SummaryLibraries] {metadata : TableMetadata} {fields : List PartitionField}
  {types : List IcebergType}

open ManifestWriter

variable {tuples : List (Struct Value)} {entry : ManifestEntry Value}

omit [SummaryLibraries] in
/-- The summaries an entry is recorded in cover what the row covered. -/
theorem RowSummarizes.getD {partitions : Option (List (FieldSummary Value))}
    (columns : types.length = fields.length) (before : RowSummarizes fields types partitions tuples) :
    Summarize fields types (partitions.getD (fields.map fun _ => FieldSummary.empty)) tuples := by
  cases partitions with
  | some summaries => exact before
  | none =>
    have empty := Summarize.empty columns
    refine ⟨empty.types, ?_⟩
    intro tuple member
    rcases before with unpartitioned | nothing
    · rw [unpartitioned]
      exact .nil
    · rw [nothing] at member
      cases member

variable {spec : PartitionSpec}

/-- `append` records the tuple of its entry. -/
theorem append_summarizes (current : metadata.defaultPartitionSpec = .ok spec)
    (columns : types.length = spec.fields.length) {writer after : ManifestWriter Value}
    (before : RowSummarizes spec.fields types writer.manifest.partitions tuples)
    (typed : entry.dataFile.partition.OfTypes spec.fields types)
    (run : append metadata writer entry = .ok after) :
    RowSummarizes spec.fields types after.manifest.partitions
      (tuples ++ [entry.dataFile.partition]) := by
  simp only [append, bind_eq_ok] at run
  obtain ⟨found, default, summaries, updates, written, -, run⟩ := run
  cases run
  cases current.symm.trans default
  exact updatePartitions_summarize updates (before.getD columns) typed

/-- Filtering writes an entry: it is live, and kept or a tombstone of an old spec. -/
def isRewritten (oldSpec : Bool) (filter : List String) (entry : ManifestEntry Value) : Bool :=
  entry.live && (oldSpec || !isNamed filter entry)

/-- The tuples of the entries that filtering writes, under the types they are promoted to. -/
def promotedTuples (spec : PartitionSpec) (types : List IcebergType) (oldSpec : Bool)
    (filter : List String) (entries : List (ManifestEntry Value)) : List (Struct Value) :=
  (tuplesOf (entries.filter (isRewritten oldSpec filter))).filterMap fun tuple =>
    (tuple.promoted spec.fields types).toOption

theorem promotedTuples_append_of_rewritten {oldSpec : Bool} {filter : List String}
    {entries : List (ManifestEntry Value)} (written : isRewritten oldSpec filter entry = true)
    {tuple : Struct Value}
    (promoted : entry.dataFile.partition.promoted spec.fields types = .ok tuple) :
    promotedTuples spec types oldSpec filter (entries ++ [entry]) =
      promotedTuples spec types oldSpec filter entries ++ [tuple] := by
  simp only [promotedTuples, tuplesOf, List.filter_append, List.filter_cons_of_pos written,
    List.filter_nil, List.map_append, List.map_cons, List.map_nil, List.filterMap_append,
    List.filterMap_cons, List.filterMap_nil, promoted, Except.toOption]

theorem promotedTuples_append_of_dropped {oldSpec : Bool} {filter : List String}
    {entries : List (ManifestEntry Value)} (dropped : isRewritten oldSpec filter entry = false) :
    promotedTuples spec types oldSpec filter (entries ++ [entry]) =
      promotedTuples spec types oldSpec filter entries := by
  simp only [promotedTuples, List.filter_append, List.filter_cons_of_neg (by simpa using dropped),
    List.filter_nil, List.append_nil]

/-- `writeRecorded` records the promoted tuple of its entry. -/
theorem writeRecorded_summarizes {context : FilterContext Value}
    (distinct : (context.writeSpec.fields.map (·.name)).Nodup) {writer after : ManifestWriter Value}
    {summaries : List (FieldSummary Value)}
    (partitions : writer.manifest.partitions = some summaries)
    (before : Summarize context.writeSpec.fields context.partitionTypes summaries tuples)
    (run : writeRecorded context writer entry = .ok after) :
    ∃ tuple later, entry.dataFile.partition.promoted context.writeSpec.fields
        context.partitionTypes = .ok tuple ∧ after.manifest.partitions = some later ∧
      Summarize context.writeSpec.fields context.partitionTypes later (tuples ++ [tuple]) := by
  simp only [writeRecorded, bind_eq_ok] at run
  obtain ⟨dataFile, promotes, later, updates, writes⟩ := run
  simp only [DataFile.promotePartitionToTypes, guard_eq_ok, bind_eq_ok] at promotes
  obtain ⟨columns, tuple, promoted, whole⟩ := promotes
  cases whole
  obtain ⟨-, stored, -, rfl⟩ := write_spec writes
  rw [partitions, Option.getD_some] at updates
  have typed := Struct.promoted_ofTypes (not_not.mp columns).symm distinct promoted
  exact ⟨tuple, later, promoted, rfl, updatePartitions_summarize updates before typed⟩

/-- What the filtering loop has recorded. -/
def Recorded (context : FilterContext Value) (done : List (ManifestEntry Value))
    (state : Rewrite Value) : Prop :=
  ∃ summaries, state.writer.manifest.partitions = some summaries ∧
    Summarize context.writeSpec.fields context.partitionTypes summaries
      (promotedTuples context.writeSpec context.partitionTypes context.oldSpec context.filter done)

/-- One turn of the filtering loop. -/
theorem fromExistingWithFilterStep_recorded {context : FilterContext Value}
    (distinct : (context.writeSpec.fields.map (·.name)).Nodup) {done : List (ManifestEntry Value)}
    {state after : Rewrite Value} (recorded : Recorded context done state)
    (run : fromExistingWithFilterStep context state entry = .ok after) :
    Recorded context (done ++ [entry]) after := by
  obtain ⟨summaries, partitions, before⟩ := recorded
  simp only [fromExistingWithFilterStep] at run
  split at run
  · rename_i gone
    cases run
    have dropped : isRewritten context.oldSpec context.filter entry = false := by
      simp [isRewritten, ManifestEntry.live, gone]
    refine ⟨summaries, partitions, ?_⟩
    rw [promotedTuples_append_of_dropped dropped]
    exact before
  · rename_i lives
    have live : entry.live = true := by simp [ManifestEntry.live, lives]
    obtain ⟨⟨later, file⟩, inherits, run⟩ := bind_eq_ok.mp run
    have path : file.filePath = entry.dataFile.filePath := by
      rw [inheritFirstRowId_file inherits]
    have same : file.partition = entry.dataFile.partition := by
      rw [inheritFirstRowId_file inherits]
    dsimp only at run
    split at run
    · rename_i named
      split at run
      · rename_i old
        obtain ⟨writer, records, run⟩ := bind_eq_ok.mp run
        cases run
        obtain ⟨tuple, later, promoted, row, covers⟩ :=
          writeRecorded_summarizes distinct partitions before records
        have written : isRewritten context.oldSpec context.filter entry = true := by
          simp [isRewritten, live, old]
        refine ⟨later, row, ?_⟩
        rw [promotedTuples_append_of_rewritten written (same ▸ promoted)]
        exact covers
      · rename_i current
        cases run
        have hit : isNamed context.filter entry = true :=
          decide_eq_true (path ▸ named)
        have dropped : isRewritten context.oldSpec context.filter entry = false := by
          simp [isRewritten, live, hit, current]
        refine ⟨summaries, partitions, ?_⟩
        rw [promotedTuples_append_of_dropped dropped]
        exact before
    · rename_i unnamed
      obtain ⟨writer, records, run⟩ := bind_eq_ok.mp run
      cases run
      obtain ⟨tuple, later, promoted, row, covers⟩ :=
        writeRecorded_summarizes distinct partitions before records
      have miss : isNamed context.filter entry = false :=
        decide_eq_false (path ▸ unnamed)
      have written : isRewritten context.oldSpec context.filter entry = true := by
        simp [isRewritten, live, miss]
      refine ⟨later, row, ?_⟩
      rw [promotedTuples_append_of_rewritten written (same ▸ promoted)]
      exact covers

/-- A writer as `ManifestWriter` begins it, the columns its summaries are about, and the tuples
they must cover: none in a new manifest; those of the kept entries, which the row of the source
covers already; the promoted ones of the entries that filtering writes. -/
inductive BegunOver (metadata : TableMetadata) : List PartitionField → List IcebergType →
    List (Struct Value) → ManifestWriter Value → Prop where
  | new {spec : PartitionSpec} {types : List IcebergType} {location : String} {snapshotId : Int}
      {avro : EntrySchema} {content : ManifestContent} {begun : ManifestWriter Value}
      (current : metadata.defaultPartitionSpec = .ok spec)
      (columns : types.length = spec.fields.length)
      (run : new location snapshotId avro metadata content = .ok begun) :
      BegunOver metadata spec.fields types [] begun
  | existing {spec : PartitionSpec} {types : List IcebergType} {entries : List (ManifestEntry Value)}
      {manifest : ManifestListEntry Value} {snapshotId : Int} {avro : EntrySchema}
      {begun : ManifestWriter Value} (current : metadata.defaultPartitionSpec = .ok spec)
      (columns : types.length = spec.fields.length)
      (covers : RowSummarizes spec.fields types manifest.partitions
        (tuplesOf (entries.filter (·.live))))
      (run : fromExisting entries manifest snapshotId avro metadata = .ok begun) :
      BegunOver metadata spec.fields types (tuplesOf (entries.filter (·.live))) begun
  | filtered {schema : Schema} {spec : PartitionSpec} {types : List IcebergType}
      {entries : List (ManifestEntry Value)} {manifest : ManifestListEntry Value}
      {filter : List String} {snapshotId : Int} {avro : EntrySchema}
      {source : Option (Schema × PartitionSpec)} {begun : ManifestWriter Value}
      {stats : FilteredManifestStats Value}
      (under : writeMetadata metadata source = .ok (schema, spec))
      (distinct : (spec.fields.map (·.name)).Nodup)
      (typing : spec.dataTypes schema.fields = .ok types)
      (run : fromExistingWithFilter entries manifest filter snapshotId avro metadata source =
        .ok (begun, stats)) :
      BegunOver metadata spec.fields types (promotedTuples spec types
        (manifest.partitionSpecId ≠ metadata.defaultSpecId) filter entries) begun

/-- The row of a writer covers what it was begun over. -/
theorem BegunOver.summarizes {begun : ManifestWriter Value}
    (begins : BegunOver metadata fields types tuples begun) :
    types.length = fields.length ∧ RowSummarizes fields types begun.manifest.partitions tuples := by
  cases begins with
  | new current columns run =>
    obtain ⟨-, -, row⟩ := new_spec run
    rw [row]
    exact ⟨columns, .inr rfl⟩
  | existing current columns covers run =>
    obtain ⟨stored, state, -, -, -, -, row⟩ := fromExisting_spec run
    rw [row]
    exact ⟨columns, covers⟩
  | filtered under distinct typing run =>
    simp only [fromExistingWithFilter, guard_eq_ok, bind_eq_ok] at run
    obtain ⟨-, ⟨schema, spec⟩, found, ⟨-, types, dataTypes, state, folded, run⟩⟩ := run
    cases run
    cases under.symm.trans found
    cases typing.symm.trans dataTypes
    have columns := length_mapM dataTypes
    refine ⟨columns, ?_⟩
    have recorded := foldlM_prefix_invariant (Recorded _)
      (fun done entry before after _ here stepped =>
        fromExistingWithFilterStep_recorded distinct here stepped) folded
      ⟨_, rfl, Summarize.empty columns⟩
    obtain ⟨summaries, partitions, covers⟩ := recorded
    show RowSummarizes _ _ state.writer.manifest.partitions _
    rw [partitions]
    exact covers

end Manifests

/-! ### A column of longs -/

/-- The plain Avro library. -/
@[reducible] def plainSummaries : SummaryLibraries := ⟨plainLibraries⟩

/-- A table of one `long` column, partitioned by it. -/
def columnTable : TableMetadata :=
  { longTable .v2 with
    schemas := AList.singleton 0 (columnSchema .long)
    partitionSpecs := AList.singleton 0 columnSpec }

/-- Three files: of 7, of null and of -2. -/
def columnEntries : List (ManifestEntry Value) :=
  [columnEntry (some (.longInt 7)), columnEntry none, columnEntry (some (.longInt (-2)))]

end IcebergRust

import IcebergRust.Spec.Coherence
import Mathlib.Algebra.Order.Field.Basic
import Mathlib.Algebra.Order.Field.Rat

/-!
# The order of all values

`Ord` of `Value` across its variants: by the variant, then as numbers, then as bytes.

* `Value.cmp_eq` is that order in one line, and the source of its laws.
* `AtMost.isLE` connects it with the order of the values of one type.
-/

namespace IcebergRust

open Interchange Lexicographic

namespace Value

/-- The number a value is ordered by: decimals as fractions, a `fixed` by its size. -/
def magnitude : Value → ℚ
  | .decimal value => value.mantissa / 10 ^ value.scale
  | .fixed size _ => size
  | value => value.number

/-- The texts are compared last. -/
def cmpText (a b : Value) : Ordering := compareOfLessAndEq a.text b.text

theorem compare_mantissas (a b : Decimal) :
    compare (a.mantissa * 10 ^ b.scale) (b.mantissa * 10 ^ a.scale) =
      compare (magnitude (.decimal a)) (magnitude (.decimal b)) := by
  have positive : ∀ scale : Nat, (0 : ℚ) < 10 ^ scale := fun scale => by positivity
  have less (a b : Decimal) : a.mantissa * 10 ^ b.scale < b.mantissa * 10 ^ a.scale ↔
      magnitude (.decimal a) < magnitude (.decimal b) := by
    rw [magnitude, magnitude, div_lt_div_iff₀ (positive _) (positive _)]
    norm_cast
  rcases lt_trichotomy (a.mantissa * 10 ^ b.scale) (b.mantissa * 10 ^ a.scale) with
    below | same | above
  · rw [compare_lt_iff_lt.mpr below, eq_comm, compare_lt_iff_lt]
    exact (less a b).mp below
  · rw [compare_eq_iff_eq.mpr same, eq_comm, compare_eq_iff_eq]
    apply le_antisymm
    · exact not_lt.mp fun more => absurd ((less b a).mpr more) same.not_gt
    · exact not_lt.mp fun more => absurd ((less a b).mpr more) same.not_lt
  · rw [compare_gt_iff_gt.mpr above, eq_comm, compare_gt_iff_gt]
    exact (less b a).mp above

theorem compare_map {α β : Type} [LinearOrder α] [LinearOrder β] {f : α → β} (mono : StrictMono f)
    (a b : α) : compare a b = compare (f a) (f b) := by
  rw [← cmp_eq_compare, ← cmp_eq_compare, mono.cmp_map_eq]

theorem cmpText_self (value : Value) : cmpText value value = .eq :=
  (compareOfLessAndEq_eq_eq List.le_refl List.not_le).mpr rfl

variable {a b : Value}

theorem cmp_of_variant_ne (differ : a.variant ≠ b.variant) :
    a.cmp b = compare a.variant b.variant := by
  cases a <;> cases b <;> first | exact absurd rfl differ | rfl

/-- A variant whose values have no text. -/
theorem cmp_eq_magnitudes {order : Ordering} (text : a.text = b.text)
    (magnitudes : order = compare a.magnitude b.magnitude) :
    order = (compare a.magnitude b.magnitude).then (cmpText a b) := by
  have texts : cmpText a b = .eq := by
    rw [cmpText, text]
    exact cmpText_self b
  rw [texts, magnitudes]
  cases compare a.magnitude b.magnitude <;> rfl

/-- A variant whose values are texts. -/
theorem cmp_eq_texts (magnitude : a.magnitude = b.magnitude) :
    cmpText a b = (compare a.magnitude b.magnitude).then (cmpText a b) := by
  rw [compare_eq_iff_eq.mpr magnitude]
  rfl

theorem cmp_of_variant_eq (same : a.variant = b.variant) :
    a.cmp b = (compare a.magnitude b.magnitude).then (cmpText a b) := by
  cases a <;> cases b <;> try (cases same; done)
  case boolean.boolean a b => cases a <;> cases b <;> rfl
  case decimal.decimal a b => exact cmp_eq_magnitudes rfl (compare_mantissas a b)
  case string.string => exact @cmp_eq_texts (.string _) (.string _) rfl
  case binary.binary => exact @cmp_eq_texts (.binary _) (.binary _) rfl
  case fixed.fixed size bytes size' bytes' =>
    show (compare size size').then _ = _
    rw [compare_map (Nat.strictMono_cast (α := ℚ)) size size']
    rfl
  case uuid.uuid a b =>
    refine cmp_eq_magnitudes rfl ?_
    exact (compare_map Nat.strictMono_cast a.toNat b.toNat).trans
      (compare_map (Int.cast_strictMono (R := ℚ)) a.toNat b.toNat)
  all_goals exact cmp_eq_magnitudes rfl (compare_map (Int.cast_strictMono (R := ℚ)) _ _)

/-- By the variant, then by the magnitude, then by the text. -/
theorem cmp_eq :
    cmp = compareLex (compareOn variant) (compareLex (compareOn magnitude) cmpText) := by
  funext a b
  show a.cmp b = (compare a.variant b.variant).then
    ((compare a.magnitude b.magnitude).then (cmpText a b))
  by_cases same : a.variant = b.variant
  · rw [cmp_of_variant_eq same, compare_eq_iff_eq.mpr same]
    rfl
  · rw [cmp_of_variant_ne same]
    rcases lt_or_gt_of_ne same with less | more
    · rw [compare_lt_iff_lt.mpr less]
      rfl
    · rw [compare_gt_iff_gt.mpr more]
      rfl

instance : Std.TransCmp cmpText := by
  let _ : Ord (List UInt8) := ⟨fun a b => compareOfLessAndEq a b⟩
  have texts : Std.TransOrd (List UInt8) :=
    .compareOfLessAndEq_of_antisymm_of_trans_of_total_of_not_le List.le_antisymm List.le_trans
      List.le_total List.not_le
  exact inferInstanceAs (Std.TransCmp (compareOn text))

instance : Std.TransCmp cmp := by
  rw [cmp_eq]
  infer_instance

theorem isLE_total (a b : Value) : (a.cmp b).isLE ∨ (b.cmp a).isLE := by
  by_cases above : a.cmp b = .gt
  · refine .inr ?_
    rw [Std.OrientedCmp.lt_of_gt above]
    rfl
  · exact .inl (Ordering.isLE_iff_ne_gt.mpr above)

theorem variant_eq_of_datatype (type : a.datatype = b.datatype) : a.variant = b.variant := by
  cases a <;> cases b <;> first | rfl | cases type

/-- Of values of one type the magnitude is as the number. -/
theorem magnitude_of_number (type : a.datatype = b.datatype) :
    (a.number < b.number → a.magnitude < b.magnitude) ∧
      (a.number = b.number → a.magnitude = b.magnitude) := by
  cases a <;> cases b <;> try (cases type; done)
  case decimal.decimal a b =>
    have scale : a.scale = b.scale := by
      simp only [datatype, IcebergType.primitive.injEq, PrimitiveType.decimal.injEq, true_and]
        at type
      exact type
    have positive : (0 : ℚ) < 10 ^ b.scale := by positivity
    simp only [number, magnitude, scale]
    constructor
    · intro less
      exact div_lt_div_of_pos_right (Int.cast_lt.mpr less) positive
    · intro same
      rw [same]
  case fixed.fixed =>
    cases type
    exact ⟨fun less => absurd less (lt_irrefl _), fun _ => rfl⟩
  all_goals exact ⟨fun less => Int.cast_lt.mpr less, fun same => congrArg Int.cast same⟩

/-- The order of the values of one type. -/
theorem AtMost.isLE (less : AtMost a b) : (a.cmp b).isLE := by
  obtain ⟨type, order⟩ := less
  obtain ⟨below, equal⟩ := magnitude_of_number type
  rw [cmp_of_variant_eq (variant_eq_of_datatype type)]
  rcases order with number | ⟨number, text⟩
  · rw [compare_lt_iff_lt.mpr (below number)]
    rfl
  · rw [compare_eq_iff_eq.mpr (equal number)]
    show (compareOfLessAndEq a.text b.text).isLE = true
    rw [Ordering.isLE_iff_ne_gt,
      compareOfLessAndEq_eq_gt List.le_antisymm List.le_total List.not_le]
    exact List.not_lt.mpr text

end Value

end IcebergRust

import IcebergRust.Arrow.Transform
import IcebergRust.Lib.Observation
import IcebergRust.Spec.TransformLaw

/-!
# Array transforms and value transforms

What a slot of an array is as a `Value` (`DataType.read`), and that `transform_arrow` makes of every
slot what `Value::transform` makes of its value.

* `transformSlot_agrees` is one slot: both fail, or both give the same value.
* `transformArrow_agrees` is the array.  Its failures are those of its values, but for the check of
  the bucket width, which comes before any slot.
-/

namespace IcebergRust.Arrow

open Fallible Observation

/-- The value a slot holds, for the types that Iceberg types are read from; `other` reads the slots
of the types that no transform but the identity looks into. -/
def DataType.read (other : String → String → Value) :
    (type : DataType) → Option (type.Native → Value)
  | .int16 => some fun i : BitVec 16 => .int (i.signExtend 32)
  | .int32 => some Value.int
  | .int64 => some Value.longInt
  | .date32 => some Value.date
  | .time32Millisecond => none
  | .time64Microsecond => some Value.time
  | .timestampMicrosecond none => some Value.timestamp
  | .timestampMicrosecond (some zone) =>
    if zone = "UTC" ∨ zone = "+00:00" then some Value.timestampTZ else none
  | .timestampNanosecond none => some Value.timestampNano
  | .timestampNanosecond (some zone) =>
    if zone = "UTC" ∨ zone = "+00:00" then some Value.timestampTZNano else none
  | .utf8 => some Value.string
  | .other name => some (other name)

/-- Time zones of arrow: those of UTC are read as UTC. -/
structure Kernels.Utc (kernels : Kernels) : Prop where
  name : kernels.zone "UTC" = some id
  offset : kernels.zone "+00:00" = some id

/-- The date of a value, if it has one, is in the calendar. -/
def Kernels.Dated (kernels : Kernels) (value : Value) : Prop :=
  ∀ day, value.calendarDay = some day → ∃ found, kernels.yearMonth day = some found

/-- A slot and a value fail both, or the slot holds the value. -/
def Agrees {α : Type} (read : α → Value) (slot : Except ArrowError (Option α))
    (value : Except Error Value) : Prop :=
  (∃ kept, slot = .ok (some kept) ∧ value = .ok (read kept)) ∨
    (∃ e, slot = .error e) ∧ ∃ e, value = .error e

variable {kernels : Kernels} {other : String → String → Value}

/-- The bucket width is out of range. -/
def InvalidWidth : Transform → Prop
  | .bucket width => width = 0 ∨ 2147483647 < width
  | _ => False

variable {timezone : Option String} {f : BitVec 64 → Value} {type : DataType}

theorem clock_eq (utc : kernels.Utc)
    (reads : (DataType.timestampMicrosecond timezone).read other = some f) :
    kernels.clock timezone = .ok id := by
  cases timezone with
  | none => rfl
  | some zone =>
    have named : zone = "UTC" ∨ zone = "+00:00" := by
      by_contra others
      rw [DataType.read, if_neg others] at reads
      cases reads
    rcases named with rfl | rfl
    · rw [Kernels.clock, utc.name]
    · rw [Kernels.clock, utc.offset]

open Value

/-- What microseconds are read as, with and without a time zone. -/
theorem read_micros (reads : (DataType.timestampMicrosecond timezone).read other = some f) :
    f = timestamp ∨ f = timestampTZ := by
  cases timezone with
  | none => exact .inl (Option.some.inj reads).symm
  | some zone =>
    rw [DataType.read] at reads
    split_ifs at reads
    exact .inr (Option.some.inj reads).symm

theorem read_nanos (reads : (DataType.timestampNanosecond timezone).read other = some f) :
    f = timestampNano ∨ f = timestampTZNano := by
  cases timezone with
  | none => exact .inl (Option.some.inj reads).symm
  | some zone =>
    rw [DataType.read] at reads
    split_ifs at reads
    exact .inr (Option.some.inj reads).symm

theorem agrees_truncate {bits : Nat} (wrap : BitVec bits → Value) (i width : BitVec bits) :
    Agrees wrap (truncateSlot width (some i)) ((truncateInteger i width).map wrap) := by
  cases truncated : truncateInteger i width with
  | ok kept => exact .inl ⟨kept, by rw [truncateSlot, truncated], rfl⟩
  | error e => exact .inr ⟨⟨_, by rw [truncateSlot, truncated]⟩, ⟨_, rfl⟩⟩

/-- The bucket of the bytes of a value. -/
theorem transform_bucket {width : Nat} (valid : ¬ InvalidWidth (.bucket width)) (value : Value) :
    value.transform kernels.toLibraries (.bucket width) =
      .ok (.int (bucket kernels value.bucketBytes width)) := by
  have within : ¬ (width = 0 ∨ 2147483647 < width) := valid
  rw [transform, if_neg within]
  rfl

/-- The years of a day of the calendar. -/
theorem agrees_years {value : Value} {day : Int} (days : value.calendarDay = some day)
    (dated : kernels.Dated value) {α : Type} {date : α → Int} {x : α} (same : date x = day) :
    Agrees int (dateParts kernels datepartToYears date (some x))
      (value.transform kernels.toLibraries .year) := by
  obtain ⟨found, known⟩ := dated day days
  refine .inl ⟨datepartToYears found.1 (found.2 + 1), ?_, ?_⟩
  · rw [dateParts, Option.bind_some, same, known, Option.map_some]
  · rw [transform, days]
    exact map_eq_ok.mpr ⟨found, calendar_eq_ok.mpr known, rfl⟩

/-- The months of a day of the calendar, which arrow counts from one. -/
theorem agrees_months {value : Value} {day : Int} (days : value.calendarDay = some day)
    (dated : kernels.Dated value) {α : Type} {date : α → Int} {x : α} (same : date x = day) :
    Agrees int (dateParts kernels datepartToMonths date (some x))
      (value.transform kernels.toLibraries .month) := by
  obtain ⟨found, known⟩ := dated day days
  refine .inl ⟨datepartToMonths found.1 (found.2 + 1), ?_, ?_⟩
  · rw [dateParts, Option.bind_some, same, known, Option.map_some]
  · rw [transform, days]
    refine map_eq_ok.mpr ⟨found, calendar_eq_ok.mpr known, ?_⟩
    exact congrArg (fun count => int (BitVec.ofInt 32 count)) (by omega)

/-- The days or the hours of a timestamp in microseconds. -/
theorem agrees_units {value : Value} {micros : BitVec 64}
    (days : value.calendarDay = some (micros.toInt / 86400000000)) (dated : kernels.Dated value)
    (unit : Int) :
    Agrees int (unary (unitsSince unit) (some micros))
      (unitsOf kernels.toLibraries micros.toInt unit) := by
  obtain ⟨found, known⟩ := dated _ days
  refine .inl ⟨unitsSince unit micros, rfl, ?_⟩
  exact unitsOf_eq_ok.mpr ⟨found, known, rfl⟩

variable {transform : Transform}

variable {kernel : SlotKernel type}

/-- A transform of a slot is that of its value. -/
theorem transformSlot_agrees (utc : kernels.Utc) {f : type.Native → Value}
    (reads : type.read other = some f) (whole : type = .int16 → transform = .identity)
    (valid : ¬ InvalidWidth transform) (run : transformSlot kernels type transform = .ok kernel) :
    ∃ g, kernel.1.read other = some g ∧ ∀ x, kernels.Dated (f x) →
      Agrees g (kernel.2 (some x)) ((f x).transform kernels.toLibraries transform) := by
  cases transform with
  | identity =>
    obtain rfl := Except.ok.inj run
    exact ⟨f, reads, fun x _ => .inl ⟨x, rfl, rfl⟩⟩
  | bucket width =>
    have hashes : ∀ value : Value, ∀ bytes, value.bucketBytes = bytes →
        Agrees int (.ok (some (bucket kernels bytes width)))
          (value.transform kernels.toLibraries (.bucket width)) := by
      rintro value _ rfl
      exact .inl ⟨_, rfl, transform_bucket valid value⟩
    cases type with
    | int32 | int64 | date32 | time64Microsecond | utf8 =>
      obtain rfl := Except.ok.inj run
      obtain rfl := Option.some.inj reads
      exact ⟨int, rfl, fun x _ => hashes _ _ rfl⟩
    | timestampMicrosecond timezone =>
      obtain rfl := Except.ok.inj run
      refine ⟨int, rfl, fun x _ => ?_⟩
      rcases read_micros reads with rfl | rfl <;> exact hashes _ _ rfl
    | timestampNanosecond timezone =>
      obtain rfl := Except.ok.inj run
      refine ⟨int, rfl, fun x _ => ?_⟩
      rcases read_nanos reads with rfl | rfl <;> exact hashes _ _ rfl
    | time32Millisecond => cases reads
    | int16 | other => cases run
  | truncate width =>
    cases type with
    | int16 => cases whole rfl
    | int32 =>
      obtain rfl := Except.ok.inj run
      obtain rfl := Option.some.inj reads
      exact ⟨_, rfl, fun x _ => agrees_truncate int x _⟩
    | int64 =>
      obtain rfl := Except.ok.inj run
      obtain rfl := Option.some.inj reads
      exact ⟨_, rfl, fun x _ => agrees_truncate longInt x _⟩
    | _ => cases run
  | year =>
    cases type with
    | date32 =>
      obtain rfl := Except.ok.inj run
      obtain rfl := Option.some.inj reads
      exact ⟨_, rfl, fun x dated => agrees_years rfl dated rfl⟩
    | timestampMicrosecond timezone =>
      rw [transformSlot, zonedParts, clock_eq utc reads] at run
      obtain rfl := Except.ok.inj run
      refine ⟨int, rfl, fun x dated => ?_⟩
      rcases read_micros reads with rfl | rfl
      · exact agrees_years rfl dated rfl
      · exact agrees_years rfl dated rfl
    | timestampNanosecond timezone =>
      obtain rfl := Except.ok.inj run
      refine ⟨int, rfl, fun x dated => ?_⟩
      rcases read_nanos reads with rfl | rfl
      · exact agrees_years rfl dated rfl
      · exact agrees_years rfl dated rfl
    | _ => cases run
  | month =>
    cases type with
    | date32 =>
      obtain rfl := Except.ok.inj run
      obtain rfl := Option.some.inj reads
      exact ⟨_, rfl, fun x dated => agrees_months rfl dated rfl⟩
    | timestampMicrosecond timezone =>
      rw [transformSlot, zonedParts, clock_eq utc reads] at run
      obtain rfl := Except.ok.inj run
      refine ⟨int, rfl, fun x dated => ?_⟩
      rcases read_micros reads with rfl | rfl
      · exact agrees_months rfl dated rfl
      · exact agrees_months rfl dated rfl
    | timestampNanosecond timezone =>
      obtain rfl := Except.ok.inj run
      refine ⟨int, rfl, fun x dated => ?_⟩
      rcases read_nanos reads with rfl | rfl
      · exact agrees_months rfl dated rfl
      · exact agrees_months rfl dated rfl
    | _ => cases run
  | day =>
    cases type with
    | date32 =>
      obtain rfl := Except.ok.inj run
      obtain rfl := Option.some.inj reads
      exact ⟨int, rfl, fun x _ => .inl ⟨x, rfl, rfl⟩⟩
    | timestampMicrosecond timezone =>
      obtain rfl := Except.ok.inj run
      refine ⟨int, rfl, fun x dated => ?_⟩
      rcases read_micros reads with rfl | rfl
      · exact agrees_units rfl dated _
      · exact agrees_units rfl dated _
    | timestampNanosecond timezone =>
      obtain rfl := Except.ok.inj run
      refine ⟨int, rfl, fun x _ => ?_⟩
      rcases read_nanos reads with rfl | rfl <;> exact .inl ⟨_, rfl, rfl⟩
    | _ => cases run
  | hour =>
    cases type with
    | timestampMicrosecond timezone =>
      obtain rfl := Except.ok.inj run
      refine ⟨int, rfl, fun x dated => ?_⟩
      rcases read_micros reads with rfl | rfl
      · exact agrees_units rfl dated _
      · exact agrees_units rfl dated _
    | timestampNanosecond timezone =>
      obtain rfl := Except.ok.inj run
      refine ⟨int, rfl, fun x _ => ?_⟩
      rcases read_nanos reads with rfl | rfl <;> exact .inl ⟨_, rfl, rfl⟩
    | _ => cases run
  | void => cases type <;> cases run

/-! ### Arrays -/

/-- A run that returns an error or panics. -/
def Fails {ε α : Type} (run : Except ε α) : Prop := ∃ e, run = .error e

theorem not_fails {ε α : Type} {run : Except ε α} : ¬ Fails run ↔ ∃ a, run = .ok a := by
  cases run with
  | ok a => exact iff_of_true (fun failed => nomatch failed) ⟨a, rfl⟩
  | error e => exact iff_of_false (not_not_intro ⟨e, rfl⟩) nofun

/-- A width that is not cut to zero. -/
theorem ofNat_ne_zero {bits width : Nat} (positive : 0 < width) (unsigned : width < 2 ^ bits) :
    BitVec.ofNat bits width ≠ 0 := by
  intro zero
  have cut : width % 2 ^ bits = 0 := congrArg BitVec.toNat zero
  rw [Nat.mod_eq_of_lt unsigned] at cut
  exact positive.ne' cut

/-- What a truncation does to a null: nothing, or it divides by zero. -/
theorem truncateSlot_null {bits : Nat} (width : BitVec bits) :
    (∀ slot, truncateSlot width none = .ok slot → slot = none) ∧
      (width ≠ 0 → truncateSlot width none = .ok none) := by
  constructor
  · intro slot run
    rw [truncateSlot] at run
    split_ifs at run
    exact (Except.ok.inj run).symm
  · exact fun nonzero => if_neg nonzero

/-- Nothing becomes of a null, and only a truncation by zero fails on it. -/
theorem null_slot (run : transformSlot kernels type transform = .ok kernel) :
    (∀ slot, kernel.2 none = .ok slot → slot = none) ∧
      ((type = .int16 → transform = .identity) →
        (∀ width, transform = .truncate width → 0 < width ∧ width < 2 ^ 32) →
          kernel.2 none = .ok none) := by
  have kept : kernel.2 none = .ok none → (∀ slot, kernel.2 none = .ok slot → slot = none) ∧
      ((type = .int16 → transform = .identity) →
        (∀ width, transform = .truncate width → 0 < width ∧ width < 2 ^ 32) →
          kernel.2 none = .ok none) := fun same =>
    ⟨fun slot run => (Except.ok.inj (same.symm.trans run)).symm, fun _ _ => same⟩
  cases transform with
  | truncate width =>
    cases type with
    | int16 =>
      obtain rfl := Except.ok.inj run
      exact ⟨(truncateSlot_null _).1, fun whole => nomatch whole rfl⟩
    | int32 =>
      obtain rfl := Except.ok.inj run
      refine ⟨(truncateSlot_null _).1, fun _ widths => (truncateSlot_null _).2 ?_⟩
      obtain ⟨positive, unsigned⟩ := widths width rfl
      exact ofNat_ne_zero positive unsigned
    | int64 =>
      obtain rfl := Except.ok.inj run
      refine ⟨(truncateSlot_null _).1, fun _ widths => (truncateSlot_null _).2 ?_⟩
      obtain ⟨positive, unsigned⟩ := widths width rfl
      exact ofNat_ne_zero positive (unsigned.trans (by decide))
    | _ => cases run
  | year =>
    cases type with
    | timestampMicrosecond timezone =>
      obtain ⟨_, zoned, rfl⟩ := map_eq_ok.mp run
      obtain ⟨clock, _, rfl⟩ := map_eq_ok.mp zoned
      exact kept rfl
    | _ => cases run <;> exact kept rfl
  | month =>
    cases type with
    | timestampMicrosecond timezone =>
      obtain ⟨_, zoned, rfl⟩ := map_eq_ok.mp run
      obtain ⟨clock, _, rfl⟩ := map_eq_ok.mp zoned
      exact kept rfl
    | _ => cases run <;> exact kept rfl
  | _ => cases type <;> cases run <;> exact kept rfl

/-- A transform that is supported has a kernel, when the time zone is known. -/
theorem supported_slot (utc : kernels.Utc) {f : type.Native → Value}
    (reads : type.read other = some f) (supported : transformSlot kernels type transform ≠
      .error (.computeError "Failed to perform transform for datatype")) :
    ∃ kernel, transformSlot kernels type transform = .ok kernel := by
  cases type with
  | timestampMicrosecond timezone =>
    have clock := clock_eq utc reads
    cases transform with
    | year | month => exact ⟨_, by rw [transformSlot, zonedParts, clock]; rfl⟩
    | identity | bucket | day | hour => exact ⟨_, rfl⟩
    | truncate | void => exact absurd rfl supported
  | _ => cases transform <;> first | exact ⟨_, rfl⟩ | exact absurd rfl supported

/-- Numbers are not truncated to multiples of zero. -/
theorem truncate_zero (run : transformSlot kernels type (.truncate 0) = .ok kernel)
    (x : type.Native) : ∃ e, kernel.2 (some x) = .error e := by
  have zero : ∀ {bits : Nat} (i : BitVec bits),
      ∃ e, truncateSlot (BitVec.ofNat bits 0) (some i) = .error e := by
    intro bits i
    have panics : truncateInteger i (BitVec.ofNat bits 0) = .error (.panicked "rem_euclid") :=
      if_pos (.inl rfl)
    exact ⟨_, by rw [truncateSlot, panics]⟩
  cases type with
  | int16 | int32 | int64 =>
    obtain rfl := Except.ok.inj run
    exact zero x
  | _ => cases run

theorem bucketWidth_eq_ok : bucketWidth transform = .ok () ↔ ¬ InvalidWidth transform := by
  cases transform with
  | bucket width => exact guard_eq_ok.trans (and_iff_left rfl)
  | _ => exact iff_of_true rfl not_false

theorem transformArrow_eq_ok {array out : ArrayRef} {kernel : SlotKernel array.dataType}
    (valid : ¬ InvalidWidth transform)
    (selected : transformSlot kernels array.dataType transform = .ok kernel) :
    transformArrow kernels array transform = .ok out ↔
      ∃ values, array.values.mapM kernel.2 = .ok values ∧ ⟨kernel.1, values⟩ = out := by
  rw [transformArrow, bucketWidth_eq_ok.mpr valid, ok_bind, selected, ok_bind, bind_eq_ok]
  exact exists_congr fun values => Iff.rfl.and (Iff.of_eq (Except.ok.injEq _ _))

/-- Arrays and values are transformed alike. -/
theorem transformArrow_agrees (utc : kernels.Utc) {array : ArrayRef} {transform : Transform}
    {f : array.dataType.Native → Value} (reads : array.dataType.read other = some f)
    (whole : array.dataType = .int16 → transform = .identity)
    (supported : transformSlot kernels array.dataType transform ≠
      .error (.computeError "Failed to perform transform for datatype"))
    (unsigned : ∀ width, transform = .truncate width → width < 2 ^ 32)
    (nonzero : transform = .truncate 0 → array.values ≠ [] → ∃ x, some x ∈ array.values)
    (dated : ∀ x, some x ∈ array.values → kernels.Dated (f x)) :
    (Fails (transformArrow kernels array transform) ↔ InvalidWidth transform ∨
      ∃ x, some x ∈ array.values ∧ Fails ((f x).transform kernels.toLibraries transform)) ∧
    ∀ out, transformArrow kernels array transform = .ok out →
      ∃ g, out.dataType.read other = some g ∧ List.Forall₂ (Option.Rel fun x y =>
        (f x).transform kernels.toLibraries transform = .ok (g y)) array.values out.values := by
  obtain ⟨kernel, selected⟩ := supported_slot utc reads supported
  by_cases valid : InvalidWidth transform
  · have fails : Fails (transformArrow kernels array transform) := by
      rw [Fails, transformArrow]
      cases width : bucketWidth transform with
      | ok => exact absurd valid (bucketWidth_eq_ok.mp width)
      | error e => exact ⟨e, rfl⟩
    refine ⟨iff_of_true fails (.inl valid), fun out run => ?_⟩
    exact absurd fails (not_fails.mpr ⟨out, run⟩)
  obtain ⟨g, reads', agrees⟩ := transformSlot_agrees utc reads whole valid selected
  obtain ⟨nulls, kept⟩ := null_slot selected
  constructor
  · constructor
    · intro fails
      refine .inr ?_
      by_contra none
      have works : ∀ x, some x ∈ array.values → ∃ slot, kernel.2 (some x) = .ok slot := by
        intro x member
        rcases agrees x (dated x member) with ⟨y, run, -⟩ | ⟨-, failed⟩
        · exact ⟨_, run⟩
        · exact absurd ⟨x, member, failed⟩ none
      have widths : array.values ≠ [] →
          ∀ width, transform = .truncate width → 0 < width ∧ width < 2 ^ 32 := by
        rintro nonempty width rfl
        refine ⟨Nat.pos_of_ne_zero ?_, unsigned width rfl⟩
        rintro rfl
        obtain ⟨x, member⟩ := nonzero rfl nonempty
        obtain ⟨slot, run⟩ := works x member
        obtain ⟨e, failed⟩ := truncate_zero selected x
        cases run.symm.trans failed
      obtain ⟨values, mapped⟩ : ∃ values, array.values.mapM kernel.2 = .ok values := by
        refine mapM_total fun slot member => ?_
        cases slot with
        | none => exact ⟨_, kept whole (widths (List.ne_nil_of_mem member))⟩
        | some x => exact works x member
      exact not_fails.mpr ⟨_, (transformArrow_eq_ok valid selected).mpr ⟨values, mapped, rfl⟩⟩ fails
    · rintro (invalid | ⟨x, member, failed⟩)
      · exact absurd invalid valid
      · by_contra succeeds
        obtain ⟨out, run⟩ := not_fails.mp succeeds
        obtain ⟨values, mapped, -⟩ := (transformArrow_eq_ok valid selected).mp run
        obtain ⟨slot, -, made⟩ := exists_of_mem_forall₂ (mapM_eq_ok.mp mapped).flip member
        rcases agrees x (dated x member) with ⟨y, -, value⟩ | ⟨⟨e, slotFailed⟩, -⟩
        · exact not_fails.mpr ⟨_, value⟩ failed
        · cases made.symm.trans slotFailed
  · intro out run
    obtain ⟨values, mapped, rfl⟩ := (transformArrow_eq_ok valid selected).mp run
    refine ⟨g, reads', forall₂_imp_left ?_ (mapM_eq_ok.mp mapped)⟩
    intro slot member slot' made
    cases slot with
    | none => exact nulls slot' made ▸ .none
    | some x =>
      rcases agrees x (dated x member) with ⟨y, run, value⟩ | ⟨⟨e, failed⟩, -⟩
      · cases made.symm.trans run
        exact .some value
      · cases made.symm.trans failed

/-- Libraries with the calendar of `chrono` and the time zones of UTC. -/
def utcKernels (murmur3 : List UInt8 → BitVec 32) : Kernels where
  murmur3 := murmur3
  yearMonth := Value.chronoCalendar
  zone name := if name = "UTC" ∨ name = "+00:00" then some id else none

/-- The day before 1970, and a null. -/
def lastOfDecember : ArrayRef := ⟨.date32, [some (-1#32), none]⟩

theorem transformArrow_agrees_dates :
    (Fails (transformArrow (utcKernels fun _ => 0) lastOfDecember .year) ↔
      InvalidWidth .year ∨ ∃ x : BitVec 32, some x ∈ lastOfDecember.values ∧
        Fails ((Value.date x).transform (utcKernels fun _ => 0).toLibraries .year)) ∧
    ∀ out, transformArrow (utcKernels fun _ => 0) lastOfDecember .year = .ok out →
      ∃ g, out.dataType.read (fun _ => .string) = some g ∧
        List.Forall₂ (Option.Rel fun x y => (Value.date x).transform
          (utcKernels fun _ => 0).toLibraries .year = .ok (g y))
            lastOfDecember.values out.values := by
  refine @transformArrow_agrees (utcKernels fun _ => 0) (fun _ => .string) ⟨rfl, rfl⟩ lastOfDecember
    .year Value.date rfl nofun nofun nofun nofun ?_
  intro x member day same
  rcases List.mem_cons.mp member with here | later
  · cases here
    cases same
    exact ⟨_, Value.year_known rfl (by decide)⟩
  · cases List.mem_singleton.mp later

/-- A bucket width is checked before any slot. -/
theorem bucket_zero_nulls :
    Fails (transformArrow (utcKernels fun _ => 0) ⟨.int32, [none]⟩ (.bucket 0)) ∧
      ¬ ∃ x : BitVec 32, some x ∈ [none] ∧
        Fails ((Value.int x).transform (utcKernels fun _ => 0).toLibraries (.bucket 0)) :=
  ⟨⟨_, rfl⟩, fun ⟨_, member, _⟩ => by simp at member⟩

end IcebergRust.Arrow

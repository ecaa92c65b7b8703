import IcebergRust.Arrow.Agreement

/-!
# The law of transforms on values and on arrays

Where `Value::transform` and `transform_arrow` truncate and count time as they should
(`transform_follows_iff`).  The array kernels count days and hours without the calendar, and go by
16 bits where the slots have as many.
-/

namespace IcebergRust.Arrow

open Fallible Observation Value Value

variable {kernels : Kernels} {other : String → String → Value}

/-- Values are transformed by the law, and in their order. -/
structure Lawful (libraries : Libraries) (transform : Transform) (u v : Value) : Prop where
  first : ∃ r, u.transform libraries transform = .ok r ∧ Follows transform u r
  second : ∃ r, v.transform libraries transform = .ok r ∧ Follows transform v r
  mono : ∀ ru rv, AtMost u v → u.transform libraries transform = .ok ru →
    v.transform libraries transform = .ok rv → AtMost ru rv

/-- An array is transformed by the law, slot by slot, and its nulls are kept. -/
def ArrayLawful (kernels : Kernels) (other : String → String → Value) (transform : Transform)
    (array : ArrayRef) (f : array.dataType.Native → Value) : Prop :=
  ∃ out g, transformArrow kernels array transform = .ok out ∧ out.dataType.read other = some g ∧
    List.Forall₂ (Option.Rel fun x y => Follows transform (f x) (g y)) array.values out.values

/-- The value of a slot has a place for what its transform should be. -/
def ValueFits {α : Type} (transform : Transform) (f : α → Value) : Option α → Prop
  | none => True
  | some x => transform = .day ∨ Fits transform (f x)

/-- An integer of 16 bits has a place, and a null is not divided by zero. -/
def ShortFits (transform : Transform) (slot : Option (BitVec 16)) : Prop :=
  ∀ width, transform = .truncate width →
    match slot with
    | none => BitVec.ofNat 16 width ≠ 0
    | some i => FitsWord 15 width i.toInt

/-- A slot has a place for what its transform should be. -/
def SlotFits (transform : Transform) :
    (type : DataType) → (type.Native → Value) → Option type.Native → Prop
  | .int16, _, slot => ShortFits transform slot
  | _, f, slot => ValueFits transform f slot

/-! ### Slots -/

variable {α : Type}

theorem rel_some_iff {β : Type} {kernel : Except ArrowError (Option β)} {related : α → β → Prop}
    {x : α} : (∃ slot', kernel = .ok slot' ∧ Option.Rel related (some x) slot') ↔
      ∃ y, kernel = .ok (some y) ∧ related x y := by
  constructor
  · rintro ⟨slot', run, related⟩
    cases related with
    | some here => exact ⟨_, run, here⟩
  · rintro ⟨y, run, here⟩
    exact ⟨some y, run, .some here⟩

/-- What holds of the result of a slot holds of that of its value. -/
theorem agreement_iff {read : α → Value} {slot : Except ArrowError (Option α)}
    {value : Except Error Value} (agrees : Agrees read slot value) {holds : Value → Prop} :
    (∃ y, slot = .ok (some y) ∧ holds (read y)) ↔ ∃ r, value = .ok r ∧ holds r := by
  rcases agrees with ⟨y, rfl, rfl⟩ | ⟨⟨e, rfl⟩, e', rfl⟩
  · constructor
    · rintro ⟨_, same, held⟩
      cases same
      exact ⟨_, rfl, held⟩
    · rintro ⟨_, same, held⟩
      cases same
      exact ⟨y, rfl, held⟩
  · exact iff_of_false (fun ⟨_, same, _⟩ => nomatch same) fun ⟨_, same, _⟩ => nomatch same

theorem truncateSlot_iff {bits : Nat} {i width : BitVec bits} {holds : BitVec bits → Prop} :
    (∃ y, truncateSlot width (some i) = .ok (some y) ∧ holds y) ↔
      ∃ r, truncateInteger i width = .ok r ∧ holds r := by
  rw [truncateSlot]
  cases truncateInteger i width with
  | ok kept =>
    constructor
    · rintro ⟨_, same, held⟩
      cases same
      exact ⟨kept, rfl, held⟩
    · rintro ⟨_, same, held⟩
      cases same
      exact ⟨kept, rfl, held⟩
  | error e =>
    constructor
    · rintro ⟨_, same, -⟩
      cases same
    · rintro ⟨_, same, -⟩
      cases same

variable {transform : Transform}

/-- Years and months of a slot follow the law where those of its value do. -/
theorem parts_law (calendar : kernels.yearMonth = chronoCalendar) {value : Value} {day : Int}
    (days : value.calendarDay = some day) (parts : transform = .year ∨ transform = .month)
    {date : α → Int} {x : α} {count : Int → Int → BitVec 32} (same : date x = day)
    (agrees : kernels.Dated value → Agrees int (dateParts kernels count date (some x))
      (value.transform kernels.toLibraries transform)) :
    (∃ y, dateParts kernels count date (some x) = .ok (some y) ∧
      Follows transform value (.int y)) ↔ Fits transform value := by
  have accepted : accepts transform value.datatype = true := by
    obtain ⟨unit, ticks, -⟩ := calendarDay_eq_some.mp days
    rcases parts with rfl | rfl <;> exact Option.isSome_of_eq_some ticks
  rw [← @transform_law transform value kernels.toLibraries calendar
    (by rcases parts with rfl | rfl <;> exact nofun) accepted]
  cases known : kernels.yearMonth day with
  | some found =>
    refine @agreement_iff _ _ _ _ (agrees fun other days' => ?_) (Follows transform value)
    cases days.symm.trans days'
    exact ⟨found, known⟩
  | none =>
    refine iff_of_false ?_ ?_
    · rintro ⟨y, run, -⟩
      rw [dateParts, Option.bind_some, same, known] at run
      cases run
    · rintro ⟨r, run, -⟩
      rcases parts with rfl | rfl
      · rw [transform, days] at run
        obtain ⟨found, here, -⟩ := map_eq_ok.mp run
        cases known.symm.trans (calendar_eq_ok.mp here)
      · rw [transform, days] at run
        obtain ⟨found, here, -⟩ := map_eq_ok.mp run
        cases known.symm.trans (calendar_eq_ok.mp here)

/-- Nulls and values of slots apart. -/
theorem slot_iff {β : Type} {kernel : Option α → Except ArrowError (Option β)}
    {related : α → β → Prop} {fits : Option α → Prop}
    (null : (∃ slot', kernel none = .ok slot' ∧ Option.Rel related none slot') ↔ fits none)
    (each : ∀ x, (∃ y, kernel (some x) = .ok (some y) ∧ related x y) ↔ fits (some x))
    (slot : Option α) :
    (∃ slot', kernel slot = .ok slot' ∧ Option.Rel related slot slot') ↔ fits slot := by
  cases slot with
  | none => exact null
  | some x => exact rel_some_iff.trans (each x)

theorem parts_slot (calendar : kernels.yearMonth = chronoCalendar)
    (parts : transform = .year ∨ transform = .month) {f : α → Value} {date : α → Int}
    {count : Int → Int → BitVec 32} (days : ∀ x, (f x).calendarDay = some (date x))
    (agrees : ∀ x, kernels.Dated (f x) → Agrees int (dateParts kernels count date (some x))
      ((f x).transform kernels.toLibraries transform)) (slot : Option α) :
    (∃ slot', dateParts kernels count date slot = .ok slot' ∧
      Option.Rel (fun x y => Follows transform (f x) (.int y)) slot slot') ↔
        ValueFits transform f slot := by
  refine slot_iff ?_ (fun x => ?_) slot
  · exact iff_of_true ⟨none, rfl, .none⟩ trivial
  · refine (parts_law calendar (days x) parts rfl (agrees x)).trans (or_iff_right ?_).symm
    rcases parts with rfl | rfl <;> exact nofun

/-- A count of days is by the law. -/
theorem follows_days {value : Value} {day : Int} (days : value.calendarDay = some day) :
    Follows .day value (.int (BitVec.ofInt 32 day)) := by
  obtain ⟨unit, ticks, same⟩ := calendarDay_eq_some.mp days
  rw [follows_count rfl, toInt_ofCount.mpr (calendarDay_range days)]
  refine ⟨_, Option.map_eq_some_iff.mpr ⟨unit, ticks, rfl⟩, ?_⟩
  exact within_unit (dayUnit_pos ticks) same.ge (Int.lt_add_one_of_le same.le)

/-- A count of hours is by the law exactly if it is an `i32`. -/
theorem follows_hours {value : Value} {hour : Int} (hours : value.hours = some hour) :
    Follows .hour value (.int (BitVec.ofInt 32 hour)) ↔ Fits .hour value := by
  obtain ⟨unit, ticks, same⟩ := hours_eq_some.mp hours
  have within := within_unit (hourUnit_pos ticks) same.ge (Int.lt_add_one_of_le same.le)
  have found : unitStart value.datatype .hour = some fun count => count * unit :=
    Option.map_eq_some_iff.mpr ⟨unit, ticks, rfl⟩
  rw [follows_count rfl]
  constructor
  · rintro ⟨_, found', first, next⟩ hour' hours'
    cases found.symm.trans found'
    cases hours.symm.trans hours'
    exact toInt_ofCount.mp
      (unit_unique (unitStart_strictMono found) first next within.1 within.2)
  · intro fits
    rw [toInt_ofCount.mpr (fits hour hours)]
    exact ⟨_, found, within⟩

/-- Hours of slots. -/
theorem hours_slot {f : α → Value} {hour : α → Int} (hours : ∀ x, (f x).hours = some (hour x))
    (slot : Option α) :
    (∃ slot', unary (fun x => BitVec.ofInt 32 (hour x)) slot = .ok slot' ∧
      Option.Rel (fun x y => Follows .hour (f x) (.int y)) slot slot') ↔
        ValueFits .hour f slot := by
  refine slot_iff ?_ (fun x => ?_) slot
  · exact iff_of_true ⟨none, rfl, .none⟩ trivial
  · rw [ValueFits, or_iff_right nofun, ← follows_hours (hours x)]
    constructor
    · rintro ⟨_, same, follows⟩
      cases same
      exact follows
    · exact fun follows => ⟨_, rfl, follows⟩

/-- Days of slots. -/
theorem days_slot {f : α → Value} {day : α → Int} (days : ∀ x, (f x).calendarDay = some (day x))
    (slot : Option α) :
    (∃ slot', unary (fun x => BitVec.ofInt 32 (day x)) slot = .ok slot' ∧
      Option.Rel (fun x y => Follows .day (f x) (.int y)) slot slot') ↔ ValueFits .day f slot := by
  refine slot_iff ?_ (fun x => ?_) slot
  · exact iff_of_true ⟨none, rfl, .none⟩ trivial
  · exact iff_of_true ⟨_, rfl, follows_days (days x)⟩ (.inl rfl)

/-- Integers of 16 bits are those of 32 they are extended to. -/
theorem follows_short {width : Nat} {i r : BitVec 16} :
    Follows (.truncate width) (.int (i.signExtend 32)) (.int (r.signExtend 32)) ↔
      (width : Int) ∣ r.toInt ∧ r.toInt ≤ i.toInt ∧ i.toInt < r.toInt + width := by
  rw [Follows, BitVec.toInt_signExtend_of_le (by decide), BitVec.toInt_signExtend_of_le (by decide)]

/-- A slot is transformed by the law exactly where it has a place. -/
theorem slot_law (utc : kernels.Utc) (calendar : kernels.yearMonth = chronoCalendar)
    {type : DataType} {f : type.Native → Value} (reads : type.read other = some f)
    {kernel : SlotKernel type} (run : transformSlot kernels type transform = .ok kernel)
    (positive : ∀ width, transform = .truncate width → 0 < width ∧ width < 2 ^ 32)
    (counts : transform.counts = true ∨ ∃ width, transform = .truncate width) :
    ∃ g, kernel.1.read other = some g ∧ ∀ slot,
      (∃ slot', kernel.2 slot = .ok slot' ∧
        Option.Rel (fun x y => Follows transform (f x) (g y)) slot slot') ↔
      SlotFits transform type f slot := by
  cases transform with
  | identity | bucket | void => rcases counts with counts | ⟨_, counts⟩ <;> cases counts
  | truncate width =>
    obtain ⟨positive, unsigned⟩ := positive width rfl
    cases type with
    | int16 =>
      obtain rfl := Except.ok.inj run
      obtain rfl := Option.some.inj reads
      refine ⟨_, rfl, slot_iff ?_ fun x => ?_⟩
      · constructor
        · rintro ⟨_, divided, -⟩ _ same zero
          cases same
          have panics : truncateSlot (BitVec.ofNat 16 width) none =
              .error (.panicked "rem_euclid") := if_pos zero
          cases panics.symm.trans divided
        · exact fun fits => ⟨none, (truncateSlot_null _).2 (fits width rfl), .none⟩
      · refine truncateSlot_iff.trans ?_
        refine (exists_congr fun r => Iff.rfl.and follows_short).trans ?_
        refine (truncateInteger_law (by decide) positive x).trans ?_
        constructor
        · rintro fits _ same
          cases same
          exact fits
        · exact fun fits => fits width rfl
    | int32 =>
      obtain rfl := Except.ok.inj run
      obtain rfl := Option.some.inj reads
      refine ⟨_, rfl, slot_iff ?_ fun x => ?_⟩
      · have kept := (truncateSlot_null _).2 (ofNat_ne_zero positive unsigned)
        exact iff_of_true ⟨none, kept, .none⟩ trivial
      · refine truncateSlot_iff.trans ((truncateInteger_law (by decide) positive x).trans ?_)
        exact (or_iff_right nofun).symm
    | int64 =>
      obtain rfl := Except.ok.inj run
      obtain rfl := Option.some.inj reads
      have unsigned' : width < 2 ^ 64 := unsigned.trans (by decide)
      refine ⟨_, rfl, slot_iff ?_ fun x => ?_⟩
      · have kept := (truncateSlot_null _).2 (ofNat_ne_zero positive unsigned')
        exact iff_of_true ⟨none, kept, .none⟩ trivial
      · refine truncateSlot_iff.trans ((truncateInteger_law (by decide) positive x).trans ?_)
        exact (or_iff_right nofun).symm
    | _ => cases run
  | year =>
    cases type with
    | date32 =>
      obtain rfl := Except.ok.inj run
      obtain rfl := Option.some.inj reads
      exact ⟨int, rfl, parts_slot calendar (.inl rfl) (fun _ => rfl)
        fun _ dated => agrees_years rfl dated rfl⟩
    | timestampMicrosecond timezone =>
      rw [transformSlot, zonedParts, clock_eq utc reads] at run
      obtain rfl := Except.ok.inj run
      rcases read_micros reads with rfl | rfl <;>
        exact ⟨int, rfl, parts_slot calendar (.inl rfl) (fun _ => rfl)
          fun _ dated => agrees_years rfl dated rfl⟩
    | timestampNanosecond timezone =>
      obtain rfl := Except.ok.inj run
      rcases read_nanos reads with rfl | rfl <;>
        exact ⟨int, rfl, parts_slot calendar (.inl rfl) (fun _ => rfl)
          fun _ dated => agrees_years rfl dated rfl⟩
    | _ => cases run
  | month =>
    cases type with
    | date32 =>
      obtain rfl := Except.ok.inj run
      obtain rfl := Option.some.inj reads
      exact ⟨int, rfl, parts_slot calendar (.inr rfl) (fun _ => rfl)
        fun _ dated => agrees_months rfl dated rfl⟩
    | timestampMicrosecond timezone =>
      rw [transformSlot, zonedParts, clock_eq utc reads] at run
      obtain rfl := Except.ok.inj run
      rcases read_micros reads with rfl | rfl <;>
        exact ⟨int, rfl, parts_slot calendar (.inr rfl) (fun _ => rfl)
          fun _ dated => agrees_months rfl dated rfl⟩
    | timestampNanosecond timezone =>
      obtain rfl := Except.ok.inj run
      rcases read_nanos reads with rfl | rfl <;>
        exact ⟨int, rfl, parts_slot calendar (.inr rfl) (fun _ => rfl)
          fun _ dated => agrees_months rfl dated rfl⟩
    | _ => cases run
  | day =>
    cases type with
    | date32 =>
      obtain rfl := Except.ok.inj run
      obtain rfl := Option.some.inj reads
      refine ⟨int, rfl, fun slot => ?_⟩
      have whole := @days_slot _ date BitVec.toInt (fun _ => rfl) slot
      simp only [BitVec.ofInt_toInt] at whole
      exact whole
    | timestampMicrosecond timezone =>
      obtain rfl := Except.ok.inj run
      rcases read_micros reads with rfl | rfl <;>
        exact ⟨int, rfl, days_slot fun _ => rfl⟩
    | timestampNanosecond timezone =>
      obtain rfl := Except.ok.inj run
      rcases read_nanos reads with rfl | rfl <;>
        exact ⟨int, rfl, days_slot fun _ => rfl⟩
    | _ => cases run
  | hour =>
    cases type with
    | timestampMicrosecond timezone =>
      obtain rfl := Except.ok.inj run
      rcases read_micros reads with rfl | rfl <;>
        exact ⟨int, rfl, hours_slot fun _ => rfl⟩
    | timestampNanosecond timezone =>
      obtain rfl := Except.ok.inj run
      rcases read_nanos reads with rfl | rfl <;>
        exact ⟨int, rfl, hours_slot fun _ => rfl⟩
    | _ => cases run

/-! ### Arrays -/

/-- An array is transformed by the law exactly where its slots have a place. -/
theorem array_law (utc : kernels.Utc) (calendar : kernels.yearMonth = chronoCalendar)
    {array : ArrayRef} {f : array.dataType.Native → Value}
    (reads : array.dataType.read other = some f)
    (supported : transformSlot kernels array.dataType transform ≠
      .error (.computeError "Failed to perform transform for datatype"))
    (positive : ∀ width, transform = .truncate width → 0 < width ∧ width < 2 ^ 32)
    (counts : transform.counts = true ∨ ∃ width, transform = .truncate width) :
    ArrayLawful kernels other transform array f ↔
      ∀ slot ∈ array.values, SlotFits transform array.dataType f slot := by
  have valid : ¬ InvalidWidth transform := by
    rcases counts with counts | ⟨width, rfl⟩
    · cases transform <;> first | exact not_false | cases counts
    · exact not_false
  obtain ⟨kernel, selected⟩ := supported_slot utc reads supported
  obtain ⟨g, reads', slots⟩ := slot_law utc calendar reads selected positive counts
  rw [← forall₂_congr fun slot _ => slots slot, ← exists_mapM_iff]
  constructor
  · rintro ⟨out, g', run, read, related⟩
    obtain ⟨values, mapped, rfl⟩ := (transformArrow_eq_ok valid selected).mp run
    cases reads'.symm.trans read
    exact ⟨values, mapped, related⟩
  · rintro ⟨values, mapped, related⟩
    exact ⟨⟨kernel.1, values⟩, g, (transformArrow_eq_ok valid selected).mpr ⟨values, mapped, rfl⟩,
      reads', related⟩

/-- Values are transformed by the law exactly where both have a place. -/
theorem value_law {libraries : Libraries} (calendar : libraries.yearMonth = chronoCalendar)
    {u v : Value} (type : u.datatype = v.datatype) (accepted : accepts transform u.datatype = true)
    (positive : ∀ width, transform = .truncate width → 0 < width ∧ width < 2 ^ 32) :
    Lawful libraries transform u v ↔ Fits transform u ∧ Fits transform v := by
  have positive' : ∀ width, transform = .truncate width → 0 < width := fun width same =>
    (positive width same).1
  rw [← transform_law calendar positive' accepted,
    ← transform_law calendar positive' (type ▸ accepted)]
  constructor
  · exact fun lawful => ⟨lawful.first, lawful.second⟩
  · rintro ⟨⟨ru, run, follows⟩, rv, run', follows'⟩
    refine ⟨⟨ru, run, follows⟩, ⟨rv, run', follows'⟩, ?_⟩
    intro _ _ less made made'
    cases run.symm.trans made
    cases run'.symm.trans made'
    exact follows.mono positive' accepted less follows'

/-- Transforms follow the law, on values and on arrays, exactly where these have a place for what
they should be. -/
theorem transform_follows_iff (utc : kernels.Utc) (calendar : kernels.yearMonth = chronoCalendar)
    {transform : Transform} {u v : Value} {array : ArrayRef}
    {f : array.dataType.Native → Value} (type : u.datatype = v.datatype)
    (accepted : accepts transform u.datatype = true)
    (reads : array.dataType.read other = some f)
    (supported : transformSlot kernels array.dataType transform ≠
      .error (.computeError "Failed to perform transform for datatype"))
    (positive : ∀ width, transform = .truncate width → 0 < width ∧ width < 2 ^ 32) :
    (Lawful kernels.toLibraries transform u v ↔ Fits transform u ∧ Fits transform v) ∧
      (ArrayLawful kernels other transform array f ↔
        ∀ slot ∈ array.values, SlotFits transform array.dataType f slot) := by
  refine ⟨value_law calendar type accepted positive, ?_⟩
  refine array_law utc calendar reads supported positive ?_
  cases transform <;> first | exact .inl rfl | exact .inr ⟨_, rfl⟩ | cases accepted

/-- Integers on both sides of zero, and a null. -/
def aroundZero : ArrayRef := ⟨.int32, [some (-1#32), none, some 7#32]⟩

theorem transform_follows_iff_aroundZero :
    Lawful (utcKernels fun _ => 0).toLibraries (.truncate 10) (.int (-1#32)) (.int 7#32) ∧
      ArrayLawful (utcKernels fun _ => 0) (fun _ => .string) (.truncate 10) aroundZero
        Value.int := by
  have negative : FitsWord 31 10 (-1#32).toInt := by decide
  have positive : FitsWord 31 10 (7#32).toInt := by decide
  have laws := @transform_follows_iff (utcKernels fun _ => 0) (fun _ => .string) ⟨rfl, rfl⟩ rfl
    (.truncate 10) (.int (-1#32)) (.int 7#32) aroundZero Value.int rfl rfl rfl nofun
    (fun width same => by cases same; decide)
  refine ⟨laws.1.mpr ⟨negative, positive⟩, laws.2.mpr ?_⟩
  intro slot member
  rcases List.mem_cons.mp member with rfl | later
  · exact .inr negative
  · rcases List.mem_cons.mp later with rfl | last
    · trivial
    · obtain rfl := List.mem_singleton.mp last
      exact .inr positive

/-- The least integer is truncated to the greatest one, and a string is not cut inside of a
character. -/
theorem truncate_wraps_and_panics :
    (Value.int (BitVec.intMin 32)).transform (utcKernels fun _ => 0).toLibraries (.truncate 3) =
        .ok (.int (BitVec.intMax 32)) ∧
      ¬ Lawful (utcKernels fun _ => 0).toLibraries (.truncate 3) (.int (BitVec.intMin 32))
        (.int (BitVec.intMin 32)) ∧
      (Value.string "é").transform (utcKernels fun _ => 0).toLibraries (.truncate 1) =
        .error (.panicked "truncate") := by
  have wraps : (Value.int (BitVec.intMin 32)).transform (utcKernels fun _ => 0).toLibraries
      (.truncate 3) = .ok (.int (BitVec.intMax 32)) := rfl
  refine ⟨wraps, fun lawful => ?_, ?_⟩
  · obtain ⟨r, run, follows⟩ := lawful.first
    cases wraps.symm.trans run
    exact absurd follows.2.1 (by decide)
  · have letters : "é".toList = ['é'] := rfl
    have inside : takeBytes 1 ['é'] = none := by
      rw [takeBytes, if_neg (by decide)]
    rw [Value.transform, truncateString, letters, inside]
    rfl

end IcebergRust.Arrow

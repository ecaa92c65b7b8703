import IcebergRust.Lib.Fallible
import IcebergRust.Lib.Rounding
import IcebergRust.Spec.Order

/-!
# Transforms between two values

What lies between two values with the same transform has that transform too, for every
transform that keeps the order of its values: all but buckets, and but hours so far apart that
their `i32`s meet again (`transform_between`).
-/

namespace IcebergRust

open Interchange Lexicographic Rounding Fallible

/-! ### Equal values -/

/-- The transforms that count time. -/
def Transform.counts : Transform → Bool
  | .year | .month | .day | .hour => true
  | _ => false

namespace Value

variable {a b : Value} {libraries : Libraries}

/-- Values of one type are equal when neither is before the other. -/
theorem same_iff (type : a.datatype = b.datatype) :
    a.same b = true ↔ a.number = b.number ∧ a.text = b.text := by
  cases a <;> cases b <;>
    simp only [datatype, IcebergType.primitive.injEq, PrimitiveType.decimal.injEq,
      PrimitiveType.fixed.injEq, reduceCtorEq] at type <;>
    simp [same, number, text, Word.same_iff_rank, BitVec.toInt_inj, ← BitVec.toNat_inj]
  case boolean.boolean a b => cases a <;> cases b <;> simp
  case string.string => exact utf8_inj.symm
  case fixed.fixed => exact fun _ => type
  case decimal.decimal a b =>
    rw [type.2]
    exact ⟨fun scaled => Int.eq_of_mul_eq_mul_right (by positivity) scaled, congrArg (· * _)⟩

theorem same_symm (equal : a.same b = true) : b.same a = true := by
  cases a <;> cases b <;> simp [same, Word.same_iff_rank] at equal ⊢ <;> simp [equal]

theorem same_trans {c : Value} (first : a.same b = true) (second : b.same c = true) :
    a.same c = true := by
  cases a with
  | float a =>
    cases b <;> simp [same] at first
    cases c <;> simp [same] at second
    rw [same, Word.same_iff_rank]
    exact (Word.same_iff_rank.mp first).trans (Word.same_iff_rank.mp second)
  | double a =>
    cases b <;> simp [same] at first
    cases c <;> simp [same] at second
    rw [same, Word.same_iff_rank]
    exact (Word.same_iff_rank.mp first).trans (Word.same_iff_rank.mp second)
  | decimal a =>
    cases b <;> simp [same] at first
    rename_i b
    cases c <;> simp [same] at second
    rename_i c
    rw [same, decide_eq_true_eq]
    have positive : (10 ^ b.scale : Int) ≠ 0 := pow_ne_zero _ (by decide)
    refine Int.eq_of_mul_eq_mul_right positive ?_
    calc a.mantissa * 10 ^ c.scale * 10 ^ b.scale
        = a.mantissa * 10 ^ b.scale * 10 ^ c.scale := by ring
      _ = b.mantissa * 10 ^ c.scale * 10 ^ a.scale := by rw [first]; ring
      _ = c.mantissa * 10 ^ a.scale * 10 ^ b.scale := by rw [second]; ring
  | _ =>
    obtain rfl := of_decide_eq_true first
    exact second

/-- Values that are equal are in order either way. -/
theorem AtMost.same (low : AtMost a b) (high : AtMost b a) : b.same a = true := by
  obtain ⟨type, first⟩ := low
  obtain ⟨-, second⟩ := high
  rw [same_iff type.symm]
  rcases first with less | ⟨number, text⟩
  · rcases second with less' | ⟨number', -⟩ <;> omega
  · rcases second with less' | ⟨-, text'⟩
    · omega
    · exact ⟨number.symm, List.le_antisymm text' text⟩

variable {value : Value} {transform : Transform}

/-- Between two equal values are only their equals. -/
theorem AtMost.between (low : AtMost a value) (high : AtMost value b) (equal : a.same b = true) :
    value.same a = true := by
  have type := low.1.trans high.1
  obtain ⟨number, text⟩ := (same_iff type).mp equal
  have back : AtMost b a := ⟨type.symm, .inr ⟨number.symm, text ▸ List.le_refl _⟩⟩
  exact low.same (high.trans back)

/-! ### Truncation -/

/-- Truncating an integer rounds it down to a multiple, in its word. -/
theorem truncateInteger_eq_ok {bits : Nat} {i width result : BitVec bits} :
    truncateInteger i width = .ok result ↔
      ¬ (width = 0 ∨ width = -1 ∧ i = BitVec.intMin bits) ∧
        result = BitVec.ofInt bits (down width.toInt i.toInt) := by
  unfold truncateInteger
  have rounds : i - BitVec.ofInt bits (i.toInt % width.toInt) =
      BitVec.ofInt bits (down width.toInt i.toInt) := by
    rw [down, Int.sub_eq_add_neg, BitVec.ofInt_add, BitVec.ofInt_neg, BitVec.ofInt_toInt,
      BitVec.sub_eq_add_neg]
  by_cases panics : width = 0 ∨ width = -1 ∧ i = BitVec.intMin bits
  · rw [if_pos panics]
    exact ⟨(by cases ·), fun holds => absurd panics holds.1⟩
  · rw [if_neg panics, rounds, Except.ok.injEq]
    exact ⟨fun same => ⟨panics, same.symm⟩, fun holds => holds.2.symm⟩

theorem truncateInteger_between {bits : Nat} {a i b width result : BitVec (bits + 1)}
    (low : a.toInt ≤ i.toInt) (high : i.toInt ≤ b.toInt)
    (first : truncateInteger a width = .ok result) (last : truncateInteger b width = .ok result) :
    truncateInteger i width = .ok result := by
  obtain ⟨computes, rfl⟩ := truncateInteger_eq_ok.mp first
  obtain ⟨-, same⟩ := truncateInteger_eq_ok.mp last
  have half : (2 : Int) ^ (bits + 1) = 2 * 2 ^ bits := pow_succ' 2 bits
  have nonzero : width.toInt ≠ 0 := fun zero =>
    computes (.inl (BitVec.toInt_inj.mp (zero.trans BitVec.toInt_zero.symm)))
  have least := BitVec.le_two_mul_toInt (x := a)
  have greatest := BitVec.two_mul_toInt_lt (x := b)
  have narrow := BitVec.le_two_mul_toInt (x := width)
  have wide := BitVec.two_mul_toInt_lt (x := width)
  have small : |width.toInt| ≤ 2 ^ bits := abs_le.mpr ⟨by omega, by omega⟩
  have rounded := rounded_between nonzero small (by omega) low high (by omega) same
  refine truncateInteger_eq_ok.mpr ⟨?_, by rw [rounded]⟩
  rintro (zero | ⟨negative, minimal⟩)
  · exact computes (.inl zero)
  · refine computes (.inr ⟨negative, BitVec.toInt_inj.mp ?_⟩)
    have bottom : (BitVec.intMin (bits + 1)).toInt ≤ a.toInt := BitVec.toInt_intMin_le a
    exact Int.le_antisymm (minimal ▸ low) bottom

/-- The characters that are kept are whole, and as many bytes unless all are. -/
theorem takeBytes_eq_some {bytes : Nat} {text kept : List Char} :
    takeBytes bytes text = some kept ↔
      ((kept.map Char.utf8Size).sum = bytes ∧ kept <+: text) ∨
        ((kept.map Char.utf8Size).sum < bytes ∧ kept = text) := by
  induction text generalizing bytes kept with
  | nil =>
    rw [takeBytes, Option.some.injEq, eq_comm, List.prefix_nil]
    constructor
    · rintro rfl
      rcases Nat.eq_zero_or_pos bytes with zero | positive
      · exact .inl ⟨zero.symm, rfl⟩
      · exact .inr ⟨positive, rfl⟩
    · rintro (⟨-, empty⟩ | ⟨-, empty⟩) <;> exact empty
  | cons c text ih =>
    have size : 0 < c.utf8Size := c.utf8Size_pos
    cases bytes with
    | zero =>
      rw [takeBytes, Option.some.injEq, eq_comm]
      constructor
      · rintro rfl
        exact .inl ⟨rfl, List.nil_prefix⟩
      · rintro (⟨sum, -⟩ | ⟨less, -⟩)
        · cases kept with
          | nil => rfl
          | cons d kept =>
            rw [List.map_cons, List.sum_cons] at sum
            have := d.utf8Size_pos
            omega
        · exact absurd less (Nat.not_lt_zero _)
    | succ bytes =>
      rw [takeBytes]
      constructor
      · intro run
        split at run
        · rename_i fits
          obtain ⟨inner, taken, rfl⟩ := Option.map_eq_some_iff.mp run
          rw [List.map_cons, List.sum_cons]
          rcases ih.mp taken with ⟨sum, start⟩ | ⟨less, rfl⟩
          · exact .inl ⟨by omega, List.cons_prefix_cons.mpr ⟨rfl, start⟩⟩
          · exact .inr ⟨by omega, rfl⟩
        · cases run
      · intro holds
        cases kept with
        | nil =>
          rcases holds with ⟨sum, -⟩ | ⟨-, same⟩
          · cases sum
          · cases same
        | cons d kept =>
          rw [List.map_cons, List.sum_cons] at holds
          have same : d = c := by
            rcases holds with ⟨-, start⟩ | ⟨-, same⟩
            · exact (List.cons_prefix_cons.mp start).1
            · exact (List.cons.inj same).1
          subst same
          have fits : d.utf8Size ≤ bytes + 1 := by
            rcases holds with ⟨sum, -⟩ | ⟨less, -⟩ <;> omega
          rw [if_pos fits]
          refine congrArg (Option.map (d :: ·)) (ih.mpr ?_)
          rcases holds with ⟨sum, start⟩ | ⟨less, same⟩
          · exact .inl ⟨by omega, (List.cons_prefix_cons.mp start).2⟩
          · exact .inr ⟨by omega, (List.cons.inj same).2⟩

theorem truncateString_eq_ok {text result : String} {bytes : Nat} :
    truncateString text bytes = .ok result ↔ takeBytes bytes text.toList = some result.toList := by
  unfold truncateString
  cases takeBytes bytes text.toList with
  | none => exact ⟨(by cases ·), (by cases ·)⟩
  | some kept =>
    rw [Except.ok.injEq, Option.some.injEq]
    constructor
    · rintro rfl
      exact String.toList_ofList.symm
    · rintro rfl
      exact String.ofList_toList

theorem truncateString_between {a text b result : String} {bytes : Nat}
    (low : ¬ text.toList < a.toList) (high : ¬ b.toList < text.toList)
    (first : truncateString a bytes = .ok result) (last : truncateString b bytes = .ok result) :
    truncateString text bytes = .ok result := by
  rw [truncateString_eq_ok, takeBytes_eq_some] at first last ⊢
  rcases first with ⟨sum, ⟨more, start⟩⟩ | ⟨less, same⟩
  · rcases last with ⟨-, ⟨most, start'⟩⟩ | ⟨less', -⟩
    · exact .inl ⟨sum, prefix_between (start ▸ low) (start' ▸ high)⟩
    · omega
  · rcases last with ⟨sum', -⟩ | ⟨-, same'⟩
    · omega
    · rw [← same] at low
      rw [← same'] at high
      exact .inr ⟨less, (Std.Trichotomous.trichotomous text.toList _ low high).symm⟩

/-! ### Counts since 1970 -/

/-- A calendar of days: it has the days between any two of its days, years and months follow each
other, and its years are those of `chrono`. -/
structure Libraries.Ordered (libraries : Libraries) : Prop where
  between : ∀ {a day b found last}, a ≤ day → day ≤ b → libraries.yearMonth a = some found →
    libraries.yearMonth b = some last → ∃ middle, libraries.yearMonth day = some middle
  follow : ∀ {a b found last}, a ≤ b → libraries.yearMonth a = some found →
    libraries.yearMonth b = some last → found.1 < last.1 ∨ found.1 = last.1 ∧ found.2 ≤ last.2
  months : ∀ {day found}, libraries.yearMonth day = some found → 0 ≤ found.2 ∧ found.2 < 12
  years : ∀ {day found}, libraries.yearMonth day = some found →
    -262144 ≤ found.1 ∧ found.1 ≤ 262143

/-- The type is converted through the calendar for every count. -/
def throughCalendar : IcebergType → Bool
  | .primitive .timestamp => true
  | .primitive .timestamptz => true
  | _ => false

/-- The hours of a timestamp since 1970. -/
def hours : Value → Option Int
  | .timestamp micros => some (micros.toInt / 3600000000)
  | .timestampTZ micros => some (micros.toInt / 3600000000)
  | .timestampNano nanos => some (nanos.toInt / 3600000000000)
  | .timestampTZNano nanos => some (nanos.toInt / 3600000000000)
  | _ => none

/-- What a transform of time counts, before it is cut to `i32`. -/
def counted (libraries : Libraries) (value : Value) : Transform → Option Int
  | .year => value.calendarDay.bind fun day =>
      (libraries.yearMonth day).map fun found => found.1 - 1970
  | .month => value.calendarDay.bind fun day =>
      (libraries.yearMonth day).map fun found => (found.1 - 1970) * 12 + found.2
  | .day => value.calendarDay.bind fun day =>
      if throughCalendar value.datatype then (libraries.yearMonth day).map fun _ => day
      else some day
  | .hour => value.hours.bind fun hour =>
      if throughCalendar value.datatype then
        value.calendarDay.bind fun day => (libraries.yearMonth day).map fun _ => hour
      else some hour
  | _ => none

theorem calendar_eq_ok {day : Int} {found : Int × Int} :
    libraries.calendar day = .ok found ↔ libraries.yearMonth day = some found := by
  unfold Libraries.calendar
  cases libraries.yearMonth day <;> simp

theorem unitsOf_eq_ok {micros unit : Int} {result : Value} :
    unitsOf libraries micros unit = .ok result ↔
      ∃ found, libraries.yearMonth (micros / 86400000000) = some found ∧
        result = ofCount (micros / unit) := by
  unfold unitsOf
  constructor
  · intro run
    obtain ⟨found, calendar, made⟩ := bind_eq_ok.mp run
    cases made
    exact ⟨found, calendar_eq_ok.mp calendar, rfl⟩
  · rintro ⟨found, calendar, rfl⟩
    exact bind_eq_ok.mpr ⟨found, calendar_eq_ok.mpr calendar, rfl⟩

theorem transform_eq_counted {result : Value} (counts : transform.counts = true) :
    value.transform libraries transform = .ok result ↔
      ∃ count, value.counted libraries transform = some count ∧ result = ofCount count := by
  cases transform with
  | identity | bucket | truncate | void => cases counts
  | year =>
    rw [Value.transform, counted]
    cases value.calendarDay with
    | none => simp
    | some day => simp [map_eq_ok, calendar_eq_ok, @eq_comm _ result]
  | month =>
    rw [Value.transform, counted]
    cases value.calendarDay with
    | none => simp
    | some day => simp [map_eq_ok, calendar_eq_ok, @eq_comm _ result]
  | day =>
    cases value <;> simp [Value.transform, counted, calendarDay, throughCalendar, datatype,
      unitsOf_eq_ok, ofCount, @eq_comm _ result]
  | hour =>
    cases value <;> simp [Value.transform, counted, calendarDay, hours, throughCalendar, datatype,
      unitsOf_eq_ok, ofCount, @eq_comm _ result]

theorem AtMost.number_le (less : AtMost a b) : a.number ≤ b.number := by
  rcases less.2 with less | ⟨same, -⟩ <;> omega

/-- The numbers of a type in a day. -/
def dayUnit : IcebergType → Option Int
  | .primitive .date => some 1
  | .primitive .timestamp | .primitive .timestamptz => some 86400000000
  | .primitive .timestampNs | .primitive .timestamptzNs => some 86400000000000
  | _ => none

/-- The numbers of a type in an hour. -/
def hourUnit : IcebergType → Option Int
  | .primitive .timestamp | .primitive .timestamptz => some 3600000000
  | .primitive .timestampNs | .primitive .timestamptzNs => some 3600000000000
  | _ => none

theorem calendarDay_eq (value : Value) :
    value.calendarDay = (dayUnit value.datatype).map fun unit => value.number / unit := by
  cases value with
  | date days => exact congrArg some (Int.ediv_one _).symm
  | _ => rfl

theorem hours_eq (value : Value) :
    value.hours = (hourUnit value.datatype).map fun unit => value.number / unit := by
  cases value <;> rfl

theorem dayUnit_pos {type : IcebergType} {unit : Int} (found : dayUnit type = some unit) :
    0 < unit := by
  unfold dayUnit at found
  split at found <;> cases found <;> decide

theorem hourUnit_pos {type : IcebergType} {unit : Int} (found : hourUnit type = some unit) :
    0 < unit := by
  unfold hourUnit at found
  split at found <;> cases found <;> decide

theorem calendarDay_mono (less : AtMost a b) {day : Int} (first : a.calendarDay = some day) :
    ∃ later, b.calendarDay = some later ∧ day ≤ later := by
  rw [calendarDay_eq] at first
  obtain ⟨unit, found, rfl⟩ := Option.map_eq_some_iff.mp first
  refine ⟨b.number / unit, ?_, Int.ediv_le_ediv (dayUnit_pos found) less.number_le⟩
  rw [calendarDay_eq, ← less.1, found]
  rfl

theorem hours_mono (less : AtMost a b) {hour : Int} (first : a.hours = some hour) :
    ∃ later, b.hours = some later ∧ hour ≤ later := by
  rw [hours_eq] at first
  obtain ⟨unit, found, rfl⟩ := Option.map_eq_some_iff.mp first
  refine ⟨b.number / unit, ?_, Int.ediv_le_ediv (hourUnit_pos found) less.number_le⟩
  rw [hours_eq, ← less.1, found]
  rfl

theorem calendarDay_range {day : Int} (found : value.calendarDay = some day) :
    -2147483648 ≤ day ∧ day < 2147483648 := by
  cases value with
  | date days =>
    cases found
    have low := days.le_two_mul_toInt
    have high := days.two_mul_toInt_lt
    omega
  | timestamp count | timestampTZ count | timestampNano count | timestampTZNano count =>
    cases found
    have low := count.le_two_mul_toInt
    have high := count.two_mul_toInt_lt
    omega
  | _ => cases found

/-- What is counted between two values is between their counts. -/
theorem counted_between (ordered : libraries.Ordered) (low : AtMost a value) (high : AtMost value b)
    {first last : Int} (start : a.counted libraries transform = some first)
    (stop : b.counted libraries transform = some last) :
    ∃ count, value.counted libraries transform = some count ∧ first ≤ count ∧ count ≤ last := by
  -- the day is between those of the ends, and the calendar has it if it has theirs
  have known : ∀ {day last found found'}, a.calendarDay = some day → b.calendarDay = some last →
      libraries.yearMonth day = some found → libraries.yearMonth last = some found' →
      ∃ middle, value.calendarDay = some middle ∧ ∃ found'', libraries.yearMonth middle = some found'' ∧
        (found.1 < found''.1 ∨ found.1 = found''.1 ∧ found.2 ≤ found''.2) ∧
        (found''.1 < found'.1 ∨ found''.1 = found'.1 ∧ found''.2 ≤ found'.2) := by
    intro day last found found' begins ends here there
    obtain ⟨middle, present, after⟩ := calendarDay_mono low begins
    obtain ⟨last', ends', before⟩ := calendarDay_mono high present
    obtain rfl : last' = last := Option.some.inj (ends'.symm.trans ends)
    obtain ⟨found'', has⟩ := ordered.between after before here there
    exact ⟨middle, present, found'', has, ordered.follow after here has,
      ordered.follow before has there⟩
  cases transform with
  | identity | bucket | truncate | void => cases start
  | year =>
    obtain ⟨day, begins, years⟩ := Option.bind_eq_some_iff.mp start
    obtain ⟨day', ends, years'⟩ := Option.bind_eq_some_iff.mp stop
    obtain ⟨found, here, rfl⟩ := Option.map_eq_some_iff.mp years
    obtain ⟨found', there, rfl⟩ := Option.map_eq_some_iff.mp years'
    obtain ⟨middle, present, found'', has, after, before⟩ := known begins ends here there
    refine ⟨found''.1 - 1970, ?_, by omega, by omega⟩
    rw [counted, present, Option.bind_some, has]
    rfl
  | month =>
    obtain ⟨day, begins, months⟩ := Option.bind_eq_some_iff.mp start
    obtain ⟨day', ends, months'⟩ := Option.bind_eq_some_iff.mp stop
    obtain ⟨found, here, rfl⟩ := Option.map_eq_some_iff.mp months
    obtain ⟨found', there, rfl⟩ := Option.map_eq_some_iff.mp months'
    obtain ⟨middle, present, found'', has, after, before⟩ := known begins ends here there
    have one := ordered.months here
    have two := ordered.months has
    have three := ordered.months there
    refine ⟨(found''.1 - 1970) * 12 + found''.2, ?_, by omega, by omega⟩
    rw [counted, present, Option.bind_some, has]
    rfl
  | day =>
    obtain ⟨day, begins, days⟩ := Option.bind_eq_some_iff.mp start
    obtain ⟨day', ends, days'⟩ := Option.bind_eq_some_iff.mp stop
    rw [low.1] at days
    rw [← high.1] at days'
    obtain ⟨middle, present, after⟩ := calendarDay_mono low begins
    obtain ⟨last', ends', before⟩ := calendarDay_mono high present
    obtain rfl : last' = day' := Option.some.inj (ends'.symm.trans ends)
    rw [counted, present, Option.bind_some]
    by_cases through : throughCalendar value.datatype = true
    · rw [if_pos through] at days days' ⊢
      obtain ⟨found, here, rfl⟩ := Option.map_eq_some_iff.mp days
      obtain ⟨found', there, rfl⟩ := Option.map_eq_some_iff.mp days'
      obtain ⟨found'', has⟩ := ordered.between after before here there
      exact ⟨middle, by rw [has]; rfl, after, before⟩
    · rw [if_neg through] at days days' ⊢
      cases days
      cases days'
      exact ⟨middle, rfl, after, before⟩
  | hour =>
    obtain ⟨hour, begins, hours⟩ := Option.bind_eq_some_iff.mp start
    obtain ⟨hour', ends, hours'⟩ := Option.bind_eq_some_iff.mp stop
    rw [low.1] at hours
    rw [← high.1] at hours'
    obtain ⟨middle, present, after⟩ := hours_mono low begins
    obtain ⟨last', ends', before⟩ := hours_mono high present
    obtain rfl : last' = hour' := Option.some.inj (ends'.symm.trans ends)
    rw [counted, present, Option.bind_some]
    by_cases through : throughCalendar value.datatype = true
    · rw [if_pos through] at hours hours' ⊢
      obtain ⟨day, begins, hours⟩ := Option.bind_eq_some_iff.mp hours
      obtain ⟨day', ends, hours'⟩ := Option.bind_eq_some_iff.mp hours'
      obtain ⟨found, here, rfl⟩ := Option.map_eq_some_iff.mp hours
      obtain ⟨found', there, rfl⟩ := Option.map_eq_some_iff.mp hours'
      obtain ⟨day'', present', found'', has, -⟩ := known begins ends here there
      exact ⟨middle, by rw [present', Option.bind_some, has]; rfl, after, before⟩
    · rw [if_neg through] at hours hours' ⊢
      cases hours
      cases hours'
      exact ⟨middle, rfl, after, before⟩

/-! ### All transforms -/

/-- What lies between two values with the same transform has it too: not for buckets, and for hours
only where those of the values are less than `2 ^ 32` apart. -/
def KeepsBetween (transform : Transform) (low high : Value) : Prop :=
  match transform with
  | .bucket _ => False
  | .hour => ∀ first last, low.hours = some first → high.hours = some last →
      last - first < 4294967296
  | _ => True

/-- Counts that are equal as `i32` are equal. -/
theorem counted_near (ordered : libraries.Ordered) (keeps : KeepsBetween transform a b)
    {first last : Int} (start : a.counted libraries transform = some first)
    (stop : b.counted libraries transform = some last) : last - first < 4294967296 := by
  cases transform with
  | identity | bucket | truncate | void => cases start
  | year =>
    obtain ⟨day, -, years⟩ := Option.bind_eq_some_iff.mp start
    obtain ⟨day', -, years'⟩ := Option.bind_eq_some_iff.mp stop
    obtain ⟨found, here, rfl⟩ := Option.map_eq_some_iff.mp years
    obtain ⟨found', there, rfl⟩ := Option.map_eq_some_iff.mp years'
    have one := ordered.years here
    have two := ordered.years there
    omega
  | month =>
    obtain ⟨day, -, months⟩ := Option.bind_eq_some_iff.mp start
    obtain ⟨day', -, months'⟩ := Option.bind_eq_some_iff.mp stop
    obtain ⟨found, here, rfl⟩ := Option.map_eq_some_iff.mp months
    obtain ⟨found', there, rfl⟩ := Option.map_eq_some_iff.mp months'
    have one := ordered.years here
    have two := ordered.years there
    have three := ordered.months here
    have four := ordered.months there
    omega
  | day =>
    obtain ⟨day, begins, days⟩ := Option.bind_eq_some_iff.mp start
    obtain ⟨day', ends, days'⟩ := Option.bind_eq_some_iff.mp stop
    have one := calendarDay_range begins
    have two := calendarDay_range ends
    have same : first = day := by
      split at days
      · obtain ⟨_, -, same⟩ := Option.map_eq_some_iff.mp days
        exact same.symm
      · exact (Option.some.inj days).symm
    have same' : last = day' := by
      split at days'
      · obtain ⟨_, -, same⟩ := Option.map_eq_some_iff.mp days'
        exact same.symm
      · exact (Option.some.inj days').symm
    omega
  | hour =>
    obtain ⟨hour, begins, hours⟩ := Option.bind_eq_some_iff.mp start
    obtain ⟨hour', ends, hours'⟩ := Option.bind_eq_some_iff.mp stop
    have near := keeps hour hour' begins ends
    have same : first = hour := by
      split at hours
      · obtain ⟨_, -, counts⟩ := Option.bind_eq_some_iff.mp hours
        obtain ⟨_, -, same⟩ := Option.map_eq_some_iff.mp counts
        exact same.symm
      · exact (Option.some.inj hours).symm
    have same' : last = hour' := by
      split at hours'
      · obtain ⟨_, -, counts⟩ := Option.bind_eq_some_iff.mp hours'
        obtain ⟨_, -, same⟩ := Option.map_eq_some_iff.mp counts
        exact same.symm
      · exact (Option.some.inj hours').symm
    omega

/-- A value between two values with the same transform has it too. -/
theorem transform_between (ordered : libraries.Ordered) {first last : Value} (low : AtMost a value)
    (high : AtMost value b) (keeps : KeepsBetween transform a b)
    (start : a.transform libraries transform = .ok first)
    (stop : b.transform libraries transform = .ok last) (equal : first.same last = true) :
    ∃ result, value.transform libraries transform = .ok result ∧ result.same first = true := by
  by_cases counts : transform.counts = true
  · obtain ⟨x, here, rfl⟩ := (transform_eq_counted counts).mp start
    obtain ⟨z, there, rfl⟩ := (transform_eq_counted counts).mp stop
    obtain ⟨y, middle, after, before⟩ := counted_between ordered low high here there
    have near := counted_near ordered keeps here there
    have words : BitVec.ofInt 32 x = BitVec.ofInt 32 z := by
      simpa [ofCount, same] using equal
    have ends := eq_of_ofInt (after.trans before) near words
    obtain rfl : y = x := by omega
    exact ⟨_, (transform_eq_counted counts).mpr ⟨y, middle, rfl⟩, same_refl _⟩
  · cases transform with
    | identity =>
      cases start
      cases stop
      exact ⟨value, rfl, low.between high equal⟩
    | bucket => exact keeps.elim
    | truncate width =>
      cases a with
      | int i =>
        obtain ⟨j, rfl⟩ := eq_int_of_datatype low.1.symm
        obtain ⟨k, rfl⟩ := eq_int_of_datatype high.1.symm
        obtain ⟨x, here, rfl⟩ := map_eq_ok.mp start
        obtain ⟨z, there, rfl⟩ := map_eq_ok.mp stop
        obtain rfl : x = z := by simpa [same] using equal
        have middle := truncateInteger_between low.number_le high.number_le here there
        exact ⟨.int x, map_eq_ok.mpr ⟨x, middle, rfl⟩, same_refl _⟩
      | longInt i =>
        obtain ⟨j, rfl⟩ := eq_longInt_of_datatype low.1.symm
        obtain ⟨k, rfl⟩ := eq_longInt_of_datatype high.1.symm
        obtain ⟨x, here, rfl⟩ := map_eq_ok.mp start
        obtain ⟨z, there, rfl⟩ := map_eq_ok.mp stop
        obtain rfl : x = z := by simpa [same] using equal
        have middle := truncateInteger_between low.number_le high.number_le here there
        exact ⟨.longInt x, map_eq_ok.mpr ⟨x, middle, rfl⟩, same_refl _⟩
      | string text =>
        obtain ⟨text', rfl⟩ := eq_string_of_datatype low.1.symm
        obtain ⟨text'', rfl⟩ := eq_string_of_datatype high.1.symm
        obtain ⟨x, here, rfl⟩ := map_eq_ok.mp start
        obtain ⟨z, there, rfl⟩ := map_eq_ok.mp stop
        obtain rfl : x = z := by simpa [same] using equal
        have middle := truncateString_between (atMost_string.mp low) (atMost_string.mp high) here
          there
        exact ⟨.string x, map_eq_ok.mpr ⟨x, middle, rfl⟩, same_refl _⟩
      | _ => cases start
    | void => cases start
    | year | month | day | hour => exact absurd rfl counts

end Value

end IcebergRust

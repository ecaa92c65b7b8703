import IcebergRust.Lib.Calendar
import IcebergRust.Spec.Between

/-!
# The law of truncation and of counts of time

What a transform of a value should be (`Follows`), and where `Value::transform` is that.

* `truncateInteger_law`: an integer is truncated by the law where the multiple below it has a place
  in the word and the width keeps its size there.
* `truncateString_law`: a string is, where its first characters have as many bytes.
* `counts_law`: time is counted where the calendar goes and the count has a place in an `i32`.
-/

namespace IcebergRust

open Fallible Rounding Calendar

namespace Value

/-! ### Integers -/

/-- The multiple of a width below an integer of a word has a place in the word, and the width, cut
to the word, leads to it. -/
def FitsWord (bits width : Nat) (i : Int) : Prop :=
  -2 ^ bits ≤ down width i ∧ (width ≤ 2 ^ bits ∨ i < |(BitVec.ofNat (bits + 1) width).toInt|)

instance (bits width : Nat) (i : Int) : Decidable (FitsWord bits width i) :=
  inferInstanceAs (Decidable (_ ∧ _))

theorem toInt_range {bits : Nat} (i : BitVec (bits + 1)) :
    -2 ^ bits ≤ i.toInt ∧ i.toInt < 2 ^ bits := by
  have low := i.le_two_mul_toInt
  have high := i.two_mul_toInt_lt
  have half : (2 : Int) ^ (bits + 1) = 2 * 2 ^ bits := pow_succ' 2 bits
  omega

/-- A width of half a word at most keeps its size when it is cut to the word. -/
theorem abs_toInt_ofNat {bits width : Nat} (small : width ≤ 2 ^ bits) :
    |(BitVec.ofNat (bits + 1) width).toInt| = width := by
  have half : (2 : Nat) ^ (bits + 1) = 2 * 2 ^ bits := pow_succ' 2 bits
  have positive : 0 < 2 ^ bits := Nat.two_pow_pos bits
  rw [BitVec.toInt_ofNat', half, Int.bmod_def,
    Int.emod_eq_of_lt (Int.natCast_nonneg _) (by omega)]
  split_ifs with less
  · exact Nat.abs_cast width
  · rw [abs_of_neg (by omega)]
    omega

/-- Whole words are kept by cutting. -/
theorem toInt_ofInt_down {bits : Nat} {width : Int} (nonzero : width ≠ 0) (i : BitVec (bits + 1))
    (place : -2 ^ bits ≤ down width i.toInt) :
    (BitVec.ofInt (bits + 1) (down width i.toInt)).toInt = down width i.toInt := by
  have below := down_le nonzero i.toInt
  have greatest := (toInt_range i).2
  exact BitVec.toInt_ofInt_eq_self (Nat.succ_pos _) place (by simpa using by omega)

/-- Integers are truncated by the law exactly where the multiple has a place. -/
theorem truncateInteger_law {bits width : Nat} (wide : 0 < bits) (positive : 0 < width)
    (i : BitVec (bits + 1)) :
    (∃ r, truncateInteger i (BitVec.ofNat (bits + 1) width) = .ok r ∧ (width : Int) ∣ r.toInt ∧
      r.toInt ≤ i.toInt ∧ i.toInt < r.toInt + width) ↔ FitsWord bits width i.toInt := by
  obtain ⟨least, greatest⟩ := toInt_range i
  have positive' : (0 : Int) < width := Int.natCast_pos.mpr positive
  have half : (1 : Int) < 2 ^ bits := one_lt_pow₀ one_lt_two wide.ne'
  constructor
  · rintro ⟨r, run, divides, below, above⟩
    obtain ⟨computes, made⟩ := truncateInteger_eq_ok.mp run
    have value := eq_down positive' divides below above
    have low := (toInt_range r).1
    refine ⟨value ▸ low, ?_⟩
    by_contra outside
    obtain ⟨large, far⟩ := not_or.mp outside
    have large' : (2 : Int) ^ bits < width := by exact_mod_cast Nat.not_le.mp large
    -- the law only leaves zero, and a cut width that is not larger rounds to a positive number
    have zero : r.toInt = 0 :=
      Int.eq_zero_of_abs_lt_dvd divides (abs_lt.mpr ⟨by omega, by omega⟩)
    have nonzero : (BitVec.ofNat (bits + 1) width).toInt ≠ 0 := fun cut =>
      computes (.inl (BitVec.toInt_inj.mp (cut.trans BitVec.toInt_zero.symm)))
    have rounded := lt_down nonzero i.toInt
    have kept := toInt_ofInt_down nonzero i (by omega)
    rw [← made] at kept
    omega
  · rintro ⟨place, size⟩
    have nonneg : (2 : Int) ^ bits < width → 0 ≤ i.toInt := by
      intro large
      by_contra negative
      have := down_le_neg positive' (Int.not_le.mp negative)
      omega
    -- no panic: the width is not cut to zero, and the least integer is no multiple of minus one
    have computes : ¬ (BitVec.ofNat (bits + 1) width = 0 ∨ BitVec.ofNat (bits + 1) width = -1 ∧
        i = BitVec.intMin (bits + 1)) := by
      have sizes : 0 < |(BitVec.ofNat (bits + 1) width).toInt| := by
        by_cases small : width ≤ 2 ^ bits
        · rw [abs_toInt_ofNat small]
          exact positive'
        · have large : (2 : Int) ^ bits < width := by exact_mod_cast Nat.not_le.mp small
          exact (nonneg large).trans_lt (size.resolve_left small)
      rintro (zero | ⟨minus, minimal⟩)
      · have cut : (BitVec.ofNat (bits + 1) width).toInt = 0 :=
          (congrArg BitVec.toInt zero).trans BitVec.toInt_zero
        rw [cut, abs_zero] at sizes
        exact lt_irrefl _ sizes
      · have least : i.toInt = -2 ^ bits := by
          rw [minimal]
          exact BitVec.toInt_intMin_of_pos (Nat.succ_pos _)
        have small : width ≤ 2 ^ bits := by
          by_contra large
          have large : (2 : Int) ^ bits < width := by exact_mod_cast Nat.not_le.mp large
          have := nonneg large
          omega
        have next : BitVec.ofNat (bits + 1) (width + 1) = 0 := by
          rw [BitVec.ofNat_add, minus]
          exact BitVec.add_left_neg 1
        have whole : (width + 1) % 2 ^ (bits + 1) = 0 := congrArg BitVec.toNat next
        have power : (2 : Nat) ^ (bits + 1) = 2 * 2 ^ bits := pow_succ' 2 bits
        have half' : 1 < 2 ^ bits := Nat.one_lt_two_pow wide.ne'
        rw [Nat.mod_eq_of_lt (by omega)] at whole
        cases whole
    have rounds : down (BitVec.ofNat (bits + 1) width).toInt i.toInt = down width i.toInt := by
      by_cases small : width ≤ 2 ^ bits
      · rw [← down_abs, abs_toInt_ofNat small]
      · have large : (2 : Int) ^ bits < width := by exact_mod_cast Nat.not_le.mp small
        have nonneg := nonneg large
        rw [down_eq_zero nonneg (size.resolve_left small),
          down_eq_zero nonneg (by rw [abs_of_pos positive']; omega)]
    have nonzero : (width : Int) ≠ 0 := positive'.ne'
    have kept := toInt_ofInt_down nonzero i place
    refine ⟨_, truncateInteger_eq_ok.mpr ⟨computes, rfl⟩, ?_⟩
    rw [rounds, kept]
    refine ⟨dvd_down _ _, down_le nonzero _, ?_⟩
    have low := lt_down nonzero i.toInt
    rw [abs_of_pos positive'] at low
    omega

/-! ### Strings -/

theorem length_le_bytes (text : List Char) : text.length ≤ (text.map Char.utf8Size).sum := by
  induction text with
  | nil => exact Nat.le_refl 0
  | cons c text ih =>
    have := c.utf8Size_pos
    rw [List.length_cons, List.map_cons, List.sum_cons]
    omega

/-- Strings are truncated by the law exactly where the characters to keep have as many bytes. -/
theorem truncateString_law (text : String) (width : Nat) :
    (∃ r, truncateString text width = .ok r ∧ r.toList = text.toList.take width) ↔
      ((text.toList.take width).map Char.utf8Size).sum ≤ width := by
  constructor
  · rintro ⟨r, run, kept⟩
    rw [truncateString_eq_ok, takeBytes_eq_some, kept] at run
    rcases run with ⟨bytes, -⟩ | ⟨bytes, -⟩ <;> omega
  · intro bytes
    refine ⟨String.ofList (text.toList.take width), ?_, String.toList_ofList⟩
    rw [truncateString_eq_ok, takeBytes_eq_some, String.toList_ofList]
    rcases Nat.lt_or_eq_of_le bytes with less | same
    · have long := length_le_bytes (text.toList.take width)
      rw [List.length_take] at long
      exact .inr ⟨less, List.take_of_length_le (by omega)⟩
    · exact .inl ⟨same, List.take_prefix _ _⟩

/-! ### Counts of time -/

/-- A day of the calendar of `chrono`, which is the Gregorian one from year -262143 to year
262142. -/
def InCalendar (day : Int) : Prop :=
  Calendar.yearStart (-262143) ≤ day ∧ day < Calendar.yearStart 262143

instance (day : Int) : Decidable (InCalendar day) := inferInstanceAs (Decidable (_ ∧ _))

/-- The year, and the month from zero, of a day of `chrono`. -/
def chronoCalendar (day : Int) : Option (Int × Int) :=
  if InCalendar day then some (Calendar.yearMonth day) else none

variable {day : Int} {transform : Transform} {value : Value}

theorem chronoCalendar_eq_some {found : Int × Int} :
    chronoCalendar day = some found ↔ InCalendar day ∧ found = yearMonth day := by
  unfold chronoCalendar
  split_ifs with inside
  · rw [Option.some.injEq, and_iff_right inside, eq_comm]
  · exact iff_of_false nofun fun known => inside known.1

/-- The number of a type at which a unit of time since 1970 begins. -/
def unitStart (type : IcebergType) : Transform → Option (Int → Int)
  | .year => (dayUnit type).map fun unit count => Calendar.yearStart (1970 + count) * unit
  | .month => (dayUnit type).map fun unit count => Calendar.monthStart count * unit
  | .day => (dayUnit type).map fun unit count => count * unit
  | .hour => (hourUnit type).map fun unit count => count * unit
  | _ => none

theorem unitStart_strictMono {type : IcebergType} {start : Int → Int}
    (found : unitStart type transform = some start) : Calendar.Increases start := by
  have scaled : ∀ {unit : Int} {first : Int → Int}, 0 < unit → Calendar.Increases first →
      Calendar.Increases fun count => first count * unit := fun positive first a b less =>
    Int.mul_lt_mul_of_pos_right (first a b less) positive
  cases transform with
  | year =>
    obtain ⟨unit, known, rfl⟩ := Option.map_eq_some_iff.mp found
    exact scaled (dayUnit_pos known) fun a b less =>
      yearStart_strictMono _ _ (by omega)
  | month =>
    obtain ⟨unit, known, rfl⟩ := Option.map_eq_some_iff.mp found
    exact scaled (dayUnit_pos known) monthStart_strictMono
  | day =>
    obtain ⟨unit, known, rfl⟩ := Option.map_eq_some_iff.mp found
    exact scaled (dayUnit_pos known) fun _ _ less => less
  | hour =>
    obtain ⟨unit, known, rfl⟩ := Option.map_eq_some_iff.mp found
    exact scaled (hourUnit_pos known) fun _ _ less => less
  | identity | bucket | truncate | void => cases found

/-- Where a unit of days begins, in the numbers of a type. -/
theorem within_unit {unit number first next : Int} (positive : 0 < unit)
    (low : first ≤ number / unit) (high : number / unit < next) :
    first * unit ≤ number ∧ number < next * unit :=
  ⟨(Int.le_ediv_iff_mul_le positive).mp low, (Int.ediv_lt_iff_lt_mul positive).mp high⟩

variable {libraries : Libraries}

theorem calendarDay_eq_some :
    value.calendarDay = some day ↔
      ∃ unit, dayUnit value.datatype = some unit ∧ value.number / unit = day := by
  rw [calendarDay_eq, Option.map_eq_some_iff]

theorem hours_eq_some {hour : Int} :
    value.hours = some hour ↔
      ∃ unit, hourUnit value.datatype = some unit ∧ value.number / unit = hour := by
  rw [hours_eq, Option.map_eq_some_iff]

/-- What a transform counts is the unit of time a value is in. -/
theorem counted_within (calendar : libraries.yearMonth = chronoCalendar) {count : Int}
    (found : value.counted libraries transform = some count) :
    ∃ start, unitStart value.datatype transform = some start ∧ start count ≤ value.number ∧
      value.number < start (count + 1) := by
  cases transform with
  | identity | bucket | truncate | void => cases found
  | year =>
    obtain ⟨day, days, years⟩ := Option.bind_eq_some_iff.mp found
    obtain ⟨known, here, rfl⟩ := Option.map_eq_some_iff.mp years
    obtain ⟨unit, ticks, rfl⟩ := calendarDay_eq_some.mp days
    obtain ⟨-, rfl⟩ := chronoCalendar_eq_some.mp (calendar ▸ here)
    obtain ⟨low, high, -⟩ := yearMonth_spec (value.number / unit)
    have year : 1970 + ((yearMonth (value.number / unit)).1 - 1970) =
        (yearMonth (value.number / unit)).1 := by omega
    have next : 1970 + ((yearMonth (value.number / unit)).1 - 1970 + 1) =
        (yearMonth (value.number / unit)).1 + 1 := by omega
    rw [← year] at low
    rw [← next] at high
    exact ⟨_, Option.map_eq_some_iff.mpr ⟨unit, ticks, rfl⟩,
      within_unit (dayUnit_pos ticks) low high⟩
  | month =>
    obtain ⟨day, days, months⟩ := Option.bind_eq_some_iff.mp found
    obtain ⟨known, here, rfl⟩ := Option.map_eq_some_iff.mp months
    obtain ⟨unit, ticks, rfl⟩ := calendarDay_eq_some.mp days
    obtain ⟨-, rfl⟩ := chronoCalendar_eq_some.mp (calendar ▸ here)
    obtain ⟨-, -, -, -, low, high⟩ := yearMonth_spec (value.number / unit)
    rw [Int.mul_comm 12] at low high
    exact ⟨_, Option.map_eq_some_iff.mpr ⟨unit, ticks, rfl⟩,
      within_unit (dayUnit_pos ticks) low high⟩
  | day =>
    obtain ⟨day, days, same⟩ := Option.bind_eq_some_iff.mp found
    obtain ⟨unit, ticks, rfl⟩ := calendarDay_eq_some.mp days
    have counts : value.number / unit = count := by
      by_cases through : throughCalendar value.datatype = true
      · rw [if_pos through] at same
        obtain ⟨_, _, same⟩ := Option.map_eq_some_iff.mp same
        exact same
      · rw [if_neg through] at same
        exact Option.some.inj same
    refine ⟨_, Option.map_eq_some_iff.mpr ⟨unit, ticks, rfl⟩, ?_⟩
    exact within_unit (dayUnit_pos ticks) counts.ge (Int.lt_add_one_of_le counts.le)
  | hour =>
    obtain ⟨hour, hours, same⟩ := Option.bind_eq_some_iff.mp found
    obtain ⟨unit, ticks, rfl⟩ := hours_eq_some.mp hours
    have counts : value.number / unit = count := by
      by_cases through : throughCalendar value.datatype = true
      · rw [if_pos through] at same
        obtain ⟨_, _, same⟩ := Option.bind_eq_some_iff.mp same
        obtain ⟨_, _, same⟩ := Option.map_eq_some_iff.mp same
        exact same
      · rw [if_neg through] at same
        exact Option.some.inj same
    refine ⟨_, Option.map_eq_some_iff.mpr ⟨unit, ticks, rfl⟩, ?_⟩
    exact within_unit (hourUnit_pos ticks) counts.ge (Int.lt_add_one_of_le counts.le)

/-- A value has a place among the units that a transform counts: its day is in the calendar where
the transform goes through it, and its hour is an `i32`. -/
def FitsCount (transform : Transform) (value : Value) : Prop :=
  match transform with
  | .year | .month => ∀ day, value.calendarDay = some day → InCalendar day
  | .day => ∀ day, value.calendarDay = some day →
      throughCalendar value.datatype = true → InCalendar day
  | .hour => ∀ hour, value.hours = some hour → -2147483648 ≤ hour ∧ hour < 2147483648
  | _ => True

/-- The types a transform accepts, among truncations and counts of time. -/
def accepts (transform : Transform) (type : IcebergType) : Bool :=
  match transform with
  | .truncate _ => type = .primitive .int ∨ type = .primitive .long ∨ type = .primitive .string
  | .year | .month | .day => (dayUnit type).isSome
  | .hour => (hourUnit type).isSome
  | _ => false

/-- A count that is an `i32` is kept by cutting. -/
theorem toInt_ofCount {count : Int} :
    (BitVec.ofInt 32 count).toInt = count ↔ -2147483648 ≤ count ∧ count < 2147483648 := by
  constructor
  · intro same
    have range := toInt_range (BitVec.ofInt 32 count)
    rw [same] at range
    exact range
  · rintro ⟨low, high⟩
    exact BitVec.toInt_ofInt_eq_self (by decide) low high

theorem year_range (inside : InCalendar day) :
    -262143 ≤ (yearMonth day).1 ∧ (yearMonth day).1 ≤ 262142 := by
  obtain ⟨low, high, -⟩ := yearMonth_spec day
  constructor
  · have := yearStart_strictMono.lt_of_lt (inside.1.trans_lt high)
    omega
  · have := yearStart_strictMono.lt_of_lt (low.trans_lt inside.2)
    omega

theorem year_known (calendar : libraries.yearMonth = chronoCalendar) (inside : InCalendar day) :
    libraries.yearMonth day = some (yearMonth day) :=
  calendar ▸ chronoCalendar_eq_some.mpr ⟨inside, rfl⟩

/-- The hours of an `i32` are in the calendar. -/
theorem inCalendar_of_hours {hour : Int} (hours : value.hours = some hour)
    (days : value.calendarDay = some day) (low : -2147483648 ≤ hour) (high : hour < 2147483648) :
    InCalendar day := by
  have whole : day = hour / 24 := by
    cases value <;> cases hours <;> cases days <;> omega
  have first : yearStart (-262143) ≤ -89478486 := by decide
  have last : 89478485 < yearStart 262143 := by decide
  constructor <;> omega

/-- Where a value has a place, there is a count for it, and it is an `i32`. -/
theorem exists_counted (calendar : libraries.yearMonth = chronoCalendar)
    (counts : transform.counts = true) (accepted : accepts transform value.datatype = true)
    (fits : FitsCount transform value) :
    ∃ count, value.counted libraries transform = some count ∧
      -2147483648 ≤ count ∧ count < 2147483648 := by
  cases transform with
  | identity | bucket | truncate | void => cases counts
  | year =>
    obtain ⟨unit, ticks⟩ := Option.isSome_iff_exists.mp accepted
    have days := calendarDay_eq_some.mpr ⟨unit, ticks, rfl⟩
    have inside := fits _ days
    have range := year_range inside
    refine ⟨(yearMonth (value.number / unit)).1 - 1970, ?_, by omega, by omega⟩
    rw [counted, days, Option.bind_some, year_known calendar inside, Option.map_some]
  | month =>
    obtain ⟨unit, ticks⟩ := Option.isSome_iff_exists.mp accepted
    have days := calendarDay_eq_some.mpr ⟨unit, ticks, rfl⟩
    have inside := fits _ days
    have range := year_range inside
    obtain ⟨-, -, low, high, -⟩ := yearMonth_spec (value.number / unit)
    refine ⟨((yearMonth (value.number / unit)).1 - 1970) * 12 +
      (yearMonth (value.number / unit)).2, ?_, by omega, by omega⟩
    rw [counted, days, Option.bind_some, year_known calendar inside, Option.map_some]
  | day =>
    obtain ⟨unit, ticks⟩ := Option.isSome_iff_exists.mp accepted
    have days := calendarDay_eq_some.mpr ⟨unit, ticks, rfl⟩
    refine ⟨value.number / unit, ?_, calendarDay_range days⟩
    rw [counted, days, Option.bind_some]
    by_cases through : throughCalendar value.datatype = true
    · rw [if_pos through, year_known calendar (fits _ days through), Option.map_some]
    · rw [if_neg through]
  | hour =>
    obtain ⟨unit, ticks⟩ := Option.isSome_iff_exists.mp accepted
    have hours := hours_eq_some.mpr ⟨unit, ticks, rfl⟩
    obtain ⟨low, high⟩ := fits _ hours
    refine ⟨value.number / unit, ?_, low, high⟩
    rw [counted, hours, Option.bind_some]
    by_cases through : throughCalendar value.datatype = true
    · have dated : ∃ day, value.calendarDay = some day := by
        cases value <;> first | exact ⟨_, rfl⟩ | cases hours
      obtain ⟨day, days⟩ := dated
      rw [if_pos through, days, Option.bind_some,
        year_known calendar (inCalendar_of_hours hours days low high), Option.map_some]
    · rw [if_neg through]

/-! ### The law -/

/-- What a transform of a value should be: the multiple of the width at or below a number, the first
characters of a string, the unit of time since 1970 a date or a timestamp is in. -/
def Follows (transform : Transform) (value result : Value) : Prop :=
  match transform, value, result with
  | .truncate width, .int i, .int r =>
    (width : Int) ∣ r.toInt ∧ r.toInt ≤ i.toInt ∧ i.toInt < r.toInt + width
  | .truncate width, .longInt i, .longInt r =>
    (width : Int) ∣ r.toInt ∧ r.toInt ≤ i.toInt ∧ i.toInt < r.toInt + width
  | .truncate width, .string text, .string r => r.toList = text.toList.take width
  | .truncate _, _, _ => False
  | transform, value, .int count => ∃ start, unitStart value.datatype transform = some start ∧
      start count.toInt ≤ value.number ∧ value.number < start (count.toInt + 1)
  | _, _, _ => False

/-- A value has a place for what its transform should be. -/
def Fits (transform : Transform) (value : Value) : Prop :=
  match transform, value with
  | .truncate width, .int i => FitsWord 31 width i.toInt
  | .truncate width, .longInt i => FitsWord 63 width i.toInt
  | .truncate width, .string text => ((text.toList.take width).map Char.utf8Size).sum ≤ width
  | .truncate _, _ => True
  | transform, value => FitsCount transform value

/-- A number is in one unit. -/
theorem unit_unique {start : Int → Int} (mono : Calendar.Increases start) {a b number : Int}
    (first : start a ≤ number) (next : number < start (a + 1)) (first' : start b ≤ number)
    (next' : number < start (b + 1)) : a = b := by
  have := mono.lt_of_lt (first.trans_lt next')
  have := mono.lt_of_lt (first'.trans_lt next)
  omega

theorem follows_count (counts : transform.counts = true) {count : BitVec 32} :
    Follows transform value (.int count) ↔
      ∃ start, unitStart value.datatype transform = some start ∧
        start count.toInt ≤ value.number ∧ value.number < start (count.toInt + 1) := by
  cases transform <;> first | rfl | cases counts

theorem known_of_counted (calendar : libraries.yearMonth = chronoCalendar) {found : Int × Int}
    (known : libraries.yearMonth day = some found) : InCalendar day :=
  (chronoCalendar_eq_some.mp (calendar ▸ known)).1

/-- What is counted has a place if the count is an `i32`. -/
theorem fitsCount_of_counted (calendar : libraries.yearMonth = chronoCalendar) {count : Int}
    (found : value.counted libraries transform = some count) (low : -2147483648 ≤ count)
    (high : count < 2147483648) : FitsCount transform value := by
  cases transform with
  | identity | bucket | truncate | void => trivial
  | year | month =>
    intro day days
    obtain ⟨_, days', years⟩ := Option.bind_eq_some_iff.mp found
    cases days.symm.trans days'
    obtain ⟨_, known, -⟩ := Option.map_eq_some_iff.mp years
    exact known_of_counted calendar known
  | day =>
    intro day days through
    obtain ⟨_, days', same⟩ := Option.bind_eq_some_iff.mp found
    cases days.symm.trans days'
    rw [if_pos through] at same
    obtain ⟨_, known, -⟩ := Option.map_eq_some_iff.mp same
    exact known_of_counted calendar known
  | hour =>
    intro hour hours
    obtain ⟨_, hours', same⟩ := Option.bind_eq_some_iff.mp found
    cases hours.symm.trans hours'
    have counts : hour = count := by
      by_cases through : throughCalendar value.datatype = true
      · rw [if_pos through] at same
        obtain ⟨_, _, same⟩ := Option.bind_eq_some_iff.mp same
        obtain ⟨_, _, same⟩ := Option.map_eq_some_iff.mp same
        exact same
      · rw [if_neg through] at same
        exact Option.some.inj same
    exact counts ▸ ⟨low, high⟩

/-- Time is counted by the law exactly where the value has a place. -/
theorem counts_law (calendar : libraries.yearMonth = chronoCalendar)
    (counts : transform.counts = true) (accepted : accepts transform value.datatype = true) :
    (∃ r, value.transform libraries transform = .ok r ∧ Follows transform value r) ↔
      FitsCount transform value := by
  constructor
  · rintro ⟨r, run, follows⟩
    obtain ⟨count, counted, rfl⟩ := (transform_eq_counted counts).mp run
    obtain ⟨start, found, first, next⟩ := counted_within calendar counted
    obtain ⟨_, found', first', next'⟩ := (follows_count counts).mp follows
    cases found.symm.trans found'
    have same := unit_unique (unitStart_strictMono found) first' next' first next
    obtain ⟨low, high⟩ := toInt_ofCount.mp same
    exact fitsCount_of_counted calendar counted low high
  · intro fits
    obtain ⟨count, counted, low, high⟩ := exists_counted calendar counts accepted fits
    refine ⟨ofCount count, (transform_eq_counted counts).mpr ⟨count, counted, rfl⟩, ?_⟩
    rw [ofCount, follows_count counts, toInt_ofCount.mpr ⟨low, high⟩]
    exact counted_within calendar counted

/-- A transform follows the law exactly where the value has a place for what it should be. -/
theorem transform_law (calendar : libraries.yearMonth = chronoCalendar)
    (positive : ∀ width, transform = .truncate width → 0 < width)
    (accepted : accepts transform value.datatype = true) :
    (∃ r, value.transform libraries transform = .ok r ∧ Follows transform value r) ↔
      Fits transform value := by
  cases transform with
  | identity | bucket | void => cases accepted
  | year | month | day | hour => exact counts_law calendar rfl accepted
  | truncate width =>
    have positive := positive width rfl
    cases value with
    | int i => exact exists_map_ok.trans (truncateInteger_law (by decide) positive i)
    | longInt i => exact exists_map_ok.trans (truncateInteger_law (by decide) positive i)
    | string text => exact exists_map_ok.trans (truncateString_law text width)
    | _ => cases accepted

/-! ### Monotonicity -/

/-- Of the first letters of two words, those of the lower one are lower. -/
theorem lt_of_take_lt {n : Nat} {a b : List Char} (less : a.take n < b.take n) : a < b := by
  induction n generalizing a b with
  | zero => cases less
  | succ n ih =>
    cases b with
    | nil => cases a <;> cases less
    | cons d b =>
      cases a with
      | nil => exact .nil
      | cons c a =>
        rw [List.take_succ_cons, List.take_succ_cons] at less
        rcases List.cons_lt_cons_iff.mp less with here | ⟨same, rest⟩
        · exact List.cons_lt_cons_iff.mpr (.inl here)
        · exact List.cons_lt_cons_iff.mpr (.inr ⟨same, ih rest⟩)

theorem atMost_number {a b : Value} (type : a.datatype = b.datatype) (text : a.text = [])
    (less : a.number ≤ b.number) : AtMost a b := by
  refine ⟨type, (Int.lt_or_eq_of_le less).imp_right fun same => ⟨same, ?_⟩⟩
  rw [text]
  exact List.nil_le _

/-- Multiples below two numbers are in their order. -/
theorem multiples_mono {width a b ra rb : Int} (positive : 0 < width) (less : a ≤ b)
    (first : width ∣ ra ∧ ra ≤ a ∧ a < ra + width) (last : width ∣ rb ∧ rb ≤ b ∧ b < rb + width) :
    ra ≤ rb := by
  rw [eq_down positive first.1 first.2.1 first.2.2, eq_down positive last.1 last.2.1 last.2.2]
  exact down_mono positive.ne' less

/-- Units that two numbers are in are in their order. -/
theorem units_mono {start : Int → Int} (mono : Calendar.Increases start) {a b ra rb : Int}
    (less : a ≤ b) (first : start ra ≤ a) (next : b < start (rb + 1)) : ra ≤ rb :=
  Int.le_of_lt_add_one (mono.lt_of_lt ((first.trans less).trans_lt next))

/-- What counts of time follow is an `int`. -/
theorem eq_int_of_follows (counts : transform.counts = true) {result : Value}
    (follows : Follows transform value result) : ∃ count, result = .int count := by
  cases result with
  | int count => exact ⟨count, rfl⟩
  | _ => cases transform <;> cases counts <;> exact follows.elim

/-- What follows the law keeps the order. -/
theorem Follows.mono {u v ru rv : Value}
    (positive : ∀ width, transform = .truncate width → 0 < width)
    (accepted : accepts transform u.datatype = true) (less : AtMost u v)
    (first : Follows transform u ru) (last : Follows transform v rv) : AtMost ru rv := by
  have numbers := less.number_le
  have type := less.1
  by_cases counts : transform.counts = true
  · obtain ⟨a, rfl⟩ := eq_int_of_follows counts first
    obtain ⟨b, rfl⟩ := eq_int_of_follows counts last
    obtain ⟨start, found, low, -⟩ := (follows_count counts).mp first
    obtain ⟨start', found', -, high⟩ := (follows_count counts).mp last
    rw [← type, found] at found'
    cases found'
    exact atMost_number rfl rfl (units_mono (unitStart_strictMono found) numbers low high)
  · cases transform with
    | identity | bucket | void => cases accepted
    | year | month | day | hour => exact absurd rfl counts
    | truncate width =>
      have positive := Int.natCast_pos.mpr (positive width rfl)
      cases u with
      | int a =>
        obtain ⟨b, rfl⟩ := eq_int_of_datatype type.symm
        cases ru <;> try exact first.elim
        cases rv <;> try exact last.elim
        exact atMost_number rfl rfl (multiples_mono positive numbers first last)
      | longInt a =>
        obtain ⟨b, rfl⟩ := eq_longInt_of_datatype type.symm
        cases ru <;> try exact first.elim
        cases rv <;> try exact last.elim
        exact atMost_number rfl rfl (multiples_mono positive numbers first last)
      | string a =>
        obtain ⟨b, rfl⟩ := eq_string_of_datatype type.symm
        cases ru <;> try exact first.elim
        cases rv <;> try exact last.elim
        rw [atMost_string] at less ⊢
        have kept : _ = _ := first
        have kept' : _ = _ := last
        rw [kept, kept']
        exact fun below => less (lt_of_take_lt below)
      | _ => cases accepted

end Value

end IcebergRust

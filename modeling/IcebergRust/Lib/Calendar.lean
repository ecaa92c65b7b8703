import Mathlib.Algebra.Order.Ring.Int
import Mathlib.Tactic.IntervalCases
import Mathlib.Tactic.SplitIfs

/-!
# The Gregorian calendar

Days, months and years are counted from the first of January 1970, in the calendar that has the
Gregorian leap years at all times.

* `monthStart` is the first day of a month; months follow each other (`monthStart_strictMono`), so
  a day is in one month.
* `yearMonth` computes the year of a day and its month there (`yearMonth_spec`).
-/

namespace Calendar

/-- The leap years from year 1 up to a year. -/
def leapYears (year : Int) : Int := year / 4 - year / 100 + year / 400

/-- The days of a year beyond 365. -/
def leapDay (year : Int) : Int :=
  if year % 4 = 0 ∧ (year % 100 ≠ 0 ∨ year % 400 = 0) then 1 else 0

/-- The first of January of a year. -/
def yearStart (year : Int) : Int := 365 * (year - 1970) + (leapYears (year - 1) - 477)

/-- The days before each month of a year that is no leap year, and before the year after it. -/
def daysBefore : List Int := [0, 31, 59, 90, 120, 151, 181, 212, 243, 273, 304, 334, 365]

/-- The first day of a month of a year, the first month being 0. -/
def monthOfYear (year : Int) (month : Nat) : Int :=
  yearStart year + daysBefore.getD month 0 + if month < 2 then 0 else leapDay year

/-- The first day of a month. -/
def monthStart (month : Int) : Int := monthOfYear (1970 + month / 12) (month % 12).toNat

theorem yearStart_succ (year : Int) :
    yearStart (year + 1) = yearStart year + 365 + leapDay year := by
  have leap : leapYears year = leapYears (year - 1) + leapDay year := by
    unfold leapYears leapDay
    split_ifs <;> omega
  unfold yearStart
  rw [Int.add_sub_cancel, leap]
  omega

theorem leapDay_range (year : Int) : 0 ≤ leapDay year ∧ leapDay year ≤ 1 := by
  unfold leapDay
  split_ifs <;> decide

/-- The month after December is that of the next year. -/
theorem monthOfYear_twelve (year : Int) : monthOfYear year 12 = yearStart (year + 1) := by
  rw [yearStart_succ]
  rfl

theorem monthOfYear_lt (year : Int) {month : Nat} (within : month < 12) :
    monthOfYear year month < monthOfYear year (month + 1) := by
  have leap := leapDay_range year
  have longer : daysBefore.getD month 0 + 28 ≤ daysBefore.getD (month + 1) 0 := by
    interval_cases month <;> decide
  unfold monthOfYear
  split_ifs <;> omega

/-- Months by their year and their place there. -/
theorem monthStart_eq (year : Int) {month : Nat} (within : month < 12) :
    monthStart (12 * (year - 1970) + month) = monthOfYear year month := by
  have years : 1970 + (12 * (year - 1970) + month) / 12 = year := by omega
  have months : ((12 * (year - 1970) + month) % 12).toNat = month := by omega
  unfold monthStart
  rw [years, months]

theorem monthStart_succ (year : Int) {month : Nat} (within : month < 12) :
    monthStart (12 * (year - 1970) + month + 1) = monthOfYear year (month + 1) := by
  by_cases last : month = 11
  · subst last
    have next := @monthStart_eq (year + 1) 0 (by decide)
    rw [monthOfYear_twelve]
    have first : monthOfYear (year + 1) 0 = yearStart (year + 1) := by
      unfold monthOfYear
      simp [daysBefore]
    rw [← first, ← next]
    exact congrArg monthStart (by omega)
  · have next := @monthStart_eq year (month + 1) (by omega)
    rw [← next]
    exact congrArg monthStart (by omega)

/-- Each unit starts after the one before it. -/
def Increases (start : Int → Int) : Prop := ∀ a b : Int, a < b → start a < start b

theorem Increases.lt_of_lt {start : Int → Int} (increases : Increases start) {a b : Int}
    (less : start a < start b) : a < b := by
  rcases Int.lt_trichotomy a b with before | rfl | after
  · exact before
  · exact absurd less (Int.lt_irrefl _)
  · exact absurd (Int.lt_trans less (increases b a after)) (Int.lt_irrefl _)

theorem increases_of_next {start : Int → Int} (next : ∀ count, start count < start (count + 1)) :
    Increases start := by
  intro a b less
  obtain ⟨steps, rfl⟩ : ∃ steps : Nat, b = a + 1 + steps := ⟨(b - (a + 1)).toNat, by omega⟩
  clear less
  induction steps with
  | zero => simpa using next a
  | succ steps ih =>
    have later := Int.lt_trans ih (next (a + 1 + steps))
    rwa [Int.add_assoc _ (steps : Int) 1] at later

theorem monthStart_strictMono : Increases monthStart := by
  apply increases_of_next
  intro count
  have within : (count % 12).toNat < 12 := by omega
  have place : count = 12 * ((1970 + count / 12) - 1970) + (count % 12).toNat := by omega
  rw [place, monthStart_eq _ within, monthStart_succ _ within]
  exact monthOfYear_lt _ within

theorem monthStart_year (count : Int) : monthStart (12 * count) = yearStart (1970 + count) := by
  have years : 1970 + 12 * count / 12 = 1970 + count := by omega
  have months : (12 * count % 12).toNat = 0 := by omega
  unfold monthStart
  rw [years, months]
  unfold monthOfYear
  simp [daysBefore]

theorem yearStart_strictMono : Increases yearStart := by
  intro first last less
  have months := monthStart_strictMono _ _ (show 12 * (first - 1970) < 12 * (last - 1970) by omega)
  rw [monthStart_year, monthStart_year] at months
  rwa [Int.add_comm, Int.sub_add_cancel, Int.add_comm, Int.sub_add_cancel] at months

/-! ### The month of a day -/

/-- The year of a day: an estimate from the length of 400 years, put right. -/
def yearOf (day : Int) : Int :=
  let estimate := 1970 + 400 * day / 146097
  if day < yearStart estimate then estimate - 1
  else if yearStart (estimate + 1) ≤ day then estimate + 1
  else estimate

/-- The last of the months of a year up to one that begin by a day. -/
def monthBy (year day : Int) : Nat → Nat
  | 0 => 0
  | month + 1 => if monthOfYear year (month + 1) ≤ day then month + 1 else monthBy year day month

/-- The year of a day, and its month there, the first month being 0. -/
def yearMonth (day : Int) : Int × Int := (yearOf day, (monthBy (yearOf day) day 11 : Nat))

/-- Years are as long as the years of 400 are on average, up to two days. -/
theorem yearStart_near (year : Int) : 146097 * (year - 1970) - 600 ≤ 400 * yearStart year ∧
    400 * yearStart year ≤ 146097 * (year - 1970) + 600 := by
  unfold yearStart leapYears
  omega

theorem yearOf_spec (day : Int) :
    yearStart (yearOf day) ≤ day ∧ day < yearStart (yearOf day + 1) := by
  unfold yearOf
  generalize estimated : 1970 + 400 * day / 146097 = estimate
  have before := yearStart_near (estimate - 1)
  have after := yearStart_near (estimate + 1 + 1)
  dsimp only
  split_ifs with early late
  · rw [Int.sub_add_cancel]
    omega
  · omega
  · omega

/-- A day is in the last month that begins by it. -/
theorem monthBy_spec {year day : Int} (month : Nat) (low : yearStart year ≤ day)
    (high : day < monthOfYear year (month + 1)) :
    monthBy year day month ≤ month ∧ monthOfYear year (monthBy year day month) ≤ day ∧
      day < monthOfYear year (monthBy year day month + 1) := by
  induction month with
  | zero =>
    have first : monthOfYear year 0 = yearStart year := by simp [monthOfYear, daysBefore]
    exact ⟨Nat.le_refl 0, first ▸ low, high⟩
  | succ month ih =>
    unfold monthBy
    split_ifs with begun
    · exact ⟨Nat.le_refl _, begun, high⟩
    · obtain ⟨within, place⟩ := ih (Int.not_le.mp begun)
      exact ⟨Nat.le_succ_of_le within, place⟩

/-- A day is in its year, and in its month there. -/
theorem yearMonth_spec (day : Int) :
    yearStart (yearMonth day).1 ≤ day ∧ day < yearStart ((yearMonth day).1 + 1) ∧
      0 ≤ (yearMonth day).2 ∧ (yearMonth day).2 < 12 ∧
      monthStart (12 * ((yearMonth day).1 - 1970) + (yearMonth day).2) ≤ day ∧
      day < monthStart (12 * ((yearMonth day).1 - 1970) + (yearMonth day).2 + 1) := by
  obtain ⟨low, high⟩ := yearOf_spec day
  obtain ⟨within, begun, next⟩ := monthBy_spec 11 low ((monthOfYear_twelve _).symm ▸ high)
  refine ⟨low, high, Int.natCast_nonneg _, ?_, ?_, ?_⟩
  · exact Int.ofNat_lt.mpr (Nat.lt_succ_of_le within)
  · exact (monthStart_eq _ (Nat.lt_succ_of_le within)).symm ▸ begun
  · exact (monthStart_succ _ (Nat.lt_succ_of_le within)).symm ▸ next

end Calendar

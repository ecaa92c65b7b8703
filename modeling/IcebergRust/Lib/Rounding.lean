import Mathlib.Algebra.Order.Ring.Abs
import Mathlib.Data.Nat.Prime.Basic
import Mathlib.Tactic.Linarith

/-!
# Rounding down in machine words

Rounding an integer down to a multiple, and cutting it to a word.  Rounding keeps the order, but
near the least integer of a word it leaves the word; what lies between two integers with the same
rounded word still has that word (`rounded_between`).
-/

namespace Rounding

/-- Integers less than a word apart are told apart by their words. -/
theorem eq_of_ofInt {bits : Nat} {a b : Int} (below : a ≤ b) (near : b - a < 2 ^ bits)
    (same : BitVec.ofInt bits a = BitVec.ofInt bits b) : a = b := by
  have words := congrArg BitVec.toInt same
  rw [BitVec.toInt_ofInt, BitVec.toInt_ofInt, Int.bmod_eq_bmod_iff_bmod_sub_eq_zero,
    ← Int.dvd_iff_bmod_eq_zero] at words
  have divides : ((2 ^ bits : Nat) : Int) ∣ b - a := by
    rw [← Int.neg_sub]
    exact Int.dvd_neg.mpr words
  have zero : b - a = 0 :=
    Int.eq_zero_of_dvd_of_nonneg_of_lt (by omega) (by exact_mod_cast near) divides
  omega

/-- Rounding down to a multiple. -/
def down (width i : Int) : Int := i - i % width

variable {width : Int}

theorem down_le (nonzero : width ≠ 0) (i : Int) : down width i ≤ i := by
  have := Int.emod_nonneg i nonzero
  unfold down
  omega

theorem lt_down (nonzero : width ≠ 0) (i : Int) : i - |width| < down width i := by
  have := Int.emod_lt_abs i nonzero
  unfold down
  omega

theorem dvd_down (width i : Int) : width ∣ down width i := Int.dvd_self_sub_emod

/-- A multiple that is at most an integer is at most what the integer is rounded down to. -/
theorem le_down {multiple i : Int} (nonzero : width ≠ 0) (divides : width ∣ multiple)
    (below : multiple ≤ i) : multiple ≤ down width i := by
  by_contra above
  have gap : width ∣ multiple - down width i := Int.dvd_sub divides (dvd_down width i)
  have short := lt_down nonzero i
  have zero : multiple - down width i = 0 :=
    Int.eq_zero_of_dvd_of_nonneg_of_lt (by omega) (by omega) ((abs_dvd _ _).mpr gap)
  omega

theorem down_mono {a b : Int} (nonzero : width ≠ 0) (below : a ≤ b) : down width a ≤ down width b :=
  le_down nonzero (dvd_down width a) ((down_le nonzero a).trans below)

/-- What an integer is rounded down to is the one multiple in reach below it. -/
theorem eq_down {multiple i : Int} (positive : 0 < width) (divides : width ∣ multiple)
    (below : multiple ≤ i) (above : i < multiple + width) : multiple = down width i := by
  have low := le_down positive.ne' divides below
  have gap : width ∣ down width i - multiple := Int.dvd_sub (dvd_down width i) divides
  have high := down_le positive.ne' i
  have zero : down width i - multiple = 0 :=
    Int.eq_zero_of_dvd_of_nonneg_of_lt (by omega) (by omega) gap
  omega

/-- An integer below the width is rounded to zero. -/
theorem down_eq_zero {i : Int} (nonneg : 0 ≤ i) (small : i < |width|) : down width i = 0 := by
  unfold down
  rw [← Int.emod_abs, Int.emod_eq_of_lt nonneg small, Int.sub_self]

theorem down_abs (width i : Int) : down |width| i = down width i := by
  unfold down
  rw [Int.emod_abs]

/-- Below zero it is rounded by a width at least. -/
theorem down_le_neg {i : Int} (positive : 0 < width) (negative : i < 0) :
    down width i ≤ -width := by
  have below := down_le positive.ne' i
  have step := Int.le_of_dvd (by omega) ((dvd_neg).mpr (dvd_down width i))
  omega

/-- Integers of a word whose rounded words are the same round down to the same multiple: a power of
two divides the least integer of a word, so nothing is rounded below it. -/
theorem down_eq_of_word {bits : Nat} {a b : Int} (nonzero : width ≠ 0) (small : |width| ≤ 2 ^ bits)
    (least : -2 ^ bits ≤ a) (below : a ≤ b) (greatest : b < 2 ^ bits)
    (same : BitVec.ofInt (bits + 1) (down width a) = BitVec.ofInt (bits + 1) (down width b)) :
    down width a = down width b := by
  have power : (2 : Int) ^ (bits + 1) = 2 * 2 ^ bits := pow_succ' 2 bits
  have positive : (0 : Int) < 2 ^ bits := pow_pos two_pos bits
  have mono := down_mono nonzero below
  have low := lt_down nonzero a
  have high := down_le nonzero b
  by_cases near : down width b - down width a < 2 ^ (bits + 1)
  · exact eq_of_ofInt mono near same
  · exfalso
    have words := congrArg BitVec.toInt same
    rw [BitVec.toInt_ofInt, BitVec.toInt_ofInt, Int.bmod_eq_bmod_iff_bmod_sub_eq_zero,
      ← Int.dvd_iff_bmod_eq_zero] at words
    push_cast at words
    -- the multiples are one word apart, so the width divides a power of two
    have apart : down width b - down width a = 2 ^ (bits + 1) := by
      obtain ⟨k, times⟩ := words
      rw [power] at times near ⊢
      have negative : k < 0 := by
        by_contra nonnegative
        have := mul_nonneg (mul_pos two_pos positive).le (not_lt.mp nonnegative)
        omega
      have single : -1 ≤ k := by
        by_contra several
        have := mul_le_mul_of_nonneg_left (show k ≤ -2 by omega) (mul_pos two_pos positive).le
        omega
      obtain rfl : k = -1 := by omega
      omega
    have divides : width ∣ 2 ^ (bits + 1) := by
      rw [← apart]
      exact Int.dvd_sub (dvd_down width b) (dvd_down width a)
    have half : width ∣ 2 ^ bits := by
      have natural : width.natAbs ∣ 2 ^ (bits + 1) := by
        have := Int.natAbs_dvd_natAbs.mpr divides
        rwa [Int.natAbs_pow] at this
      obtain ⟨k, bound, value⟩ := (Nat.dvd_prime_pow Nat.prime_two).mp natural
      have size : k ≤ bits := by
        by_contra large
        have whole : k = bits + 1 := by omega
        have abs : |width| = 2 ^ (bits + 1) := by
          rw [Int.abs_eq_natAbs, value, whole, Nat.cast_pow, Nat.cast_two]
        omega
      have half : width.natAbs ∣ 2 ^ bits := value ▸ pow_dvd_pow 2 size
      rw [← abs_dvd, Int.abs_eq_natAbs]
      have := Int.natCast_dvd_natCast.mpr half
      rwa [Nat.cast_pow, Nat.cast_two] at this
    have above := le_down nonzero ((dvd_neg).mpr half) least
    omega

/-- What lies between two integers of a word with the same rounded word has that word. -/
theorem rounded_between {bits : Nat} {a i b : Int} (nonzero : width ≠ 0)
    (small : |width| ≤ 2 ^ bits) (least : -2 ^ bits ≤ a) (low : a ≤ i) (high : i ≤ b)
    (greatest : b < 2 ^ bits)
    (same : BitVec.ofInt (bits + 1) (down width a) = BitVec.ofInt (bits + 1) (down width b)) :
    down width i = down width a := by
  have ends := down_eq_of_word nonzero small least (low.trans high) greatest same
  have first := down_mono nonzero low
  have last := down_mono nonzero high
  omega

end Rounding

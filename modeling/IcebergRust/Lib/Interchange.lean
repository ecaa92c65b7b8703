import Mathlib.Data.Nat.Basic
import Mathlib.Tactic.Ring

/-!
# Binary interchange formats

Floating-point words of any binary interchange format, and the conversion of one format to
another with rounding to nearest, ties to even.

* `Word` is a bit pattern: the sign bit and the remaining bits.
* `units` measures a finite magnitude in the least positive number of its format, and
  `nearest` finds the magnitude nearest to a fraction of such units.
* `convert` is the conversion.  A format that `Embeds` in a wider one survives the way there
  and back (`convert_convert`).
-/

namespace Interchange

/-- A binary format: the widths of the exponent and of the trailing significand. -/
structure Format where
  exponentBits : Nat
  fractionBits : Nat
deriving DecidableEq, Repr

namespace Format

/-- Single precision. -/
def binary32 : Format := ⟨8, 23⟩

/-- Double precision. -/
def binary64 : Format := ⟨11, 52⟩

/-- The magnitude of infinity: the magnitudes above it are NaN. -/
def infinite (format : Format) : Nat := (2 ^ format.exponentBits - 1) * 2 ^ format.fractionBits

/-- The binary exponent of the least positive number. -/
def unitExponent (format : Format) : Int :=
  2 - 2 ^ (format.exponentBits - 1) - format.fractionBits

end Format

/-- A word of a format: its sign bit and the remaining bits. -/
structure Word (format : Format) where
  negative : Bool
  magnitude : BitVec (format.exponentBits + format.fractionBits)
deriving DecidableEq, Repr

namespace Word

variable {format : Format}

def isNan (word : Word format) : Bool := format.infinite < word.magnitude.toNat

def isZero (word : Word format) : Bool := word.magnitude.toNat = 0

/-- Equality with all NaNs equal and the zeros equal. -/
def same (a b : Word format) : Bool :=
  if a.isNan then b.isNan else (a.isZero && b.isZero) || a = b

/-- The place of a word among the words of its format: all NaNs above every number, and the zeros
in one place. -/
def rank (word : Word format) : Int :=
  if word.isNan then format.infinite + 1
  else if word.negative then -word.magnitude.toNat else word.magnitude.toNat

/-- Words are equal exactly if they have one place. -/
theorem same_iff_rank {format : Format} {a b : Word format} :
    a.same b = true ↔ a.rank = b.rank := by
  obtain ⟨signA, magA⟩ := a
  obtain ⟨signB, magB⟩ := b
  unfold same rank isNan isZero
  dsimp only
  by_cases nanA : format.infinite < magA.toNat
  · by_cases nanB : format.infinite < magB.toNat
    · simp [nanA, nanB]
    · have differ : ¬ (format.infinite + 1 : Int) =
          if signB then -(magB.toNat : Int) else magB.toNat := by
        split_ifs <;> omega
      simpa [nanA, nanB] using differ
  · by_cases nanB : format.infinite < magB.toNat
    · have differ : ¬ (if signA then -(magA.toNat : Int) else magA.toNat) =
          (format.infinite + 1 : Int) := by
        split_ifs <;> omega
      have apart : ¬ magA = magB := fun same => nanA (same ▸ nanB)
      have positive : ¬ magB.toNat = 0 := by omega
      simpa [nanA, nanB, positive, apart] using differ
    · have magnitudes : magA = magB ↔ magA.toNat = magB.toNat := BitVec.toNat_inj.symm
      simp only [nanA, nanB, decide_false, Bool.false_eq_true, if_false, Bool.or_eq_true,
        Bool.and_eq_true, decide_eq_true_eq, mk.injEq, magnitudes]
      cases signA <;> cases signB <;> simp <;> omega

/-- The bit pattern. -/
def toBits (word : Word format) :
    BitVec (1 + (format.exponentBits + format.fractionBits)) :=
  BitVec.ofBool word.negative ++ word.magnitude

/-- The word of a bit pattern. -/
def ofBits (bits : BitVec (1 + (format.exponentBits + format.fractionBits))) : Word format :=
  ⟨bits.msb, bits.truncate _⟩

end Word

/-! ### Magnitudes -/

variable (format : Format)

/-- A finite magnitude in units of the least positive number. -/
def units (magnitude : Nat) : Nat :=
  let field := magnitude / 2 ^ format.fractionBits
  let fraction := magnitude % 2 ^ format.fractionBits
  if field = 0 then fraction else (2 ^ format.fractionBits + fraction) * 2 ^ (field - 1)

/-- `n / 2 ^ shift`, rounded to nearest, ties to even. -/
def roundHalfEven (n shift : Nat) : Nat :=
  let quotient := n / 2 ^ shift
  let rest := n % 2 ^ shift
  if 2 * rest < 2 ^ shift then quotient
  else if 2 ^ shift < 2 * rest then quotient + 1
  else quotient + quotient % 2

/-- The magnitude nearest to `n / 2 ^ down` units.  A significand that rounds up to the next
power of two carries into the exponent, and past the largest number that is infinity. -/
def nearest (down n : Nat) : Nat :=
  let shift := max down (n.log2 - format.fractionBits)
  min ((shift - down) * 2 ^ format.fractionBits + roundHalfEven n shift) format.infinite

variable {format}

theorem nearest_le_infinite (down n : Nat) : nearest format down n ≤ format.infinite := by
  unfold nearest
  exact Nat.min_le_right _ _

theorem roundHalfEven_mul (n shift : Nat) : roundHalfEven (n * 2 ^ shift) shift = n := by
  have positive : 0 < 2 ^ shift := Nat.two_pow_pos shift
  unfold roundHalfEven
  rw [Nat.mul_div_cancel _ positive, Nat.mul_mod_left]
  simp [positive]

theorem log2_mul_two_pow {n : Nat} (nonzero : n ≠ 0) (q : Nat) :
    (n * 2 ^ q).log2 = n.log2 + q := by
  have product : n * 2 ^ q ≠ 0 := Nat.mul_ne_zero nonzero (Nat.two_pow_pos q).ne'
  apply Nat.le_antisymm
  · apply Nat.le_of_lt_succ
    rw [Nat.log2_lt product, Nat.succ_eq_add_one, Nat.add_right_comm, Nat.pow_add]
    exact Nat.mul_lt_mul_of_pos_right Nat.lt_log2_self (Nat.two_pow_pos q)
  · rw [Nat.le_log2 product, Nat.pow_add]
    exact Nat.mul_le_mul_right _ (Nat.log2_self_le nonzero)

/-- A full significand has its leading bit in the highest place. -/
theorem log2_of_full {n width : Nat} (low : 2 ^ width ≤ n) (high : n < 2 ^ (width + 1)) :
    n.log2 = width := by
  have nonzero : n ≠ 0 := by
    have := Nat.two_pow_pos width
    omega
  have below := (Nat.log2_lt nonzero).mpr high
  have above := (Nat.le_log2 nonzero).mpr low
  omega

/-- Rounding a full significand, scaled up, only sets the exponent. -/
theorem nearest_full {significand down q : Nat} (low : 2 ^ format.fractionBits ≤ significand)
    (high : significand < 2 ^ (format.fractionBits + 1))
    (bounded : q * 2 ^ format.fractionBits + significand ≤ format.infinite) :
    nearest format down (significand * 2 ^ (q + down)) =
      q * 2 ^ format.fractionBits + significand := by
  have nonzero : significand ≠ 0 := by
    have := Nat.two_pow_pos format.fractionBits
    omega
  have shift : max down ((significand * 2 ^ (q + down)).log2 - format.fractionBits) =
      q + down := by
    rw [log2_mul_two_pow nonzero, log2_of_full low high]
    omega
  simp only [nearest, shift, roundHalfEven_mul]
  rw [Nat.add_sub_cancel]
  exact Nat.min_eq_left bounded

/-- Rounding a number of units that a subnormal or the first binade holds is exact. -/
theorem nearest_small {n down : Nat} (high : n < 2 ^ (format.fractionBits + 1))
    (bounded : n ≤ format.infinite) : nearest format down (n * 2 ^ down) = n := by
  have shift : max down ((n * 2 ^ down).log2 - format.fractionBits) = down := by
    by_cases zero : n = 0
    · simp [zero]
    · have below := (Nat.log2_lt zero).mpr high
      rw [log2_mul_two_pow zero]
      omega
  simp only [nearest, shift, roundHalfEven_mul]
  simpa using bounded

/-- A finite magnitude is the one nearest to its own units. -/
theorem nearest_units {magnitude : Nat} (finite : magnitude ≤ format.infinite) (down : Nat) :
    nearest format down (units format magnitude * 2 ^ down) = magnitude := by
  have split := Nat.div_add_mod' magnitude (2 ^ format.fractionBits)
  have fraction := Nat.mod_lt magnitude (Nat.two_pow_pos format.fractionBits)
  by_cases subnormal : magnitude / 2 ^ format.fractionBits = 0
  · rw [subnormal, Nat.zero_mul, Nat.zero_add] at split
    have same : units format magnitude = magnitude := by
      simp only [units, subnormal, if_true]
      exact split
    rw [same]
    apply nearest_small
    · rw [Nat.pow_succ]
      omega
    · exact finite
  · have value : units format magnitude = (2 ^ format.fractionBits +
        magnitude % 2 ^ format.fractionBits) * 2 ^ (magnitude / 2 ^ format.fractionBits - 1) := by
      simp only [units, subnormal, if_false]
    -- The implicit bit of the significand is the unit of the exponent field.
    have whole : (magnitude / 2 ^ format.fractionBits - 1) * 2 ^ format.fractionBits +
        (2 ^ format.fractionBits + magnitude % 2 ^ format.fractionBits) = magnitude := by
      obtain ⟨field, same⟩ := Nat.exists_eq_succ_of_ne_zero subnormal
      rw [same, Nat.succ_mul] at split
      rw [same, Nat.succ_sub_one]
      omega
    rw [value, Nat.mul_assoc, ← Nat.pow_add, nearest_full (Nat.le_add_right _ _), whole]
    · rw [Nat.pow_succ]
      omega
    · rw [whole]
      exact finite

/-- Numbers below the second binade are their own magnitudes. -/
theorem units_small {n : Nat} (high : n < 2 ^ (format.fractionBits + 1)) : units format n = n := by
  have split := Nat.div_add_mod' n (2 ^ format.fractionBits)
  have field : n / 2 ^ format.fractionBits < 2 := by
    rw [Nat.div_lt_iff_lt_mul (Nat.two_pow_pos _), Nat.mul_comm, ← Nat.pow_succ]
    exact high
  unfold units
  by_cases subnormal : n / 2 ^ format.fractionBits = 0
  · rw [subnormal] at split
    simp only [subnormal, if_true]
    omega
  · have normal : n / 2 ^ format.fractionBits = 1 :=
      Nat.le_antisymm (Nat.le_of_lt_succ field) (Nat.pos_of_ne_zero subnormal)
    rw [normal] at split
    simp only [normal, Nat.one_ne_zero, if_false, Nat.sub_self, Nat.pow_zero, Nat.mul_one]
    omega

/-- The units of a full significand under an exponent. -/
theorem units_full {significand q : Nat} (low : 2 ^ format.fractionBits ≤ significand)
    (high : significand < 2 ^ (format.fractionBits + 1)) :
    units format (q * 2 ^ format.fractionBits + significand) = significand * 2 ^ q := by
  obtain ⟨fraction, rfl⟩ := Nat.exists_eq_add_of_le low
  have below : fraction < 2 ^ format.fractionBits := by
    rw [Nat.pow_succ] at high
    omega
  have shape : q * 2 ^ format.fractionBits + (2 ^ format.fractionBits + fraction) =
      fraction + 2 ^ format.fractionBits * (q + 1) := by ring
  have field : (fraction + 2 ^ format.fractionBits * (q + 1)) / 2 ^ format.fractionBits =
      q + 1 := by
    rw [Nat.add_mul_div_left _ _ (Nat.two_pow_pos _), Nat.div_eq_of_lt below, Nat.zero_add]
  have rest : (fraction + 2 ^ format.fractionBits * (q + 1)) % 2 ^ format.fractionBits =
      fraction := by
    rw [Nat.add_mul_mod_self_left, Nat.mod_eq_of_lt below]
  rw [shape]
  unfold units
  simp only [field, rest, Nat.succ_ne_zero, if_false, Nat.add_sub_cancel]

/-- A number with few enough bits is finite and measured exactly. -/
theorem units_nearest {significand q : Nat} (high : significand < 2 ^ (format.fractionBits + 1))
    (bounded : q + 2 < 2 ^ format.exponentBits) :
    nearest format 0 (significand * 2 ^ q) < format.infinite ∧
      units format (nearest format 0 (significand * 2 ^ q)) = significand * 2 ^ q := by
  have room : (q + 2) * 2 ^ format.fractionBits ≤ format.infinite := by
    apply Nat.mul_le_mul_right
    omega
  rw [Nat.add_mul] at room
  by_cases small : significand * 2 ^ q < 2 ^ (format.fractionBits + 1)
  · have finite : significand * 2 ^ q < format.infinite := by
      rw [Nat.pow_succ] at small
      omega
    have exact := @nearest_small format _ 0 small finite.le
    rw [Nat.pow_zero, Nat.mul_one] at exact
    rw [exact]
    exact ⟨finite, units_small small⟩
  · have nonzero : significand ≠ 0 := by
      rintro rfl
      exact small (by simp)
    have above : format.fractionBits + 1 ≤ significand.log2 + q := by
      rw [← log2_mul_two_pow nonzero]
      exact (Nat.le_log2 (Nat.mul_ne_zero nonzero (Nat.two_pow_pos q).ne')).mpr
        (Nat.le_of_not_lt small)
    have below := (Nat.log2_lt nonzero).mpr high
    -- The bits beyond the significand of the format are zeros of the scale.
    obtain ⟨shift, total⟩ := Nat.exists_eq_add_of_le
      (show format.fractionBits ≤ significand.log2 + q by omega)
    obtain ⟨left, rest⟩ := Nat.exists_eq_add_of_le (show shift ≤ q by omega)
    have full : (significand * 2 ^ left).log2 = format.fractionBits := by
      rw [log2_mul_two_pow nonzero]
      omega
    have product : significand * 2 ^ left ≠ 0 :=
      Nat.mul_ne_zero nonzero (Nat.two_pow_pos left).ne'
    have low : 2 ^ format.fractionBits ≤ significand * 2 ^ left := by
      have leading := Nat.log2_self_le product
      rwa [full] at leading
    have high' : significand * 2 ^ left < 2 ^ (format.fractionBits + 1) := by
      have leading := Nat.lt_log2_self (n := significand * 2 ^ left)
      rwa [full] at leading
    have split : significand * 2 ^ q = significand * 2 ^ left * 2 ^ (shift + 0) := by
      rw [rest, Nat.add_zero, Nat.add_comm, Nat.pow_add, Nat.mul_assoc]
    have finite : shift * 2 ^ format.fractionBits + significand * 2 ^ left < format.infinite := by
      have scaled := Nat.mul_le_mul_right (2 ^ format.fractionBits) (show shift ≤ q by omega)
      rw [Nat.pow_succ] at high'
      omega
    rw [split, nearest_full low high' finite.le, units_full low high']
    exact ⟨finite, rfl⟩

/-- The units of a finite magnitude are a significand of the format under an exponent. -/
theorem units_shape {magnitude : Nat} (exponent : 0 < format.exponentBits)
    (finite : magnitude < format.infinite) :
    ∃ significand q, units format magnitude = significand * 2 ^ q ∧
      significand < 2 ^ (format.fractionBits + 1) ∧ q + 2 ≤ 2 ^ format.exponentBits := by
  have fraction := Nat.mod_lt magnitude (Nat.two_pow_pos format.fractionBits)
  have field : magnitude / 2 ^ format.fractionBits < 2 ^ format.exponentBits - 1 := by
    rw [Nat.div_lt_iff_lt_mul (Nat.two_pow_pos _)]
    exact finite
  have doubled : 2 ^ (format.fractionBits + 1) = 2 ^ format.fractionBits * 2 := Nat.pow_succ ..
  unfold units
  by_cases subnormal : magnitude / 2 ^ format.fractionBits = 0
  · refine ⟨magnitude % 2 ^ format.fractionBits, 0, ?_, ?_, ?_⟩
    · simp only [subnormal, if_true, Nat.pow_zero, Nat.mul_one]
    · omega
    · have two := Nat.pow_le_pow_right (show 0 < 2 by decide) exponent
      simpa using two
  · refine ⟨2 ^ format.fractionBits + magnitude % 2 ^ format.fractionBits,
      magnitude / 2 ^ format.fractionBits - 1, ?_, ?_, ?_⟩
    · simp only [subnormal, if_false]
    · omega
    · have := Nat.pos_of_ne_zero subnormal
      omega

/-! ### Conversion -/

namespace Word

variable {source target : Format}

/-- Conversion to another format, rounding to nearest.  NaN stays NaN, with its sign. -/
def convert (target : Format) (word : Word source) : Word target :=
  ⟨word.negative, BitVec.ofNat _
    (if word.isNan then target.infinite + 2 ^ (target.fractionBits - 1)
    else if word.magnitude.toNat = source.infinite then target.infinite
    else nearest target (target.unitExponent - source.unitExponent).toNat
      (units source word.magnitude.toNat *
        2 ^ (source.unitExponent - target.unitExponent).toNat))⟩

theorem infinite_lt (format : Format) :
    format.infinite < 2 ^ (format.exponentBits + format.fractionBits) := by
  rw [Nat.pow_add]
  apply Nat.mul_lt_mul_of_pos_right _ (Nat.two_pow_pos _)
  have := Nat.two_pow_pos format.exponentBits
  omega

/-- The magnitude of a converted number. -/
theorem toNat_convert (target : Format) {word : Word source} (number : word.isNan = false) :
    (word.convert target).magnitude.toNat =
      if word.magnitude.toNat = source.infinite then target.infinite
      else nearest target (target.unitExponent - source.unitExponent).toNat
        (units source word.magnitude.toNat *
          2 ^ (source.unitExponent - target.unitExponent).toNat) := by
  unfold convert
  rw [number, BitVec.toNat_ofNat, if_neg Bool.false_ne_true]
  apply Nat.mod_eq_of_lt
  split
  · exact infinite_lt target
  · exact (nearest_le_infinite _ _).trans_lt (infinite_lt target)

theorem isNan_convert_of_isNan {word : Word source} (nan : word.isNan = true)
    (fraction : 0 < target.fractionBits) : (word.convert target).isNan = true := by
  have below : target.infinite + 2 ^ (target.fractionBits - 1) <
      2 ^ (target.exponentBits + target.fractionBits) := by
    have half := Nat.pow_lt_pow_right (show 1 < 2 by decide)
      (show target.fractionBits - 1 < target.fractionBits by omega)
    have field := Nat.two_pow_pos target.exponentBits
    have whole : (2 ^ target.exponentBits - 1) * 2 ^ target.fractionBits +
        2 ^ target.fractionBits = 2 ^ (target.exponentBits + target.fractionBits) := by
      rw [← Nat.succ_mul, Nat.succ_eq_add_one, Nat.sub_add_cancel field, Nat.pow_add]
    unfold Format.infinite
    omega
  have magnitude : (word.convert target).magnitude.toNat =
      target.infinite + 2 ^ (target.fractionBits - 1) := by
    unfold convert
    rw [nan, if_pos rfl, BitVec.toNat_ofNat, Nat.mod_eq_of_lt below]
  unfold isNan
  rw [magnitude]
  exact decide_eq_true (Nat.lt_add_of_pos_right (Nat.two_pow_pos _))

theorem isNan_convert_of_number {word : Word source} (number : word.isNan = false) :
    (word.convert target).isNan = false := by
  unfold isNan
  rw [toNat_convert target number]
  apply decide_eq_false
  split
  · exact Nat.lt_irrefl _
  · exact Nat.not_lt.mpr (nearest_le_infinite _ _)

end Word

/-- Every number of the first format is one of the second. -/
structure Embeds (source target : Format) : Prop where
  exponent : 0 < source.exponentBits
  precision : source.fractionBits ≤ target.fractionBits
  least : target.unitExponent ≤ source.unitExponent
  range : 2 ^ source.exponentBits + (source.unitExponent - target.unitExponent).toNat <
    2 ^ target.exponentBits

theorem embeds_binary32 : Embeds .binary32 .binary64 where
  exponent := by decide
  precision := by decide
  least := by decide
  range := by decide

namespace Word

variable {source target : Format}

/-- A number survives the conversion to a wider format and back. -/
theorem convert_convert (embeds : Embeds source target) {word : Word source}
    (number : word.isNan = false) : (word.convert target).convert source = word := by
  have there := toNat_convert target number
  have wide : (word.convert target).isNan = false := isNan_convert_of_number number
  have back := toNat_convert source wide
  have down : (target.unitExponent - source.unitExponent).toNat = 0 := by
    have := embeds.least
    omega
  have magnitude : ((word.convert target).convert source).magnitude.toNat =
      word.magnitude.toNat := by
    rw [back, there]
    by_cases infinite : word.magnitude.toNat = source.infinite
    · rw [if_pos infinite, if_pos rfl, infinite]
    · have finite : word.magnitude.toNat < source.infinite := by
        have below := of_decide_eq_false number
        omega
      obtain ⟨significand, q, shape, high, bounded⟩ := units_shape embeds.exponent finite
      have precise : significand < 2 ^ (target.fractionBits + 1) :=
        high.trans_le (Nat.pow_le_pow_right (by decide) (Nat.succ_le_succ embeds.precision))
      have room : q + (source.unitExponent - target.unitExponent).toNat + 2 <
          2 ^ target.exponentBits := by
        have := embeds.range
        omega
      obtain ⟨below, exact⟩ := units_nearest precise room
      rw [Nat.pow_add, ← Nat.mul_assoc, ← shape] at below exact
      rw [if_neg infinite, down, if_neg below.ne, exact, Nat.pow_zero, Nat.mul_one]
      exact nearest_units finite.le _
  have same := BitVec.eq_of_toNat_eq magnitude
  cases word
  exact congrArg (Word.mk _) same

/-- Both zeros are numbers of every format. -/
theorem convert_zero (exponent : 0 < source.exponentBits) {wide : Word target}
    (zero : wide.magnitude.toNat = 0) :
    (⟨wide.negative, 0⟩ : Word source).convert target = wide := by
  have positive : 0 < source.infinite := by
    have two := Nat.pow_le_pow_right (show 0 < 2 by decide) exponent
    exact Nat.mul_pos (by omega) (Nat.two_pow_pos _)
  have nothing : units source 0 = 0 := units_small (Nat.two_pow_pos _)
  have number : (⟨wide.negative, 0⟩ : Word source).isNan = false :=
    decide_eq_false (Nat.not_lt_zero _)
  have magnitude := toNat_convert target number
  rw [if_neg (show (0 : BitVec _).toNat ≠ source.infinite by simpa using positive.ne)] at magnitude
  have same : ((⟨wide.negative, 0⟩ : Word source).convert target).magnitude = wide.magnitude := by
    apply BitVec.eq_of_toNat_eq
    rw [magnitude, zero]
    simp [nothing, nearest, roundHalfEven]
  cases wide
  exact congrArg (Word.mk _) same

theorem same_refl (word : Word source) : word.same word = true := by
  unfold same
  split
  · assumption
  · simp

/-- What narrowing and widening again keeps: NaN, and the numbers of the narrow format. -/
theorem same_convert_convert_iff (embeds : Embeds source target) (fraction : 0 < source.fractionBits)
    (wide : Word target) : ((wide.convert source).convert target).same wide = true ↔
      wide.isNan = true ∨ ∃ narrow : Word source, narrow.convert target = wide := by
  have fraction' : 0 < target.fractionBits := fraction.trans_le embeds.precision
  constructor
  · intro survives
    by_cases nan : wide.isNan = true
    · exact .inl nan
    · have number : wide.isNan = false := by simpa using nan
      have narrow : ((wide.convert source).convert target).isNan = false :=
        isNan_convert_of_number (isNan_convert_of_number number)
      refine .inr ?_
      unfold same at survives
      rw [narrow, if_neg Bool.false_ne_true, Bool.or_eq_true, Bool.and_eq_true] at survives
      rcases survives with ⟨-, zero⟩ | equal
      · exact ⟨⟨wide.negative, 0⟩, convert_zero embeds.exponent (of_decide_eq_true zero)⟩
      · exact ⟨wide.convert source, of_decide_eq_true equal⟩
  · rintro (nan | ⟨narrow, rfl⟩)
    · unfold same
      rw [isNan_convert_of_isNan (isNan_convert_of_isNan nan fraction) fraction', if_pos rfl]
      exact nan
    · by_cases nan : narrow.isNan = true
      · have wide := isNan_convert_of_isNan nan fraction'
        unfold same
        rw [isNan_convert_of_isNan (isNan_convert_of_isNan wide fraction) fraction', if_pos rfl]
        exact wide
      · rw [convert_convert embeds (by simpa using nan)]
        exact same_refl _

end Word

end Interchange

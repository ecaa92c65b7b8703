import IcebergRust.Lib.Fallible
import IcebergRust.Spec.ValueBytes
import Mathlib.Data.Nat.Bitwise
import Mathlib.Data.Nat.Digits.Lemmas
import Mathlib.Tactic.Ring

/-!
# Bytes of integers

What the byte functions of `Value` compute, as numbers.

* `ofLeBytes` is the number of little-endian digits in base 256; `ofLeBytes_leBytes` is the round
  trip of a word.
* `signExtendBe_of_small` and `signExtendBe_of_sum` are the two signs of big-endian bytes.
* `signExtendBe_toBeBytesMin` is the round trip of a mantissa in as few bytes as possible.
-/

namespace IcebergRust

open Fallible

/-! ### Little-endian digits -/

theorem ofLeBytes_eq (bytes : List UInt8) :
    ofLeBytes bytes = Nat.ofDigits 256 (bytes.map UInt8.toNat) := by
  induction bytes with
  | nil => rfl
  | cons byte bytes ih =>
    rw [ofLeBytes, List.map_cons, Nat.ofDigits_cons, ih]

theorem ofLeBytes_append (low high : List UInt8) :
    ofLeBytes (low ++ high) = ofLeBytes low + 256 ^ low.length * ofLeBytes high := by
  simp only [ofLeBytes_eq, List.map_append, Nat.ofDigits_append, List.length_map]

theorem ofLeBytes_lt (bytes : List UInt8) : ofLeBytes bytes < 256 ^ bytes.length := by
  have length : (bytes.map UInt8.toNat).length = bytes.length := List.length_map _
  rw [ofLeBytes_eq, ← length]
  apply Nat.ofDigits_lt_base_pow_length (by decide)
  intro digit member
  obtain ⟨byte, -, rfl⟩ := List.mem_map.mp member
  exact byte.toNat_lt

/-- As many bytes of the same number are the same bytes. -/
theorem ofLeBytes_inj {a b : List UInt8} (length : a.length = b.length)
    (same : ofLeBytes a = ofLeBytes b) : a = b := by
  induction a generalizing b with
  | nil => exact (List.length_eq_zero_iff.mp length.symm).symm
  | cons byte bytes ih =>
    cases b with
    | nil => cases length
    | cons other others =>
      rw [ofLeBytes, ofLeBytes] at same
      have small := byte.toNat_lt
      have small' := other.toNat_lt
      rw [ih (Nat.succ.inj length) (by omega),
        UInt8.toNat_inj.mp (show byte.toNat = other.toNat by omega)]

/-- The digits of a number are its bytes. -/
theorem ofLeBytes_digits (n : Nat) : ofLeBytes ((Nat.digits 256 n).map UInt8.ofNat) = n := by
  have bytes : ((Nat.digits 256 n).map UInt8.ofNat).map UInt8.toNat = Nat.digits 256 n := by
    rw [List.map_map]
    refine (List.map_congr_left ?_).trans (List.map_id _)
    intro digit member
    exact UInt8.toNat_ofNat_of_lt' (Nat.digits_lt_base (by decide) member)
  rw [ofLeBytes_eq, bytes, Nat.ofDigits_digits]

/-- A number and its complement add up to all ones. -/
theorem ofLeBytes_complement (bytes : List UInt8) :
    ofLeBytes (bytes.map (~~~ ·)) + ofLeBytes bytes + 1 = 256 ^ bytes.length := by
  induction bytes with
  | nil => rfl
  | cons byte bytes ih =>
    have small := byte.toNat_lt
    have flipped : (~~~ byte).toNat = 255 - byte.toNat := UInt8.toNat_not byte
    rw [List.map_cons, ofLeBytes, ofLeBytes, List.length_cons, Nat.pow_succ, ← ih, flipped]
    omega

theorem length_addOne (bytes : List UInt8) : (addOne bytes).length = bytes.length := by
  induction bytes with
  | nil => rfl
  | cons byte bytes ih =>
    unfold addOne
    split
    · rw [List.length_cons, List.length_cons, ih]
    · rfl

variable {bytes : List UInt8}

/-- The carry is lost only where every bit is set. -/
theorem ofLeBytes_addOne (room : ofLeBytes bytes + 1 < 256 ^ bytes.length) :
    ofLeBytes (addOne bytes) = ofLeBytes bytes + 1 := by
  induction bytes with
  | nil => exact absurd room (by decide)
  | cons byte bytes ih =>
    have small := byte.toNat_lt
    unfold addOne
    by_cases full : byte = 255
    · rw [if_pos full]
      subst full
      rw [ofLeBytes, List.length_cons, Nat.pow_succ] at room
      have below : ofLeBytes bytes + 1 < 256 ^ bytes.length := by
        have : (255 : UInt8).toNat = 255 := rfl
        omega
      have digits : (0 : UInt8).toNat = 0 ∧ (255 : UInt8).toNat = 255 := ⟨rfl, rfl⟩
      rw [ofLeBytes, ofLeBytes, ih below, digits.1, digits.2]
      omega
    · rw [if_neg full]
      have unfull : byte.toNat ≠ 255 := fun same => full (UInt8.toNat_inj.mp same)
      have next : (byte + 1).toNat = byte.toNat + 1 := by
        rw [UInt8.toNat_add]
        exact Nat.mod_eq_of_lt (show byte.toNat + 1 < 256 by omega)
      rw [ofLeBytes, ofLeBytes, next]
      omega

/-! ### Words -/

/-- The first bytes of a word are its low bits. -/
theorem ofLeBytes_extracts {width : Nat} (bits : BitVec width) (count : Nat) :
    ofLeBytes ((List.range count).map fun i => ⟨bits.extractLsb' (8 * i) 8⟩) =
      bits.toNat % 256 ^ count := by
  induction count with
  | zero => rw [Nat.pow_zero, Nat.mod_one]; rfl
  | succ count ih =>
    have byte : ofLeBytes [(⟨bits.extractLsb' (8 * count) 8⟩ : UInt8)] =
        bits.toNat / 256 ^ count % 256 := by
      show (bits.extractLsb' (8 * count) 8).toNat + 256 * 0 = _
      rw [BitVec.extractLsb'_toNat, Nat.shiftRight_eq_div_pow, Nat.pow_mul]
      rfl
    rw [List.range_succ, List.map_append, ofLeBytes_append, ih, List.length_map,
      List.length_range, List.map_singleton, byte, Nat.pow_succ, Nat.mod_mul]

theorem length_leBytes {width : Nat} (bits : BitVec width) :
    (Value.leBytes bits).length = width / 8 := by
  simp [Value.leBytes]

/-- The bytes of a word give the word back. -/
theorem fromLeBytes_leBytes {count : Nat} (bits : BitVec (8 * count)) :
    fromLeBytes (8 * count) (Value.leBytes bits) = .ok bits := by
  have whole : 8 * count / 8 = count := Nat.mul_div_cancel_left count (by decide)
  have value : ofLeBytes (Value.leBytes bits) = bits.toNat := by
    have below : bits.toNat < 256 ^ count := by
      have small := bits.isLt
      rwa [Nat.pow_mul] at small
    unfold Value.leBytes
    rw [ofLeBytes_extracts, whole, Nat.mod_eq_of_lt below]
  unfold fromLeBytes
  rw [length_leBytes, whole, if_pos rfl, value, BitVec.ofNat_toNat, BitVec.setWidth_eq]

/-- Bytes of the width of a word are the bytes of a word. -/
theorem leBytes_ofLeBytes {count : Nat} (length : bytes.length = count) :
    Value.leBytes (BitVec.ofNat (8 * count) (ofLeBytes bytes)) = bytes := by
  have whole : 8 * count / 8 = count := Nat.mul_div_cancel_left count (by decide)
  have below := ofLeBytes_lt bytes
  rw [length] at below
  apply ofLeBytes_inj
  · rw [length_leBytes, whole, length]
  · unfold Value.leBytes
    rw [ofLeBytes_extracts, whole, BitVec.toNat_ofNat, Nat.pow_mul, Nat.mod_mod]
    exact Nat.mod_eq_of_lt below

/-! ### Two's complement -/

theorem signExtendBe_eq_toInt (nonempty : bytes ≠ []) :
    signExtendBe bytes =
      .ok ((ofLeBytes bytes.reverse : Int).bmod (256 ^ bytes.length)) := by
  unfold signExtendBe
  rw [if_neg (by simpa using nonempty), BitVec.toInt_ofNat', Nat.pow_mul]

/-- Bytes without the sign bit are their unsigned number. -/
theorem signExtendBe_of_small (nonempty : bytes ≠ [])
    (small : 2 * ofLeBytes bytes.reverse < 256 ^ bytes.length) :
    signExtendBe bytes = .ok (ofLeBytes bytes.reverse : Int) := by
  rw [signExtendBe_eq_toInt nonempty, Int.bmod_eq_of_le_mul_two]
  · omega
  · omega

/-- Bytes with the sign bit are as far below zero as they are from their range. -/
theorem signExtendBe_of_sum {n : Nat} (nonempty : bytes ≠ [])
    (sum : ofLeBytes bytes.reverse + n = 256 ^ bytes.length) (small : 2 * n ≤ 256 ^ bytes.length) :
    signExtendBe bytes = .ok (-n : Int) := by
  have wrapped : (ofLeBytes bytes.reverse : Int) = -n + 1 * (256 ^ bytes.length : Nat) := by
    omega
  rw [signExtendBe_eq_toInt nonempty, wrapped, Int.add_mul_bmod_self_right,
    Int.bmod_eq_of_le_mul_two]
  · omega
  · have := Nat.pow_pos (n := bytes.length) (show 0 < 256 by decide)
    omega

/-- The sign bit of big-endian bytes compares their number with half their range. -/
theorem sign_iff (first : UInt8) (rest : List UInt8) :
    first &&& 0x80 ≠ 0 ↔ 256 ^ (rest.length + 1) ≤ 2 * ofLeBytes (first :: rest).reverse := by
  have below := ofLeBytes_lt rest.reverse
  rw [List.length_reverse] at below
  have set : first &&& 0x80 ≠ 0 ↔ 128 ≤ first.toNat := by
    have small := first.toNat_lt
    have masked : (first &&& 0x80).toNat = first.toNat &&& 2 ^ 7 := UInt8.toNat_and ..
    rw [ne_eq, ← UInt8.toNat_inj, masked, Nat.and_two_pow, Nat.testBit_eq_decide_div_mod_eq]
    simp
    omega
  have last : ofLeBytes [first] = first.toNat := by
    simp [ofLeBytes]
  rw [set, List.reverse_cons, ofLeBytes_append, List.length_reverse, last, Nat.pow_succ]
  constructor
  · intro high
    have scaled := Nat.mul_le_mul_left (256 ^ rest.length) high
    omega
  · intro above
    by_contra low
    have scaled := Nat.mul_le_mul_left (256 ^ rest.length) (show first.toNat ≤ 127 by omega)
    omega

/-- The digits of a positive number, most significant first. -/
theorem exists_digits {n : Nat} (positive : 0 < n) :
    ∃ first rest, (Nat.digits 256 n).map UInt8.ofNat = (first :: rest).reverse ∧
      256 ^ rest.length ≤ n ∧ n < 256 ^ (rest.length + 1) := by
  cases shape : ((Nat.digits 256 n).map UInt8.ofNat).reverse with
  | nil =>
    rw [List.reverse_eq_nil_iff, List.map_eq_nil_iff, Nat.digits_eq_nil_iff_eq_zero] at shape
    omega
  | cons first rest =>
    have digits : (Nat.digits 256 n).map UInt8.ofNat = (first :: rest).reverse := by
      rw [← shape, List.reverse_reverse]
    have length : (Nat.digits 256 n).length = rest.length + 1 := by
      rw [← List.length_map UInt8.ofNat, digits, List.length_reverse, List.length_cons]
    refine ⟨first, rest, digits, ?_, ?_⟩
    · have least := Nat.base_pow_length_digits_le 256 n (by decide) positive.ne'
      rw [length, Nat.pow_succ] at least
      omega
    · rw [← length]
      exact Nat.lt_base_pow_length_digits (by decide)

/-- The complement of a magnitude with a byte of zeros before it: its top byte is all ones. -/
theorem complement_bytes {n : Nat} {top : UInt8} {others : List UInt8}
    (digits : (Nat.digits 256 n).map UInt8.ofNat = (top :: others).reverse) (positive : 0 < n)
    (high : n < 256 ^ (others.length + 1)) :
    ∃ first rest, (addOne (((top :: others).reverse ++ [0]).map (~~~ ·))).reverse =
        0xff :: first :: rest ∧ rest.length = others.length ∧
      ofLeBytes (first :: rest).reverse + n = 256 ^ (rest.length + 1) := by
  have length : ((top :: others).reverse ++ [(0 : UInt8)]).length = others.length + 2 := by simp
  have number : ofLeBytes ((top :: others).reverse ++ [0]) = n := by
    rw [ofLeBytes_append, ← digits, ofLeBytes_digits]
    rfl
  have sum := ofLeBytes_complement ((top :: others).reverse ++ [0])
  rw [length, number] at sum
  have next := @ofLeBytes_addOne (((top :: others).reverse ++ [0]).map (~~~ ·)) (by
    rw [List.length_map, length]
    omega)
  have size := length_addOne (((top :: others).reverse ++ [0]).map (~~~ ·))
  rw [List.length_map, length] at size
  generalize addOne (((top :: others).reverse ++ [0]).map (~~~ ·)) = bytes at next size
  match shape : bytes.reverse with
  | [] =>
    rw [← List.length_reverse, shape] at size
    cases size
  | [_] =>
    rw [← List.length_reverse, shape] at size
    cases size
  | last :: first :: rest =>
    rw [← List.length_reverse, shape, List.length_cons, List.length_cons] at size
    have split : ofLeBytes bytes =
        ofLeBytes (first :: rest).reverse + 256 ^ (rest.length + 1) * last.toNat := by
      rw [← List.reverse_reverse bytes, shape, List.reverse_cons, ofLeBytes_append]
      simp [ofLeBytes]
    have below := ofLeBytes_lt (first :: rest).reverse
    rw [List.length_reverse, List.length_cons] at below
    have same : rest.length = others.length := by omega
    have small := last.toNat_lt
    rw [← same] at sum high
    rw [Nat.pow_succ 256 (rest.length + 1)] at sum
    have ones : last.toNat = 255 := by
      by_contra other
      have scaled := Nat.mul_le_mul_left (256 ^ (rest.length + 1)) (show last.toNat ≤ 254 by omega)
      omega
    have byte : last = 0xff := UInt8.toNat_inj.mp ones
    refine ⟨first, rest, by rw [byte], same, ?_⟩
    rw [split, ones] at next
    omega

/-- What `decimal_to_be_bytes_min` computes: the digits of a positive mantissa, and the complement
of a negative one, each with a byte more where the sign bit is not that of the mantissa. -/
theorem toBeBytesMin_cases (decimal : Decimal) :
    (decimal.mantissa = 0 ∧ decimal.toBeBytesMin = [0]) ∨
    (0 < decimal.mantissa ∧ ∃ first rest,
      ofLeBytes (first :: rest).reverse = decimal.mantissa.natAbs ∧
      256 ^ rest.length ≤ decimal.mantissa.natAbs ∧
      decimal.toBeBytesMin = if first &&& 0x80 ≠ 0 then 0 :: first :: rest else first :: rest) ∨
    (decimal.mantissa < 0 ∧ ∃ first rest,
      ofLeBytes (first :: rest).reverse + decimal.mantissa.natAbs = 256 ^ (rest.length + 1) ∧
      256 ^ rest.length ≤ decimal.mantissa.natAbs ∧
      decimal.toBeBytesMin =
        if first &&& 0x80 ≠ 0 then first :: rest else 0xff :: first :: rest) := by
  rcases lt_trichotomy decimal.mantissa 0 with negative | zero | positive
  · obtain ⟨top, others, digits, low, high⟩ := exists_digits (Int.natAbs_pos.mpr negative.ne)
    have magnitude := Int.natAbs_pos.mpr negative.ne
    obtain ⟨first, rest, bytes, length, value⟩ := complement_bytes digits magnitude high
    refine .inr (.inr ⟨negative, first, rest, value, length ▸ low, ?_⟩)
    unfold Decimal.toBeBytesMin
    simp only [if_neg negative.ne, if_pos negative, digits, bytes, true_and]
  · refine .inl ⟨zero, ?_⟩
    unfold Decimal.toBeBytesMin
    rw [if_pos zero]
  · obtain ⟨first, rest, digits, low, high⟩ := exists_digits (Int.natAbs_pos.mpr positive.ne')
    refine .inr (.inl ⟨positive, first, rest, ?_, low, ?_⟩)
    · rw [← digits, ofLeBytes_digits]
    · unfold Decimal.toBeBytesMin
      simp only [if_neg positive.ne', if_neg positive.not_gt, digits, List.reverse_reverse]

/-- A mantissa survives the way through its bytes. -/
theorem signExtendBe_toBeBytesMin (decimal : Decimal) :
    signExtendBe decimal.toBeBytesMin = .ok decimal.mantissa := by
  rcases toBeBytesMin_cases decimal with ⟨zero, bytes⟩ | ⟨positive, first, rest, value, -, bytes⟩ |
    ⟨negative, first, rest, sum, -, bytes⟩
  · rw [bytes, zero]
    rfl
  · have sign := sign_iff first rest
    have below := ofLeBytes_lt (first :: rest).reverse
    have magnitude : (decimal.mantissa.natAbs : Int) = decimal.mantissa :=
      Int.natAbs_of_nonneg positive.le
    rw [List.length_reverse, List.length_cons] at below
    rw [bytes]
    by_cases set : first &&& 0x80 ≠ 0
    · have padded : ofLeBytes (0 :: first :: rest).reverse = decimal.mantissa.natAbs := by
        rw [List.reverse_cons, ofLeBytes_append, value]
        rfl
      rw [if_pos set, signExtendBe_of_small (List.cons_ne_nil _ _), padded, magnitude]
      rw [padded, List.length_cons, List.length_cons, Nat.pow_succ, ← value]
      omega
    · rw [if_neg set, signExtendBe_of_small (List.cons_ne_nil _ _), value, magnitude]
      exact Nat.not_le.mp fun high => set (sign.mpr high)
  · have sign := sign_iff first rest
    have below := ofLeBytes_lt (first :: rest).reverse
    have magnitude : -(decimal.mantissa.natAbs : Int) = decimal.mantissa := by
      omega
    rw [List.length_reverse, List.length_cons] at below
    rw [bytes]
    by_cases set : first &&& 0x80 ≠ 0
    · have high := sign.mp set
      rw [if_pos set, signExtendBe_of_sum (List.cons_ne_nil _ _) sum, magnitude]
      rw [List.length_cons]
      omega
    · have padded : ofLeBytes (0xff :: first :: rest).reverse + decimal.mantissa.natAbs =
          256 ^ (rest.length + 1 + 1) := by
        rw [List.reverse_cons, ofLeBytes_append, List.length_reverse, List.length_cons,
          Nat.pow_succ 256 (rest.length + 1), ← sum]
        show _ + _ * 255 + _ = _
        omega
      rw [if_neg set, signExtendBe_of_sum (List.cons_ne_nil _ _) padded, magnitude]
      rw [List.length_cons, List.length_cons, Nat.pow_succ]
      omega

/-- A mantissa that so many bytes hold takes no more. -/
theorem length_toBeBytesMin_le {decimal : Decimal} {count : Nat}
    (low : -(256 ^ count : Nat) ≤ decimal.mantissa * 2)
    (high : decimal.mantissa * 2 < (256 ^ count : Nat)) (positive : 0 < count) :
    decimal.toBeBytesMin.length ≤ count := by
  have within : ∀ {n : Nat}, 256 ^ n < 256 ^ count → n < count :=
    fun less => (Nat.pow_lt_pow_iff_right (by decide)).mp less
  have room := Nat.pow_pos (n := count) (show 0 < 256 by decide)
  rcases toBeBytesMin_cases decimal with ⟨-, bytes⟩ | ⟨nonneg, first, rest, value, least, bytes⟩ |
    ⟨negative, first, rest, sum, least, bytes⟩
  · rw [bytes]
    exact positive
  · have sign := sign_iff first rest
    rw [value] at sign
    rw [bytes]
    by_cases set : first &&& 0x80 ≠ 0
    · rw [if_pos set]
      exact within (n := rest.length + 1) (by
        have := sign.mp set
        omega)
    · rw [if_neg set]
      exact within (n := rest.length) (by omega)
  · have sign := sign_iff first rest
    rw [bytes]
    by_cases set : first &&& 0x80 ≠ 0
    · rw [if_pos set]
      exact within (n := rest.length) (by omega)
    · rw [if_neg set]
      exact within (n := rest.length + 1) (by
        have below := Nat.not_le.mp fun above => set (sign.mpr above)
        omega)

end IcebergRust

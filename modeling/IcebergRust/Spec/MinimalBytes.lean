import IcebergRust.Spec.LittleEndian

/-!
# Shortest big-endian bytes

`i128_to_be_bytes_min` of `iceberg-rust-spec/src/spec/decimal.rs` next to
`decimal_to_be_bytes_min`, and `sign_extend_be`, which reads both back.

* `signExtendBe_eq_map` reads bytes as the source does: extended to sixteen of them, and those as
  an `i128`.
* A first byte that repeats the sign of the second one can be dropped (`signExtendBe_cons`); any
  other one is needed (`eq_signByte_of_fits`).
* `toBeBytesMin_shortest` is the result about both functions.
-/

namespace IcebergRust

open Fallible

/-! ### The functions -/

/-- `sign_extend_be` to `n` bytes. -/
def signExtendBeTo (n : Nat) (bytes : List UInt8) : Except Error (List UInt8) :=
  if n < bytes.length then
    .error (.panicked ("Array too large, expected less than " ++ toString n))
  else match bytes with
    | [] => .error (.panicked "index out of bounds")
    | first :: rest =>
      let padding : UInt8 := if first &&& 128 = 128 then 255 else 0
      .ok (List.replicate (n - (first :: rest).length) padding ++ first :: rest)

/-- `i128::from_be_bytes`. -/
def i128FromBeBytes (bytes : List UInt8) : BitVec 128 := BitVec.ofNat 128 (ofLeBytes bytes.reverse)

/-- `i128::to_be_bytes`. -/
def i128ToBeBytes (value : BitVec 128) : List UInt8 := (Value.leBytes value).reverse

/-- The loop of `i128_to_be_bytes_min`: padding is dropped up to the last byte, and where the next
byte has the sign of the value. -/
def dropPadding (isNegative : Bool) : List UInt8 → List UInt8
  | first :: second :: rest =>
    let padding : UInt8 := if isNegative then 0xff else 0x00
    if first = padding ∧ decide (second &&& 0x80 ≠ 0) = isNegative then
      dropPadding isNegative (second :: rest)
    else first :: second :: rest
  | bytes => bytes

/-- `i128_to_be_bytes_min`. -/
def i128ToBeBytesMin (value : BitVec 128) : List UInt8 :=
  dropPadding (decide (value.toInt < 0)) (i128ToBeBytes value)

/-! ### Signs -/

/-- The byte that extends the sign of a byte. -/
def signByte (byte : UInt8) : UInt8 := if byte &&& 0x80 ≠ 0 then 0xff else 0x00

/-- So many bytes hold a number in two's complement. -/
def FitsBytes (count : Nat) (value : Int) : Prop :=
  -(256 ^ count : Nat) ≤ value * 2 ∧ value * 2 < (256 ^ count : Nat)

variable {value : Int} {bytes : List UInt8}

theorem FitsBytes.mono {count more : Nat} (fits : FitsBytes count value) (le : count ≤ more) :
    FitsBytes more value := by
  have wider := Nat.pow_le_pow_right (show 0 < 256 by decide) le
  obtain ⟨low, high⟩ := fits
  constructor
  · omega
  · omega

theorem signExtendBe_ne_nil (decodes : signExtendBe bytes = .ok value) : bytes ≠ [] := by
  rintro rfl
  cases decodes

/-- Bytes hold the number they are read as. -/
theorem fits_of_signExtendBe (decodes : signExtendBe bytes = .ok value) :
    FitsBytes bytes.length value := by
  rw [signExtendBe_eq_toInt (signExtendBe_ne_nil decodes)] at decodes
  obtain rfl := Except.ok.inj decodes
  have positive := Nat.pow_pos (n := bytes.length) (show 0 < 256 by decide)
  have low := Int.le_bmod (x := (ofLeBytes bytes.reverse : Int)) positive
  have high := Int.bmod_lt (x := (ofLeBytes bytes.reverse : Int)) positive
  constructor
  · omega
  · omega

/-- As many bytes of the same number are the same bytes. -/
theorem signExtendBe_inj {a b : List UInt8} (length : a.length = b.length)
    (first : signExtendBe a = .ok value) (second : signExtendBe b = .ok value) : a = b := by
  have same := first.trans second.symm
  rw [signExtendBe_eq_toInt (signExtendBe_ne_nil first),
    signExtendBe_eq_toInt (signExtendBe_ne_nil second), length] at same
  have digits := congrArg (· % ((256 ^ b.length : Nat) : Int)) (Except.ok.inj same)
  simp only [Int.bmod_emod] at digits
  have small := ofLeBytes_lt a.reverse
  have small' := ofLeBytes_lt b.reverse
  rw [List.length_reverse] at small small'
  rw [length] at small
  rw [Int.emod_eq_of_lt (by omega) (by omega), Int.emod_eq_of_lt (by omega) (by omega)] at digits
  have reversed : a.reverse = b.reverse := by
    apply ofLeBytes_inj
    · rw [List.length_reverse, List.length_reverse, length]
    · exact Int.ofNat_inj.mp digits
  exact List.reverse_inj.mp reversed

theorem ofLeBytes_reverse_cons (first : UInt8) (rest : List UInt8) :
    ofLeBytes (first :: rest).reverse =
      ofLeBytes rest.reverse + 256 ^ rest.length * first.toNat := by
  rw [List.reverse_cons, ofLeBytes_append, List.length_reverse]
  rfl

/-- The sign bit of the first byte is the sign of the number. -/
theorem sign_of_signExtendBe {first : UInt8} {rest : List UInt8}
    (decodes : signExtendBe (first :: rest) = .ok value) : first &&& 0x80 ≠ 0 ↔ value < 0 := by
  have below := ofLeBytes_lt (first :: rest).reverse
  rw [List.length_reverse, List.length_cons] at below
  rw [sign_iff first rest]
  constructor
  · intro high
    have sum : ofLeBytes (first :: rest).reverse +
        (256 ^ (rest.length + 1) - ofLeBytes (first :: rest).reverse) =
          256 ^ (first :: rest).length := by
      rw [List.length_cons]
      omega
    have negative := signExtendBe_of_sum (List.cons_ne_nil first rest) sum (by
      rw [List.length_cons]
      omega)
    obtain rfl := Except.ok.inj (decodes.symm.trans negative)
    omega
  · intro negative
    by_contra low
    have small := signExtendBe_of_small (List.cons_ne_nil first rest) (by
      rw [List.length_cons]
      omega)
    obtain rfl := Except.ok.inj (decodes.symm.trans small)
    omega

/-- A byte that repeats the sign of the next one changes nothing. -/
theorem signExtendBe_cons (second : UInt8) (rest : List UInt8) :
    signExtendBe (signByte second :: second :: rest) = signExtendBe (second :: rest) := by
  have sign := sign_iff second rest
  have below := ofLeBytes_lt (second :: rest).reverse
  have padded := ofLeBytes_reverse_cons (signByte second) (second :: rest)
  rw [List.length_reverse, List.length_cons] at below
  rw [List.length_cons] at padded
  have wider : 256 ^ (rest.length + 1 + 1) = 256 ^ (rest.length + 1) * 256 := Nat.pow_succ ..
  unfold signByte at padded ⊢
  by_cases set : second &&& 0x80 ≠ 0
  · have high := sign.mp set
    rw [if_pos set] at padded ⊢
    change _ = _ + _ * 255 at padded
    have negative {bytes : List UInt8} (some : bytes ≠ [])
        (sum : ofLeBytes bytes.reverse +
          (256 ^ (rest.length + 1) - ofLeBytes (second :: rest).reverse) = 256 ^ bytes.length)
        (small : 256 ^ (rest.length + 1) ≤ 256 ^ bytes.length) :=
      signExtendBe_of_sum some sum (by omega)
    rw [negative (List.cons_ne_nil _ _), negative (List.cons_ne_nil _ _)]
    all_goals simp only [List.length_cons]; omega
  · have low := Nat.not_le.mp fun high => set (sign.mpr high)
    rw [if_neg set] at padded ⊢
    change _ = _ + _ * 0 at padded
    rw [signExtendBe_of_small (List.cons_ne_nil _ _), signExtendBe_of_small (List.cons_ne_nil _ _),
      padded, Nat.mul_zero, Nat.add_zero]
    all_goals simp only [List.length_cons]; omega

/-- A first byte that is not needed repeats the sign of the next one. -/
theorem eq_signByte_of_fits {first second : UInt8} {rest : List UInt8}
    (decodes : signExtendBe (first :: second :: rest) = .ok value)
    (fits : FitsBytes (rest.length + 1) value) :
    first = signByte second ∧ signExtendBe (second :: rest) = .ok value := by
  have divides : 256 ^ (rest.length + 1) ∣ 256 ^ (rest.length + 1 + 1) :=
    Nat.pow_dvd_pow 256 (Nat.le_succ _)
  have split : (ofLeBytes (first :: second :: rest).reverse : Int) =
      ofLeBytes (second :: rest).reverse + first.toNat * (256 ^ (rest.length + 1) : Nat) := by
    rw [ofLeBytes_reverse_cons first, List.length_cons, Nat.mul_comm]
    exact Int.natCast_add ..
  have whole : value =
      (ofLeBytes (first :: second :: rest).reverse : Int).bmod (256 ^ (rest.length + 1 + 1)) := by
    rw [signExtendBe_eq_toInt (List.cons_ne_nil _ _), List.length_cons, List.length_cons] at decodes
    exact (Except.ok.inj decodes).symm
  have shorter : signExtendBe (second :: rest) = .ok value := by
    rw [signExtendBe_eq_toInt (List.cons_ne_nil _ _), List.length_cons,
      ← Int.bmod_eq_of_le_mul_two fits.1 fits.2, whole, Int.bmod_bmod_of_dvd divides, split,
      Int.add_mul_bmod_self_right]
  refine ⟨?_, shorter⟩
  have length : (first :: second :: rest).length = (signByte second :: second :: rest).length := rfl
  have padded := signExtendBe_inj length decodes ((signExtendBe_cons second rest).trans shorter)
  exact (List.cons_eq_cons.mp padded).1

/-! ### Dropping -/

theorem padding_eq {second : UInt8} {isNegative : Bool}
    (sign : decide (second &&& 0x80 ≠ 0) = isNegative) :
    (if isNegative then 0xff else 0x00) = signByte second := by
  subst sign
  unfold signByte
  simp only [decide_eq_true_eq]

/-- Dropping padding keeps the number, and leaves no more bytes than any that hold it. -/
theorem dropPadding_spec (decodes : signExtendBe bytes = .ok value) :
    signExtendBe (dropPadding (decide (value < 0)) bytes) = .ok value ∧
      ∀ count, 0 < count → FitsBytes count value →
        (dropPadding (decide (value < 0)) bytes).length ≤ count := by
  induction bytes with
  | nil => cases decodes
  | cons first bytes ih =>
    cases bytes with
    | nil => exact ⟨decodes, fun count positive _ => positive⟩
    | cons second rest =>
      rw [dropPadding]
      by_cases padded : first = (if decide (value < 0) then 0xff else 0x00) ∧
          decide (second &&& 0x80 ≠ 0) = decide (value < 0)
      · rw [if_pos padded]
        rw [padded.1.trans (padding_eq padded.2), signExtendBe_cons] at decodes
        exact ih decodes
      · rw [if_neg padded]
        refine ⟨decodes, fun count positive fits => ?_⟩
        by_contra shorter
        have below : count ≤ rest.length + 1 := by
          simp only [List.length_cons] at shorter
          omega
        obtain ⟨repeats, shorter⟩ := eq_signByte_of_fits decodes (fits.mono below)
        have sign : decide (second &&& 0x80 ≠ 0) = decide (value < 0) :=
          decide_eq_decide.mpr (sign_of_signExtendBe shorter)
        exact padded ⟨repeats.trans (padding_eq sign).symm, sign⟩

/-! ### Reading back -/

theorem signBit_iff (byte : UInt8) : byte &&& 128 = 128 ↔ byte &&& 0x80 ≠ 0 := by
  have masked : (byte &&& 128).toNat = byte.toNat &&& 2 ^ 7 := UInt8.toNat_and ..
  rw [ne_eq, ← UInt8.toNat_inj, ← UInt8.toNat_inj, masked, Nat.and_two_pow]
  cases Nat.testBit byte.toNat 7 <;> decide

theorem signExtendBe_replicate (count : Nat) (first : UInt8) (rest : List UInt8) :
    signExtendBe (List.replicate count (signByte first) ++ first :: rest) =
      signExtendBe (first :: rest) := by
  have same : signByte (signByte first) = signByte first := by
    unfold signByte
    split <;> decide
  induction count with
  | zero => rfl
  | succ count ih =>
    rw [List.replicate_succ, List.cons_append, ← ih]
    cases count with
    | zero => exact signExtendBe_cons first rest
    | succ count =>
      have padded := signExtendBe_cons (signByte first)
        (List.replicate count (signByte first) ++ first :: rest)
      rw [same] at padded
      exact padded

/-- Up to sixteen bytes are extended and then read as an `i128`. -/
theorem signExtendBe_eq_map (length : bytes.length ≤ 16) :
    signExtendBe bytes =
      (signExtendBeTo 16 bytes).map fun extended => (i128FromBeBytes extended).toInt := by
  unfold signExtendBeTo
  rw [if_neg (Nat.not_lt.mpr length)]
  cases bytes with
  | nil => rfl
  | cons first rest =>
    have padding : (if first &&& 128 = 128 then 255 else 0) = signByte first := by
      unfold signByte
      exact if_congr (signBit_iff first) rfl rfl
    dsimp only
    rw [padding, ← signExtendBe_replicate (16 - (first :: rest).length)]
    have sixteen : (List.replicate (16 - (first :: rest).length) (signByte first) ++
        first :: rest).length = 16 := by
      rw [List.length_append, List.length_replicate]
      omega
    unfold signExtendBe
    rw [sixteen, if_neg (by simp)]
    rfl

theorem signExtendBe_i128ToBeBytes (value : BitVec 128) :
    signExtendBe (i128ToBeBytes value) = .ok value.toInt := by
  have length : (i128ToBeBytes value).length = 16 := by
    rw [i128ToBeBytes, List.length_reverse, length_leBytes]
  have number : ofLeBytes (Value.leBytes value) = value.toNat := by
    unfold Value.leBytes
    rw [ofLeBytes_extracts]
    exact Nat.mod_eq_of_lt value.isLt
  unfold signExtendBe
  rw [if_neg (by rw [List.isEmpty_iff, ← List.length_eq_zero_iff, length]; decide), length,
    i128ToBeBytes, List.reverse_reverse, number]
  exact congrArg _ (congrArg BitVec.toInt (BitVec.ofNat_toNat ..))

example : i128ToBeBytesMin 128 = [0x00, 0x80] ∧ i128ToBeBytesMin (-129) = [0xff, 0x7f] := by decide

/-! ### The shortest bytes -/

/-- Bytes that `sign_extend_be` maps back to a value. -/
def MapsBack (value : BitVec 128) (bytes : List UInt8) : Prop :=
  (signExtendBeTo 16 bytes).map i128FromBeBytes = .ok value

/-- The shortest of them, and no others are as short. -/
structure ShortestBytes (value : BitVec 128) (bytes : List UInt8) : Prop where
  nonempty : bytes ≠ []
  back : MapsBack value bytes
  shortest : ∀ other, MapsBack value other → other = bytes ∨ bytes.length < other.length

theorem mapsBack_iff {value : BitVec 128} :
    MapsBack value bytes ↔ bytes.length ≤ 16 ∧ signExtendBe bytes = .ok value.toInt := by
  unfold MapsBack
  by_cases length : bytes.length ≤ 16
  · rw [signExtendBe_eq_map length]
    simp [length, BitVec.toInt_inj]
  · unfold signExtendBeTo
    rw [if_pos (Nat.not_le.mp length)]
    simp [length, Except.map]

/-- For every `i128` and every scale the two functions return the same bytes, the shortest ones that
are read back as the value. -/
theorem toBeBytesMin_shortest (value : BitVec 128) (scale : Nat) :
    (⟨value.toInt, scale⟩ : Decimal).toBeBytesMin = i128ToBeBytesMin value ∧
      ShortestBytes value (i128ToBeBytesMin value) := by
  have whole := signExtendBe_i128ToBeBytes value
  obtain ⟨decodes, least⟩ := dropPadding_spec whole
  have decimal := signExtendBe_toBeBytesMin ⟨value.toInt, scale⟩
  have positive {bytes : List UInt8} (decodes : signExtendBe bytes = .ok value.toInt) :
      0 < bytes.length := List.length_pos_iff.mpr (signExtendBe_ne_nil decodes)
  have atMost {bytes : List UInt8} (decodes : signExtendBe bytes = .ok value.toInt) :
      (i128ToBeBytesMin value).length ≤ bytes.length :=
    least _ (positive decodes) (fits_of_signExtendBe decodes)
  constructor
  · have fits := fits_of_signExtendBe decodes
    have other : (⟨value.toInt, scale⟩ : Decimal).toBeBytesMin.length ≤
        (i128ToBeBytesMin value).length :=
      length_toBeBytesMin_le fits.1 fits.2 (positive decodes)
    exact signExtendBe_inj (Nat.le_antisymm other (atMost decimal)) decimal decodes
  · refine ⟨signExtendBe_ne_nil decodes, mapsBack_iff.mpr ⟨?_, decodes⟩, ?_⟩
    · exact (atMost whole).trans_eq (by rw [i128ToBeBytes, List.length_reverse, length_leBytes])
    · intro other back
      have decodes' := (mapsBack_iff.mp back).2
      rcases (atMost decodes').eq_or_lt with same | shorter
      · exact .inl (signExtendBe_inj same.symm decodes' decodes)
      · exact .inr shorter

end IcebergRust

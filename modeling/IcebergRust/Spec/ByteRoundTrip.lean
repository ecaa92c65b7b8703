import IcebergRust.Spec.LittleEndian

/-!
# Round trip of values through bytes

`ByteBuf::from` and `Value::try_from_bytes` against each other.

* `Inhabits` says which values a primitive type has.
* `tryFromBytes_toBytes` is the round trip of every value of every type.
* `panics_iff` finds the one input that is indexed before it is looked at: no bytes, for a decimal.
-/

namespace IcebergRust

open Fallible Interchange

/-! ### Text -/

theorem toList_loop (bytes : ByteArray) (count : Nat) : ∀ (i : Nat) (read : List UInt8),
    i + count = bytes.size →
      ByteArray.toList.loop bytes i read = read.reverse ++ bytes.data.toList.drop i := by
  induction count with
  | zero =>
    intro i read whole
    have outside : bytes.data.toList.length ≤ i := Nat.le_of_eq whole.symm
    rw [ByteArray.toList.loop, if_neg (by omega), List.drop_eq_nil_of_le outside, List.append_nil]
  | succ count ih =>
    intro i read whole
    have inside : i < bytes.data.toList.length := show i < bytes.size by omega
    have item : bytes.get! i = bytes.data.toList[i] := getElem!_pos bytes.data i inside
    rw [ByteArray.toList.loop, if_pos (show i < bytes.size by omega), ih (i + 1) _ (by omega),
      List.reverse_cons, List.append_assoc, item, List.singleton_append,
      ← List.drop_eq_getElem_cons]

theorem toByteArray_toList (bytes : ByteArray) : bytes.toList.toByteArray = bytes := by
  have listed : bytes.toList = bytes.data.toList :=
    toList_loop bytes bytes.size 0 [] (Nat.zero_add _)
  rw [listed]
  exact ByteArray.ext (Array.toList_inj.mp List.toList_data_toByteArray)

/-- The bytes of a string are a string. -/
theorem fromUtf8_toUTF8 (text : String) : fromUtf8 text.toUTF8.toList = .ok text := by
  have valid : text.toUTF8.IsValidUTF8 := text.isValidUTF8
  have read : String.fromUTF8? text.toUTF8 = some text := dif_pos valid
  rw [fromUtf8, toByteArray_toList, read]

namespace Value

/-- `Value::try_from_bytes`. -/
def tryFromBytes (parseUuid : String → Except Error (BitVec 128)) (bytes : List UInt8)
    (dataType : IcebergType) : Except Error Value :=
  tryFromBytesWithHint parseUuid bytes dataType none

/-- The values of a primitive type.  The digits of a decimal are those of its precision, and its
exponent is an `i32`. -/
def Inhabits : Value → PrimitiveType → Prop
  | .decimal value, .decimal precision scale =>
    decimalFits value precision scale = .ok true ∧ value.scale < 2147483648
  | value, type => value.datatype = .primitive type

/-! ### The way back -/

@[simp] theorem ofBits_toBits {format : Format} (word : Word format) :
    Word.ofBits word.toBits = word := by
  obtain ⟨negative, magnitude⟩ := word
  have sign : (BitVec.ofBool negative ++ magnitude).msb = negative := by
    cases negative <;> simp [BitVec.msb_append]
  have rest : (BitVec.ofBool negative ++ magnitude).truncate _ = magnitude :=
    BitVec.setWidth_append_eq_right
  unfold Word.ofBits Word.toBits
  rw [sign, rest]

theorem toBits_ofBits {format : Format}
    (bits : BitVec (1 + (format.exponentBits + format.fractionBits))) :
    (Word.ofBits bits).toBits = bits := by
  unfold Word.ofBits Word.toBits
  apply BitVec.eq_of_getLsbD_eq
  intro i within
  rw [BitVec.getLsbD_append]
  by_cases low : i < format.exponentBits + format.fractionBits
  · simp [low]
  · have last : i = 1 + (format.exponentBits + format.fractionBits) - 1 := by omega
    have zero : i - (format.exponentBits + format.fractionBits) = 0 := by omega
    rw [if_neg low, zero, last]
    simp [BitVec.msb_eq_getLsbD_last]

variable {parseUuid : String → Except Error (BitVec 128)}

theorem decimalFits_eq_ok {value : Decimal} {precision scale : Nat}
    (fits : decimalFits value precision scale = .ok true) :
    value.scale = scale ∧ -2 ^ 127 ≤ value.mantissa ∧ value.mantissa < 2 ^ 127 := by
  unfold decimalFits at fits
  by_cases scaled : value.scale = scale
  · rw [if_neg (not_not.mpr scaled), guard_eq_ok] at fits
    obtain ⟨inside, -⟩ := fits
    rw [not_or, not_lt, not_le] at inside
    exact ⟨scaled, inside⟩
  · rw [if_pos scaled] at fits
    cases fits

/-- A decimal survives in at most 16 bytes. -/
theorem tryFromBytes_decimal {value : Decimal} {precision scale : Nat}
    (fits : decimalFits value precision scale = .ok true) (exponent : value.scale < 2147483648) :
    tryFromBytes parseUuid value.toBeBytesMin (.primitive (.decimal precision scale)) =
      .ok (.decimal value) := by
  obtain ⟨rfl, low, high⟩ := decimalFits_eq_ok fits
  have short : value.toBeBytesMin.length ≤ 16 :=
    length_toBeBytesMin_le (by omega) (by omega) (by decide)
  have run : tryFromBytes parseUuid value.toBeBytesMin (.primitive (.decimal precision value.scale)) =
      if value.toBeBytesMin.length ≤ 16 then do
        let mantissa ← signExtendBe value.toBeBytesMin
        (decimalFromI128WithScale mantissa value.scale).map .decimal
      else .error (.type "decimal" "bytes") := rfl
  rw [run, if_pos short, signExtendBe_toBeBytesMin, ok_bind, decimalFromI128WithScale,
    if_pos exponent]
  rfl

/-- The bytes of a value give the value back under its type. -/
theorem tryFromBytes_toBytes {value : Value} {type : PrimitiveType} (typed : value.Inhabits type) :
    tryFromBytes parseUuid value.toBytes (.primitive type) = .ok value := by
  have word (bits : BitVec 32) : fromLeBytes 32 (leBytes bits) = .ok bits :=
    @fromLeBytes_leBytes 4 bits
  have long (bits : BitVec 64) : fromLeBytes 64 (leBytes bits) = .ok bits :=
    @fromLeBytes_leBytes 8 bits
  cases value with
  | decimal value =>
    cases type with
    | decimal precision scale => exact tryFromBytes_decimal typed.1 typed.2
    | _ => cases typed
  | boolean value =>
    cases typed
    cases value <;> rfl
  | int value =>
    cases typed
    exact congrArg (·.map Value.int) (word value)
  | longInt value =>
    cases typed
    exact congrArg (·.map Value.longInt) (long value)
  | float value =>
    cases typed
    have read := congrArg (·.map fun bits => Value.float (.ofBits bits)) (word value.toBits)
    exact read.trans (congrArg (Except.ok ∘ Value.float) (ofBits_toBits value))
  | double value =>
    cases typed
    have read := congrArg (·.map fun bits => Value.double (.ofBits bits)) (long value.toBits)
    exact read.trans (congrArg (Except.ok ∘ Value.double) (ofBits_toBits value))
  | date days =>
    cases typed
    exact congrArg (·.map Value.date) (word days)
  | time micros =>
    cases typed
    exact congrArg (·.map Value.time) (long micros)
  | timestamp micros =>
    cases typed
    exact congrArg (·.map Value.timestamp) (long micros)
  | timestampTZ micros =>
    cases typed
    exact congrArg (·.map Value.timestampTZ) (long micros)
  | timestampNano nanos =>
    cases typed
    exact congrArg (·.map Value.timestampNano) (long nanos)
  | timestampTZNano nanos =>
    cases typed
    exact congrArg (·.map Value.timestampTZNano) (long nanos)
  | string text =>
    cases typed
    exact congrArg (·.map Value.string) (fromUtf8_toUTF8 text)
  | uuid value =>
    cases typed
    have read : fromLeBytes 128 (leBytes value).reverse.reverse = .ok value := by
      rw [List.reverse_reverse]
      exact @fromLeBytes_leBytes 16 value
    exact congrArg (·.map Value.uuid) read
  | fixed length bytes =>
    cases typed
    rfl
  | binary bytes =>
    cases typed
    rfl

/-! ### Panics -/

/-- Reading a word of the wrong width is an error. -/
theorem not_panics_fromLeBytes {α : Type} {width : Nat} {bytes : List UInt8}
    {make : BitVec width → α} : ¬ Panics ((fromLeBytes width bytes).map make) := by
  rintro ⟨what, run⟩
  unfold fromLeBytes at run
  split at run <;> cases run

theorem not_panics_fromUtf8 {α : Type} {bytes : List UInt8} {make : String → α} :
    ¬ Panics ((fromUtf8 bytes).map make) := by
  rintro ⟨what, run⟩
  unfold fromUtf8 at run
  split at run <;> cases run

/-- A decimal is sign-extended from its first byte. -/
theorem panics_decimal_iff (precision scale : Nat) (bytes : List UInt8) :
    Panics (tryFromBytes parseUuid bytes (.primitive (.decimal precision scale))) ↔ bytes = [] := by
  constructor
  · rintro ⟨what, run⟩
    by_contra nonempty
    have run' : (if bytes.length ≤ 16 then do
        let mantissa ← signExtendBe bytes
        (decimalFromI128WithScale mantissa scale).map Value.decimal
      else .error (.type "decimal" "bytes")) = .error (.panicked what) := run
    by_cases short : bytes.length ≤ 16
    · rw [if_pos short, signExtendBe_eq_toInt nonempty, ok_bind, decimalFromI128WithScale] at run'
      split at run' <;> cases run'
    · rw [if_neg short] at run'
      cases run'
  · rintro rfl
    exact ⟨"index out of bounds", rfl⟩

/-- Reading bytes panics only where a decimal has none. -/
theorem panics_iff (type : PrimitiveType) (bytes : List UInt8) :
    Panics (tryFromBytes parseUuid bytes (.primitive type)) ↔
      (∃ precision scale, type = .decimal precision scale) ∧ bytes = [] := by
  cases type with
  | decimal precision scale =>
    rw [panics_decimal_iff]
    exact ⟨fun empty => ⟨⟨precision, scale, rfl⟩, empty⟩, And.right⟩
  | int | long | float | double | date | time | timestamp | timestamptz | timestampNs
  | timestamptzNs | uuid =>
    refine ⟨fun panics => absurd panics not_panics_fromLeBytes, ?_⟩
    rintro ⟨⟨precision, scale, same⟩, -⟩
    cases same
  | string =>
    refine ⟨fun panics => absurd panics not_panics_fromUtf8, ?_⟩
    rintro ⟨⟨precision, scale, same⟩, -⟩
    cases same
  | boolean | fixed | binary | unknown | variant | geometry | geography =>
    constructor
    · rintro ⟨what, run⟩
      cases run
    · rintro ⟨⟨precision, scale, same⟩, -⟩
      cases same

/-- Values survive the way through their bytes and no bytes panic, but for a decimal of none. -/
theorem bytes_iff_nonempty (parseUuid : String → Except Error (BitVec 128)) (type : PrimitiveType)
    (bytes : List UInt8) :
    ((∀ value : Value, value.Inhabits type →
        tryFromBytes parseUuid value.toBytes (.primitive type) = .ok value) ∧
      ¬ Panics (tryFromBytes parseUuid bytes (.primitive type))) ↔
    ¬ ((∃ precision scale, type = .decimal precision scale) ∧ bytes = []) := by
  rw [panics_iff]
  exact ⟨And.right, fun readable => ⟨fun _ => tryFromBytes_toBytes, readable⟩⟩

/-- A decimal of no bytes. -/
theorem empty_decimal_panics : ¬ ∀ (parseUuid : String → Except Error (BitVec 128))
    (type : PrimitiveType) (bytes : List UInt8), (∀ value : Value, value.Inhabits type →
        tryFromBytes parseUuid value.toBytes (.primitive type) = .ok value) ∧
      ¬ Panics (tryFromBytes parseUuid bytes (.primitive type)) := by
  intro readable
  exact (readable (fun text => .error (.uuid text)) (.decimal 9 2) []).2
    ⟨"index out of bounds", rfl⟩

end Value

end IcebergRust

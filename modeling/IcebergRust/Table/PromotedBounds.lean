import IcebergRust.Spec.ByteRoundTrip
import IcebergRust.Spec.ManifestListDecoder
import IcebergRust.Table.PartitionBounds

/-!
# Bounds under promoted types

`decode_bound` and `decode_bound_for_copy`: what becomes of a bound whose column was promoted
after it had been written.

* `Promotes` lists the promotions of a column.  A word of four bytes was written before the
  promotion, one of eight after it; decimals have one encoding for both types.
* `decodeBoundForCopy_toBytes`, `decodeBound_old` and `decodeBound_new` are the two decoders on the
  bytes of a value of either type.
* `copySummaryTimes_eq` is the row: copying it any number of times changes no bound.
* `decoders_malformed` is what is left: bytes that no value has.  A decimal is read at any width
  up to 16 bytes, whatever its digits (`decoders_decimal`).
-/

namespace IcebergRust

open Fallible Interchange PartitionValue

/-- The parser of UUIDs, and the operations bounds do not go through. -/
class BoundLibraries where
  parseUuid : String → Except Error (BitVec 128)
  others : PartitionValue Value

namespace Value

/-- `decode_bound`. -/
def decodeBound (parseUuid : String → Except Error (BitVec 128)) (bytes : List UInt8)
    (type : IcebergType) : Except Error Value :=
  match type, bytes.length with
  | .primitive .long, 4 => (fromLeBytes 32 bytes).map fun i => .longInt (i.signExtend 64)
  | .primitive .double, 4 =>
    (fromLeBytes 32 bytes).map fun bits => .double ((Word.ofBits bits : Word .binary32).convert _)
  | .primitive .timestamp, 4 => do
    let days ← fromLeBytes 32 bytes
    (Value.date days).cast type
  | .primitive .timestampNs, 4 => do
    let days ← fromLeBytes 32 bytes
    (Value.date days).cast type
  | type, _ => tryFromBytes parseUuid bytes type

end Value

/-- The operations bounds are decoded and encoded by. -/
instance [libraries : BoundLibraries] : PartitionValue Value :=
  { libraries.others with
    promoteIceberg := Value.promoteIceberg
    toBytes := Value.toBytes
    tryFromBytes := Value.tryFromBytes libraries.parseUuid
    decodeBound := Value.decodeBound libraries.parseUuid }

/-- The schema promotions Iceberg allows. -/
inductive Promotes : PrimitiveType → PrimitiveType → Prop where
  | intLong : Promotes .int .long
  | floatDouble : Promotes .float .double
  | dateTimestamp : Promotes .date .timestamp
  | dateTimestampNs : Promotes .date .timestampNs
  | decimal {narrow wide scale : Nat} (wider : narrow ≤ wide) :
      Promotes (.decimal narrow scale) (.decimal wide scale)

/-- A value whose promotion fits is a value of the new type. -/
theorem promoteIceberg_inhabits {old new : PrimitiveType} {value promoted : Value}
    (promotes : Promotes old new)
    (typed : value.Inhabits old)
    (run : value.promoteIceberg (.primitive old) (.primitive new) = .ok promoted) :
    promoted.Inhabits new := by
  cases promotes with
  | intLong =>
    cases value with
    | int i => cases run; rfl
    | _ => cases typed
  | floatDouble =>
    cases value with
    | float single => cases run; rfl
    | _ => cases typed
  | dateTimestamp =>
    cases value with
    | date days =>
      obtain ⟨micros, -, rfl⟩ := map_eq_ok.mp run
      rfl
    | _ => cases typed
  | dateTimestampNs =>
    cases value with
    | date days =>
      obtain ⟨nanos, -, rfl⟩ := map_eq_ok.mp run
      rfl
    | _ => cases typed
  | @decimal narrow wide scale wider =>
    cases value with
    | decimal value =>
      have same : promoted = .decimal value := by
        unfold Value.promoteIceberg at run
        split at run
        · exact (Except.ok.inj run).symm
        · exact (Except.ok.inj ((if_pos ⟨rfl, wider⟩).symm.trans run)).symm
      obtain ⟨fits, exponent⟩ := typed
      rw [same]
      refine ⟨?_, exponent⟩
      obtain ⟨scaled, low, high⟩ := Value.decimalFits_eq_ok fits
      unfold Value.decimalFits at fits ⊢
      rw [if_neg (not_not.mpr scaled), if_neg (by omega), Except.ok.injEq, decide_eq_true_eq] at fits ⊢
      exact fits.trans_le wider
    | _ => cases typed

/-- A value of the new type is promoted to itself. -/
theorem promoteIceberg_self (value : Value) (type : IcebergType) :
    value.promoteIceberg type type = .ok value :=
  if_pos rfl

/-- A value of either type of a promotion, and no NaN. -/
structure EitherSide (old new : PrimitiveType) (value : Value) : Prop where
  typed : value.Inhabits old ∨ value.Inhabits new
  number : value.isNan = false

/-- No value of either type has these bytes. -/
def Malformed (old new : PrimitiveType) (bytes : List UInt8) : Prop :=
  ∀ value : Value, value.Inhabits old ∨ value.Inhabits new → value.toBytes ≠ bytes

/-- Every four bytes are of the old type and every eight of the new one. -/
theorem length_malformed {old new : PrimitiveType} (promotes : Promotes old new)
    (word : ∀ precision scale, new ≠ .decimal precision scale) {bytes : List UInt8}
    (malformed : Malformed old new bytes) : bytes.length ≠ 4 ∧ bytes.length ≠ 8 := by
  have old32 (make : BitVec 32 → Value) (typed : ∀ bits, (make bits).Inhabits old)
      (written : ∀ bits, (make bits).toBytes = Value.leBytes bits) : bytes.length ≠ 4 := by
    intro four
    exact malformed _ (.inl (typed _)) ((written _).trans (@leBytes_ofLeBytes bytes 4 four))
  have new64 (make : BitVec 64 → Value) (typed : ∀ bits, (make bits).Inhabits new)
      (written : ∀ bits, (make bits).toBytes = Value.leBytes bits) : bytes.length ≠ 8 := by
    intro eight
    exact malformed _ (.inr (typed _)) ((written _).trans (@leBytes_ofLeBytes bytes 8 eight))
  cases promotes with
  | intLong =>
    exact ⟨old32 .int (fun _ => rfl) fun _ => rfl, new64 .longInt (fun _ => rfl) fun _ => rfl⟩
  | floatDouble =>
    exact ⟨old32 (fun bits => .float (.ofBits bits)) (fun _ => rfl) fun bits =>
        congrArg Value.leBytes (@Value.toBits_ofBits .binary32 bits),
      new64 (fun bits => .double (.ofBits bits)) (fun _ => rfl) fun bits =>
        congrArg Value.leBytes (@Value.toBits_ofBits .binary64 bits)⟩
  | dateTimestamp =>
    exact ⟨old32 .date (fun _ => rfl) fun _ => rfl, new64 .timestamp (fun _ => rfl) fun _ => rfl⟩
  | dateTimestampNs =>
    exact ⟨old32 .date (fun _ => rfl) fun _ => rfl, new64 .timestampNano (fun _ => rfl) fun _ => rfl⟩
  | @decimal narrow wide scale wider => exact absurd rfl (word wide scale)

section Bounds

variable [libraries : BoundLibraries]

/-- The bytes a bound has after it was read for copying and written again. -/
def copyBound (type : PrimitiveType) (bytes : List UInt8) : Except Error (List UInt8) :=
  (decodeBoundForCopy (V := Value) bytes (.primitive type)).map Value.toBytes

/-- A summary after its row was copied. -/
def copySummary (type : PrimitiveType) (summary : FieldSummary (List UInt8)) :
    Except Error (FieldSummary (List UInt8)) :=
  (ManifestListEntryDecoder.fromSerde (V := Value) false (summary, some (.primitive type))).map
    (FieldSummary.map toBytes)

/-- A summary after its row was copied a number of times. -/
def copySummaryTimes (type : PrimitiveType) :
    Nat → FieldSummary (List UInt8) → Except Error (FieldSummary (List UInt8))
  | 0, summary => .ok summary
  | copies + 1, summary => copySummary type summary >>= copySummaryTimes type copies

variable {old new : PrimitiveType} {value : Value}

/-! ### Bytes of a value -/

/-- The precision of a decimal is not in its bytes. -/
theorem tryFromBytes_wider {narrow scale : Nat} (typed : value.Inhabits (.decimal narrow scale))
    (wide : Nat) : Value.tryFromBytes libraries.parseUuid value.toBytes
      (.primitive (.decimal wide scale)) = .ok value :=
  (show Value.tryFromBytes libraries.parseUuid value.toBytes (.primitive (.decimal wide scale)) =
    Value.tryFromBytes libraries.parseUuid value.toBytes (.primitive (.decimal narrow scale))
    from rfl).trans (Value.tryFromBytes_toBytes typed)

/-- A bound read for copying is the value that was written, under the type it was written with. -/
theorem decodeBoundForCopy_toBytes (promotes : Promotes old new)
    (typed : value.Inhabits old ∨ value.Inhabits new) :
    decodeBoundForCopy value.toBytes (.primitive new) = .ok value := by
  have read {type : PrimitiveType} (typed : value.Inhabits type) :=
    @Value.tryFromBytes_toBytes libraries.parseUuid value type typed
  cases promotes with
  | intLong =>
    rcases typed with typed | typed <;> cases value <;> first | exact read typed | cases typed
  | floatDouble =>
    rcases typed with typed | typed <;> cases value <;> first | exact read typed | cases typed
  | dateTimestamp =>
    rcases typed with typed | typed <;> cases value <;> first | exact read typed | cases typed
  | dateTimestampNs =>
    rcases typed with typed | typed <;> cases value <;> first | exact read typed | cases typed
  | @decimal narrow wide scale =>
    rcases typed with typed | typed
    · exact tryFromBytes_wider typed wide
    · exact read typed

/-- Four bytes are read under the old type and promoted. -/
theorem decodeBound_old (promotes : Promotes old new) (typed : value.Inhabits old) :
    decodeBound value.toBytes (.primitive new) =
      value.promoteIceberg (.primitive old) (.primitive new) := by
  have word (bits : BitVec 32) : fromLeBytes 32 (Value.leBytes bits) = .ok bits :=
    @fromLeBytes_leBytes 4 bits
  cases promotes with
  | intLong =>
    cases value with
    | int i => exact congrArg (·.map fun i => Value.longInt (i.signExtend 64)) (word i)
    | _ => cases typed
  | floatDouble =>
    cases value with
    | float single =>
      have read := congrArg (·.map fun bits =>
        Value.double ((Word.ofBits bits : Word .binary32).convert _)) (word single.toBits)
      exact read.trans (congrArg (Except.ok ∘ fun single : Word .binary32 =>
        Value.double (single.convert _)) (Value.ofBits_toBits single))
    | _ => cases typed
  | dateTimestamp =>
    cases value with
    | date days =>
      exact congrArg (· >>= fun days => (Value.date days).cast (.primitive .timestamp)) (word days)
    | _ => cases typed
  | dateTimestampNs =>
    cases value with
    | date days =>
      exact congrArg (· >>= fun days => (Value.date days).cast (.primitive .timestampNs)) (word days)
    | _ => cases typed
  | @decimal narrow wide scale wider =>
    cases value with
    | decimal value =>
      refine (tryFromBytes_wider typed wide).trans ?_
      unfold Value.promoteIceberg
      by_cases same : IcebergType.primitive (.decimal narrow scale) = .primitive (.decimal wide scale)
      · rw [if_pos same]
      · rw [if_neg same]
        exact (if_pos ⟨rfl, wider⟩).symm
    | _ => cases typed

/-- Bytes of the new type are read as they are. -/
theorem decodeBound_new (promotes : Promotes old new) (typed : value.Inhabits new) :
    decodeBound value.toBytes (.primitive new) = .ok value := by
  have read := @Value.tryFromBytes_toBytes libraries.parseUuid value new typed
  cases promotes with
  | intLong => cases value <;> first | exact read | cases typed
  | floatDouble => cases value <;> first | exact read | cases typed
  | dateTimestamp => cases value <;> first | exact read | cases typed
  | dateTimestampNs => cases value <;> first | exact read | cases typed
  | decimal => exact read

/-- The bytes of a promoted value are read as that value. -/
theorem decodeBound_promoted {promoted : Value} (promotes : Promotes old new)
    (typed : value.Inhabits old)
    (run : value.promoteIceberg (.primitive old) (.primitive new) = .ok promoted) :
    decodeBound promoted.toBytes (.primitive new) = .ok promoted :=
  decodeBound_new promotes (promoteIceberg_inhabits promotes typed run)

/-! ### Copied rows -/

/-- A bound of a summary that a value of either type has. -/
def Encoded (old new : PrimitiveType) (bound : Option (List UInt8)) : Prop :=
  ∀ bytes, bound = some bytes → ∃ value, EitherSide old new value ∧ value.toBytes = bytes

theorem decodeBytes_encoded (promotes : Promotes old new) {bound : Option (List UInt8)}
    (encoded : Encoded old new bound) :
    ∃ decoded : Option Value, ManifestListEntryDecoder.decodeBytes false bound
      (some (.primitive new)) = .ok decoded ∧ decoded.map toBytes = bound := by
  cases bound with
  | none => exact ⟨none, rfl, rfl⟩
  | some bytes =>
    obtain ⟨value, side, rfl⟩ := encoded bytes rfl
    have read := decodeBoundForCopy_toBytes promotes side.typed
    exact ⟨some value, congrArg (·.map some) read, rfl⟩

theorem copySummary_eq (promotes : Promotes old new) {summary : FieldSummary (List UInt8)}
    (lower : Encoded old new summary.lowerBound) (upper : Encoded old new summary.upperBound) :
    copySummary new summary = .ok summary := by
  obtain ⟨first, firstRead, firstBack⟩ := decodeBytes_encoded promotes lower
  obtain ⟨last, lastRead, lastBack⟩ := decodeBytes_encoded promotes upper
  unfold copySummary ManifestListEntryDecoder.fromSerde
  rw [firstRead, ok_bind, lastRead, ok_bind]
  have whole : FieldSummary.map toBytes
      (⟨summary.containsNull, summary.containsNan, first, last⟩ : FieldSummary Value) = summary := by
    unfold FieldSummary.map
    rw [firstBack, lastBack]
  exact congrArg Except.ok whole

/-- Copying a row any number of times leaves its bounds unchanged. -/
theorem copySummaryTimes_eq (promotes : Promotes old new) {summary : FieldSummary (List UInt8)}
    (lower : Encoded old new summary.lowerBound) (upper : Encoded old new summary.upperBound)
    (copies : Nat) : copySummaryTimes new copies summary = .ok summary := by
  induction copies with
  | zero => rfl
  | succ copies ih => rw [copySummaryTimes, copySummary_eq promotes lower upper, ok_bind, ih]

/-! ### Bytes of no value -/

/-- Bytes that no value of either type has are an error, for a word. -/
theorem decoders_malformed (promotes : Promotes old new)
    (word : ∀ precision scale, new ≠ .decimal precision scale) {bytes : List UInt8}
    (malformed : Malformed old new bytes) :
    decodeBound (V := Value) bytes (.primitive new) = .error .tryFromSlice ∧
      decodeBoundForCopy (V := Value) bytes (.primitive new) = .error .tryFromSlice := by
  obtain ⟨four, eight⟩ := length_malformed promotes word malformed
  have long : fromLeBytes 64 bytes = .error .tryFromSlice := if_neg (by omega)
  have rejected {make : BitVec 64 → Value} :
      (fromLeBytes 64 bytes).map make = .error .tryFromSlice := by
    rw [long]
    rfl
  have bound : decodeBound (V := Value) bytes (.primitive new) =
      Value.tryFromBytes libraries.parseUuid bytes (.primitive new) := by
    show Value.decodeBound libraries.parseUuid bytes (.primitive new) = _
    unfold Value.decodeBound
    split <;> first | exact absurd ‹bytes.length = 4› four | rfl
  have copied : decodeBoundForCopy (V := Value) bytes (.primitive new) =
      Value.tryFromBytes libraries.parseUuid bytes (.primitive new) := by
    unfold decodeBoundForCopy
    split <;> first | exact absurd ‹bytes.length = 4› four | rfl
  rw [bound, copied]
  cases promotes with
  | decimal => exact absurd rfl (word _ _)
  | _ => exact ⟨rejected, rejected⟩

/-- A decimal is read at any width up to 16 bytes, whatever its digits. -/
theorem decoders_decimal (precision scale : Nat) {bytes : List UInt8} (nonempty : bytes ≠ []) :
    decodeBoundForCopy (V := Value) bytes (.primitive (.decimal precision scale)) =
      decodeBound bytes (.primitive (.decimal precision scale)) ∧
    decodeBound (V := Value) bytes (.primitive (.decimal precision scale)) =
      if bytes.length ≤ 16 then
        (decimalFromI128WithScale ((ofLeBytes bytes.reverse : Int).bmod (256 ^ bytes.length))
          scale).map .decimal
      else .error (.type "decimal" "bytes") := by
  refine ⟨rfl, ?_⟩
  have run : decodeBound (V := Value) bytes (.primitive (.decimal precision scale)) =
      if bytes.length ≤ 16 then do
        let mantissa ← signExtendBe bytes
        (decimalFromI128WithScale mantissa scale).map .decimal
      else .error (.type "decimal" "bytes") := rfl
  rw [run, signExtendBe_eq_toInt nonempty, ok_bind]

/-- What the decoders make of the bounds of a promoted column. -/
structure KeepsBounds (old new : PrimitiveType) : Prop where
  /-- Reading a bound for copying and writing it gives its bytes back. -/
  recoded : ∀ value, EitherSide old new value → copyBound new value.toBytes = .ok value.toBytes
  copies : ∀ summary, Encoded old new summary.lowerBound → Encoded old new summary.upperBound →
    ∀ copies, copySummaryTimes new copies summary = .ok summary
  /-- A scan reads the promoted value, or fails where it does not fit. -/
  promoted : ∀ (value : Value) source, source = old ∨ source = new → value.Inhabits source →
    value.isNan = false →
    decodeBound value.toBytes (.primitive new) =
      value.promoteIceberg (.primitive source) (.primitive new)
  again : ∀ (value result : Value) source, source = old ∨ source = new → value.Inhabits source →
    value.isNan = false → value.promoteIceberg (.primitive source) (.primitive new) = .ok result →
    decodeBound result.toBytes (.primitive new) = .ok result
  /-- Other bytes are an error, for a word. -/
  words : (∀ precision scale, new ≠ .decimal precision scale) → ∀ bytes, Malformed old new bytes →
    decodeBound (V := Value) bytes (.primitive new) = .error .tryFromSlice ∧
      decodeBoundForCopy (V := Value) bytes (.primitive new) = .error .tryFromSlice
  /-- A decimal is read at any width. -/
  decimals : ∀ precision scale, new = .decimal precision scale → ∀ bytes, bytes ≠ [] →
    decodeBoundForCopy (V := Value) bytes (.primitive new) = decodeBound bytes (.primitive new) ∧
    decodeBound (V := Value) bytes (.primitive new) =
      if bytes.length ≤ 16 then
        (decimalFromI128WithScale ((ofLeBytes bytes.reverse : Int).bmod (256 ^ bytes.length))
          scale).map .decimal
      else .error (.type "decimal" "bytes")

/-- Every promotion keeps the bounds of its column. -/
theorem keepsBounds (promotes : Promotes old new) : KeepsBounds old new where
  recoded value side :=
    congrArg (·.map Value.toBytes) (decodeBoundForCopy_toBytes promotes side.typed)
  copies summary lower upper copies := copySummaryTimes_eq promotes lower upper copies
  promoted value source side typed _ := by
    rcases side with rfl | rfl
    · exact decodeBound_old promotes typed
    · rw [decodeBound_new promotes typed, promoteIceberg_self]
  again value result source side typed _ run := by
    rcases side with rfl | rfl
    · exact decodeBound_promoted promotes typed run
    · rw [promoteIceberg_self] at run
      cases run
      exact decodeBound_new promotes typed
  words word bytes malformed := decoders_malformed promotes word malformed
  decimals precision scale same bytes nonempty := by
    subst same
    exact decoders_decimal precision scale nonempty

end Bounds

/-- Libraries whose parser knows no UUID. -/
@[reducible] def plainBounds : BoundLibraries where
  parseUuid text := .error (.uuid text)
  others := plainLibraries.others

theorem keepsBounds_intLong : @KeepsBounds plainBounds .int .long :=
  @keepsBounds plainBounds _ _ .intLong

/-- The number 1 in two bytes is no decimal's encoding, but it is read as one. -/
theorem padded_decimal_decodes : Promotes (.decimal 9 2) (.decimal 18 2) ∧
    Malformed (.decimal 9 2) (.decimal 18 2) [0, 1] ∧
    Value.decodeBound (fun text => .error (.uuid text)) [0, 1] (.primitive (.decimal 18 2)) =
      .ok (.decimal ⟨1, 2⟩) := by
  refine ⟨.decimal (by decide), ?_, rfl⟩
  intro value typed written
  cases value with
  | decimal value =>
    have bytes : value.toBeBytesMin = [0, 1] := written
    have read : signExtendBe [0, 1] = .ok value.mantissa :=
      bytes ▸ signExtendBe_toBeBytesMin value
    have one : value.mantissa = 1 := (Except.ok.inj read).symm
    have short := @length_toBeBytesMin_le value 1 (by omega) (by omega) (by decide)
    rw [bytes] at short
    exact absurd short (by decide)
  | _ => rcases typed with typed | typed <;> cases typed

end IcebergRust

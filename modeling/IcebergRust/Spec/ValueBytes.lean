import IcebergRust.Spec.Value

/-!
# Values from bytes

`Value::try_from_bytes_with_hint`: the single-value serialisation of the specification, and
the deviations of the statistics of a file format that a hint names.
-/

namespace IcebergRust

open Interchange

/-- `PhysicalTypeHint`. -/
inductive PhysicalTypeHint where
  | nativeLittleEndian
  | byteArray
deriving DecidableEq, Repr

/-- The number of little-endian bytes. -/
def ofLeBytes : List UInt8 → Nat
  | [] => 0
  | byte :: bytes => byte.toNat + 256 * ofLeBytes bytes

/-- `from_le_bytes` of a slice, which must have the width of the integer. -/
def fromLeBytes (width : Nat) (bytes : List UInt8) : Except Error (BitVec width) :=
  if 8 * bytes.length = width then .ok (BitVec.ofNat width (ofLeBytes bytes))
  else .error .tryFromSlice

/-- `from_utf8`. -/
def fromUtf8 (bytes : List UInt8) : Except Error String :=
  match String.fromUTF8? bytes.toByteArray with
  | some text => .ok text
  | none => .error (.utf8 "invalid utf-8 sequence")

/-- `i128::from_be_bytes` of sign-extended bytes; there must be a byte to extend. -/
def signExtendBe (bytes : List UInt8) : Except Error Int :=
  if bytes.isEmpty then .error (.panicked "index out of bounds")
  else .ok (BitVec.ofNat (8 * bytes.length) (ofLeBytes bytes.reverse)).toInt

/-- `decimal_from_i128_with_scale`. -/
def decimalFromI128WithScale (mantissa : Int) (scale : Nat) : Except Error Decimal :=
  if scale < 2147483648 then .ok ⟨mantissa, scale⟩ else .error .tryFromInt

/-- `Value::try_from_bytes_with_hint`; `parseUuid` is `Uuid::parse_str`. -/
def Value.tryFromBytesWithHint (parseUuid : String → Except Error (BitVec 128))
    (bytes : List UInt8) (dataType : IcebergType) (hint : Option PhysicalTypeHint) :
    Except Error Value :=
  match dataType with
  | .primitive primitive =>
    match primitive with
    | .boolean => .ok (.boolean (bytes ≠ [0]))
    | .int => (fromLeBytes 32 bytes).map .int
    | .long => (fromLeBytes 64 bytes).map .longInt
    | .float => (fromLeBytes 32 bytes).map fun bits => .float (.ofBits bits)
    | .double => (fromLeBytes 64 bytes).map fun bits => .double (.ofBits bits)
    | .date => (fromLeBytes 32 bytes).map .date
    | .time => (fromLeBytes 64 bytes).map .time
    | .timestamp => (fromLeBytes 64 bytes).map .timestamp
    | .timestamptz => (fromLeBytes 64 bytes).map .timestampTZ
    | .timestampNs => (fromLeBytes 64 bytes).map .timestampNano
    | .timestamptzNs => (fromLeBytes 64 bytes).map .timestampTZNano
    | .string => (fromUtf8 bytes).map .string
    | .uuid =>
      if hint = some .byteArray then do
        let text ← fromUtf8 bytes
        (parseUuid text).map .uuid
      else (fromLeBytes 128 bytes.reverse).map .uuid
    | .fixed length => .ok (.fixed length bytes)
    | .binary => .ok (.binary bytes)
    | .decimal _ scale =>
      if bytes.length ≤ 16 then do
        let mantissa ← signExtendBe (if hint = some .nativeLittleEndian then bytes.reverse else bytes)
        (decimalFromI128WithScale mantissa scale).map .decimal
      else .error (.type "decimal" "bytes")
    | type => .error (.notSupported ("Value::try_from_bytes for " ++ type.display))
  | _ => .error (.notSupported "Complex types as bytes")

end IcebergRust

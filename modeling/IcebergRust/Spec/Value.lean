import IcebergRust.Lib.Interchange
import IcebergRust.Spec.Types
import Mathlib.Data.Nat.Digits.Defs
import Mathlib.Data.Nat.Log

/-!
# Values

The primitive variants of `Value` in `values.rs`, with the decimals of `decimal.rs`: their
types, their bytes, the partition transforms, and the casts.  Structs, lists and maps are
left out: `Value::datatype` panics on them, and no partition column has them.

`Libraries` is what the transforms call outside the repository: the hash of a bucket and
the calendar.
-/

namespace IcebergRust

open Interchange

/-- `Display` of a primitive type. -/
def PrimitiveType.display : PrimitiveType → String
  | .boolean => "boolean"
  | .int => "int"
  | .long => "long"
  | .float => "float"
  | .double => "double"
  | .decimal _ _ => "decimal"
  | .date => "date"
  | .time => "time"
  | .timestamp => "timestamp"
  | .timestamptz => "timestamptz"
  | .timestampNs => "timestamp_ns"
  | .timestamptzNs => "timestamptz_ns"
  | .string => "string"
  | .uuid => "uuid"
  | .fixed _ => "fixed"
  | .binary => "binary"
  | .unknown => "unknown"
  | .variant => "variant"
  | .geometry none => "geometry"
  | .geometry (some crs) => "geometry(" ++ crs ++ ")"
  | .geography none none => "geography"
  | .geography (some crs) none => "geography(" ++ crs ++ ")"
  | .geography crs (some algorithm) =>
    "geography(" ++ crs.getD "OGC:CRS84" ++ ", " ++ (match algorithm with
      | .spherical => "spherical"
      | .vincenty => "vincenty"
      | .andoyer => "andoyer"
      | .karney => "karney") ++ ")"

/-- `Display` of a type. -/
def IcebergType.display : IcebergType → String
  | .primitive type => type.display
  | .struct _ => "struct"
  | .list _ => "list"
  | .map _ => "map"

/-! ### Decimals -/

/-- A decimal: its unscaled value and the number of digits after the point. -/
structure Decimal where
  mantissa : Int
  scale : Nat
deriving DecidableEq, Repr

/-- The carry of adding one to little-endian bytes. -/
def addOne : List UInt8 → List UInt8
  | [] => []
  | byte :: bytes => if byte = 255 then 0 :: addOne bytes else (byte + 1) :: bytes

/-- `decimal_to_be_bytes_min`. -/
def Decimal.toBeBytesMin (decimal : Decimal) : List UInt8 :=
  let digits := (Nat.digits 256 decimal.mantissa.natAbs).map UInt8.ofNat
  if decimal.mantissa = 0 then [0]
  else if decimal.mantissa < 0 then
    match (addOne ((digits ++ [0]).map (~~~ ·))).reverse with
    | first :: second :: rest =>
      if first = 0xff ∧ second &&& 0x80 ≠ 0 then second :: rest else first :: second :: rest
    | bytes => bytes
  else match digits.reverse with
    | first :: rest => if first &&& 0x80 ≠ 0 then 0 :: first :: rest else first :: rest
    | [] => []

/-! ### Values -/

/-- `Value`. -/
inductive Value where
  | boolean (value : Bool)
  | int (value : BitVec 32)
  | longInt (value : BitVec 64)
  | float (value : Word .binary32)
  | double (value : Word .binary64)
  | date (days : BitVec 32)
  | time (micros : BitVec 64)
  | timestamp (micros : BitVec 64)
  | timestampTZ (micros : BitVec 64)
  | timestampNano (nanos : BitVec 64)
  | timestampTZNano (nanos : BitVec 64)
  | string (text : String)
  | uuid (value : BitVec 128)
  | fixed (length : Nat) (bytes : List UInt8)
  | binary (bytes : List UInt8)
  | decimal (value : Decimal)
deriving DecidableEq

namespace Value

/-- `Value::datatype`. -/
def datatype : Value → IcebergType
  | .boolean _ => .primitive .boolean
  | .int _ => .primitive .int
  | .longInt _ => .primitive .long
  | .float _ => .primitive .float
  | .double _ => .primitive .double
  | .date _ => .primitive .date
  | .time _ => .primitive .time
  | .timestamp _ => .primitive .timestamp
  | .timestampTZ _ => .primitive .timestamptz
  | .timestampNano _ => .primitive .timestampNs
  | .timestampTZNano _ => .primitive .timestamptzNs
  | .string _ => .primitive .string
  | .uuid _ => .primitive .uuid
  | .fixed length _ => .primitive (.fixed length)
  | .binary _ => .primitive .binary
  | .decimal value => .primitive (.decimal 38 value.scale)

/-- `PartialEq` of values: floats compare with all NaNs equal, decimals by their number. -/
def same : Value → Value → Bool
  | .float a, .float b => a.same b
  | .double a, .double b => a.same b
  | .decimal a, .decimal b => a.mantissa * 10 ^ b.scale = b.mantissa * 10 ^ a.scale
  | a, b => a = b

theorem same_refl (value : Value) : value.same value = true := by
  cases value <;> simp [same, Word.same_refl]

/-- `to_le_bytes`. -/
def leBytes {width : Nat} (bits : BitVec width) : List UInt8 :=
  (List.range (width / 8)).map fun i => ⟨bits.extractLsb' (8 * i) 8⟩

/-- `ByteBuf::from`. -/
def toBytes : Value → List UInt8
  | .boolean value => [if value then 1 else 0]
  | .int value => leBytes value
  | .longInt value => leBytes value
  | .float value => leBytes value.toBits
  | .double value => leBytes value.toBits
  | .date days => leBytes days
  | .time micros => leBytes micros
  | .timestamp micros => leBytes micros
  | .timestampTZ micros => leBytes micros
  | .timestampNano nanos => leBytes nanos
  | .timestampTZNano nanos => leBytes nanos
  | .string text => text.toUTF8.toList
  | .uuid value => (leBytes value).reverse
  | .fixed _ bytes => bytes
  | .binary bytes => bytes
  | .decimal value => value.toBeBytesMin

/-! ### Transforms -/

/-- The functions of other packages the transforms call. -/
structure Libraries where
  /-- `murmur3_32` with seed 0. -/
  murmur3 : List UInt8 → BitVec 32
  /-- The year, and the month from zero, of a day counted from 1970-01-01; nothing beyond
  the calendar of `chrono`. -/
  yearMonth : Int → Option (Int × Int)

/-- The bytes a bucket hashes: `int` and `date` as `long`, nanoseconds as microseconds. -/
def bucketBytes : Value → List UInt8
  | .int value => leBytes (value.signExtend 64)
  | .date days => leBytes (days.signExtend 64)
  | .timestampNano nanos => leBytes (BitVec.ofInt 64 (nanos.toInt / 1000))
  | .timestampTZNano nanos => leBytes (BitVec.ofInt 64 (nanos.toInt / 1000))
  | value => value.toBytes

/-- `i - i.rem_euclid(w)`. -/
def truncateInteger {bits : Nat} (i width : BitVec bits) : Except Error (BitVec bits) :=
  if width = 0 ∨ (width = -1 ∧ i = BitVec.intMin bits) then .error (.panicked "rem_euclid")
  else .ok (i - BitVec.ofInt bits (i.toInt % width.toInt))

/-- The characters of the first bytes of a string, where these end at a character. -/
def takeBytes : Nat → List Char → Option (List Char)
  | _, [] => some []
  | 0, _ :: _ => some []
  | bytes + 1, c :: rest =>
    if c.utf8Size ≤ bytes + 1 then (takeBytes (bytes + 1 - c.utf8Size) rest).map (c :: ·)
    else none
termination_by _ text => text.length

/-- `String::truncate`, which panics inside a character. -/
def truncateString (text : String) (bytes : Nat) : Except Error String :=
  match takeBytes bytes text.toList with
  | some kept => .ok (String.ofList kept)
  | none => .error (.panicked "truncate")

/-- The day of a date or a timestamp, from 1970-01-01. -/
def calendarDay : Value → Option Int
  | .date days => some days.toInt
  | .timestamp micros => some (micros.toInt / 86400000000)
  | .timestampTZ micros => some (micros.toInt / 86400000000)
  | .timestampNano nanos => some (nanos.toInt / 86400000000000)
  | .timestampTZNano nanos => some (nanos.toInt / 86400000000000)
  | _ => none

/-- A day of the calendar; beyond it the conversion panics. -/
def Libraries.calendar (libraries : Libraries) (day : Int) : Except Error (Int × Int) :=
  match libraries.yearMonth day with
  | some found => .ok found
  | none => .error (.panicked "date out of range")

/-- A count cut to `i32`. -/
def ofCount (count : Int) : Value := .int (BitVec.ofInt 32 count)

/-- The units of a timestamp since 1970, as `i32`. -/
def unitsOf (libraries : Libraries) (micros unit : Int) : Except Error Value := do
  let _ ← libraries.calendar (micros / 86400000000)
  .ok (ofCount (micros / unit))

/-- `Value::transform`. -/
def transform (libraries : Libraries) (value : Value) : Transform → Except Error Value
  | .identity => .ok value
  | .bucket n =>
    if n = 0 ∨ 2147483647 < n then .error (.invalidFormat "bucket width")
    else
      let hash := libraries.murmur3 value.bucketBytes
      .ok (.int (BitVec.ofNat 32 ((hash &&& 0x7fffffff#32).toNat % n)))
  | .truncate width =>
    match value with
    | .int i => (truncateInteger i (BitVec.ofNat 32 width)).map .int
    | .longInt i => (truncateInteger i (BitVec.ofNat 64 width)).map .longInt
    | .string text => (truncateString text width).map .string
    | _ => .error (.notSupported "Datatype for truncate partition transform.")
  | .year =>
    match value.calendarDay with
    | some day => (libraries.calendar day).map fun found => ofCount (found.1 - 1970)
    | none => .error (.notSupported "Datatype for year partition transform.")
  | .month =>
    match value.calendarDay with
    | some day => (libraries.calendar day).map fun found =>
        ofCount ((found.1 - 1970) * 12 + found.2)
    | none => .error (.notSupported "Datatype for month partition transform.")
  | .day =>
    match value with
    | .date days => .ok (.int days)
    | .timestamp micros => unitsOf libraries micros.toInt 86400000000
    | .timestampTZ micros => unitsOf libraries micros.toInt 86400000000
    | .timestampNano nanos => .ok (ofCount (nanos.toInt / 86400000000000))
    | .timestampTZNano nanos => .ok (ofCount (nanos.toInt / 86400000000000))
    | _ => .error (.notSupported "Datatype for day partition transform.")
  | .hour =>
    match value with
    | .timestamp micros => unitsOf libraries micros.toInt 3600000000
    | .timestampTZ micros => unitsOf libraries micros.toInt 3600000000
    | .timestampNano nanos => .ok (ofCount (nanos.toInt / 3600000000000))
    | .timestampTZNano nanos => .ok (ofCount (nanos.toInt / 3600000000000))
    | _ => .error (.notSupported "Datatype for hour partition transform.")
  | .void => .error (.notSupported "Partition transform operation")

/-! ### Casts -/

/-- `i64::checked_mul`. -/
def checkedMul (value : BitVec 64) (factor : Int) (overflow : String) : Except Error (BitVec 64) :=
  let product := value.toInt * factor
  if -maxI64 - 1 ≤ product ∧ product ≤ maxI64 then .ok (BitVec.ofInt 64 product)
  else .error (.invalidFormat overflow)

/-- A decimal of a scale and at most a number of digits, whose mantissa is an `i128`. -/
def decimalFits (value : Decimal) (precision scale : Nat) : Except Error Bool :=
  if value.scale ≠ scale then .ok false
  else if value.mantissa < -2 ^ 127 ∨ 2 ^ 127 ≤ value.mantissa then .error .tryFromInt
  else .ok (Nat.log 10 value.mantissa.natAbs < precision)

/-- `Value::cast`. -/
def cast (value : Value) (type : IcebergType) : Except Error Value :=
  if value.datatype = type then .ok value
  else match value, type with
    | .int input, .primitive .long => .ok (.longInt (input.signExtend 64))
    | .float input, .primitive .double => .ok (.double (input.convert _))
    | .decimal input, .primitive (.decimal precision scale) => do
      let fits ← decimalFits input precision scale
      if fits then .ok (.decimal input) else .error (.notSupported "cast")
    | .date input, .primitive .timestamp =>
      (checkedMul (input.signExtend 64) 86400000000 "date exceeds timestamp range").map .timestamp
    | .date input, .primitive .timestampNs =>
      (checkedMul (input.signExtend 64) 86400000000000
        "date exceeds timestamp_ns range").map .timestampNano
    | .timestamp input, .primitive .timestampNs =>
      (checkedMul input 1000 "timestamp exceeds timestamp_ns range").map .timestampNano
    | .timestampTZ input, .primitive .timestamptzNs =>
      (checkedMul input 1000 "timestamptz exceeds timestamptz_ns range").map .timestampTZNano
    | .timestampNano input, .primitive .timestamp =>
      .ok (.timestamp (BitVec.ofInt 64 (input.toInt / 1000)))
    | .timestampTZNano input, .primitive .timestamptz =>
      .ok (.timestampTZ (BitVec.ofInt 64 (input.toInt / 1000)))
    | .timestampNano input, .primitive .date =>
      .ok (.date (BitVec.ofInt 32 (input.toInt / 86400000000000)))
    | .timestampTZNano input, .primitive .date =>
      .ok (.date (BitVec.ofInt 32 (input.toInt / 86400000000000)))
    | .int input, .primitive .date => .ok (.date input)
    | .longInt input, .primitive .time => .ok (.time input)
    | .longInt input, .primitive .timestamp => .ok (.timestamp input)
    | .longInt input, .primitive .timestamptz => .ok (.timestampTZ input)
    | .longInt input, .primitive .timestampNs => .ok (.timestampNano input)
    | .longInt input, .primitive .timestamptzNs => .ok (.timestampTZNano input)
    | _, _ => .error (.notSupported "cast")

/-- `Value::promote_iceberg`. -/
def promoteIceberg (value : Value) (source target : IcebergType) : Except Error Value :=
  if source = target then .ok value
  else match value, source, target with
    | .int input, .primitive .int, .primitive .long => .ok (.longInt (input.signExtend 64))
    | .float input, .primitive .float, .primitive .double => .ok (.double (input.convert _))
    | .date input, .primitive .date, .primitive .timestamp => (Value.date input).cast target
    | .date input, .primitive .date, .primitive .timestampNs => (Value.date input).cast target
    | .decimal input, .primitive (.decimal sourcePrecision sourceScale),
        .primitive (.decimal targetPrecision targetScale) =>
      if sourceScale = targetScale ∧ sourcePrecision ≤ targetPrecision then .ok (.decimal input)
      else .error (.notSupported
        ("Iceberg schema promotion from " ++ source.display ++ " to " ++ target.display))
    | _, _, _ => .error (.notSupported
        ("Iceberg schema promotion from " ++ source.display ++ " to " ++ target.display))

/-- The cast `Struct::cast` applies to one value.  Small timestamps come back from Avro as
`Int`; the partition schema disambiguates. -/
def castPartition (value : Value) (type : IcebergType) : Except Error Value :=
  match value, type with
  | .int value, .primitive .timestamp => .ok (.timestamp (value.signExtend 64))
  | .int value, .primitive .timestamptz => .ok (.timestampTZ (value.signExtend 64))
  | .int value, .primitive .timestampNs => .ok (.timestampNano (value.signExtend 64))
  | .int value, .primitive .timestamptzNs => .ok (.timestampTZNano (value.signExtend 64))
  | value, type =>
    match value.datatype, type with
    | .primitive .int, .primitive .long => value.promoteIceberg (.primitive .int) type
    | .primitive .float, .primitive .double => value.promoteIceberg (.primitive .float) type
    | _, _ => value.cast type

end Value

end IcebergRust

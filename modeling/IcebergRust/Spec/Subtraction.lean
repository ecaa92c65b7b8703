import IcebergRust.Lib.Fallible
import IcebergRust.Spec.LittleEndian
import IcebergRust.Spec.ValueOrder

/-!
# Distances of values

`TrySub` of `Value`: the differences that rectangles of partition values are compared by.

* Booleans, binaries and decimals have no difference, and a difference that does not fit its type
  overflows.  UUIDs and `fixed` values are subtracted word by word, without a borrow.
* `Separable` says which values have a difference; `trySub_iff` is the statement.
-/

namespace IcebergRust

open Fallible Interchange Lexicographic

/-- What a subtraction of floats and a hash of a string yield: the operations of the processor and
`DefaultHasher` on the bytes written to it. -/
structure Distances where
  subFloat : Word .binary32 → Word .binary32 → Word .binary32
  subDouble : Word .binary64 → Word .binary64 → Word .binary64
  hash : List UInt8 → BitVec 64

/-- Overflow panics where the profile checks for it. -/
def subtractOverflow : Error := .panicked "attempt to subtract with overflow"

/-- `-` on `i32` and `i64`. -/
def subSigned {width : Nat} (own other : BitVec width) : Except Error (BitVec width) :=
  if own.ssubOverflow other then .error subtractOverflow else .ok (own - other)

/-- `-` on `u8`, `u16` and `u32`. -/
def subUnsigned (own other : Nat) : Except Error Nat :=
  if own < other then .error subtractOverflow else .ok (own - other)

/-! ### UUIDs -/

/-- The lengths of the words of `Uuid::to_fields_le`; its last field is subtracted byte by byte. -/
def uuidFields : List Nat := [4, 2, 2, 1, 1, 1, 1, 1, 1, 1, 1]

/-- Bytes cut into words. -/
def cutWords : List Nat → List UInt8 → List (List UInt8)
  | [], _ => []
  | length :: lengths, bytes => bytes.take length :: cutWords lengths (bytes.drop length)

/-- `Uuid::to_fields_le`. -/
def toFieldsLe (value : BitVec 128) : List (List UInt8) :=
  cutWords uuidFields (Value.leBytes value).reverse

/-- One field of a difference. -/
def subWord (own other : List UInt8) : Except Error (List UInt8) :=
  (subUnsigned (ofLeBytes own) (ofLeBytes other)).map fun difference =>
    (List.range own.length).map fun i => UInt8.ofNat (difference / 256 ^ i)

/-- `Uuid::from_fields_le`. -/
def fromFieldsLe (fields : List (List UInt8)) : BitVec 128 :=
  BitVec.ofNat 128 (ofLeBytes fields.flatten.reverse)

/-! ### Strings -/

/-- `char::to_digit(36)`. -/
def toDigit (letter : Char) : Option Nat :=
  let code := letter.toNat
  if 48 ≤ code ∧ code ≤ 57 then some (code - 48)
  else if 97 ≤ code ∧ code ≤ 122 then some (code - 87)
  else if 65 ≤ code ∧ code ≤ 90 then some (code - 55)
  else none

/-- The square of the difference of two digits. -/
def digitDistance (letters : Char × Char) : Option Nat := do
  let left ← toDigit letters.1
  let right ← toDigit letters.2
  some (((left : Int) - right).natAbs ^ 2)

/-- `sub_string`. -/
def subString (distances : Distances) (left right : String) : BitVec 64 :=
  let letters := ((left.toList.zip right.toList).take 256).dropWhile fun pair => pair.1 = pair.2
  match letters.mapM digitDistance with
  | some squares => BitVec.ofNat 64 squares.sum
  | none =>
    let first := (distances.hash (utf8 left)).toNat
    let second := (distances.hash (utf8 left ++ utf8 right)).toNat
    BitVec.ofNat 64 ((first : Int) - second).natAbs

namespace Value

/-! ### Values -/

/-- `Value::try_sub`. -/
def trySub (distances : Distances) : Value → Value → Except Error Value
  | .int own, .int other => (subSigned own other).map .int
  | .longInt own, .longInt other => (subSigned own other).map .longInt
  | .float own, .float other => .ok (.float (distances.subFloat own other))
  | .double own, .double other => .ok (.double (distances.subDouble own other))
  | .date own, .date other => (subSigned own other).map .date
  | .time own, .time other => (subSigned own other).map .time
  | .timestamp own, .timestamp other => (subSigned own other).map .timestamp
  | .timestampTZ own, .timestampTZ other => (subSigned own other).map .timestampTZ
  | .timestampNano own, .timestampNano other => .ok (.decimal ⟨own.toInt - other.toInt, 0⟩)
  | .timestampTZNano own, .timestampTZNano other => .ok (.decimal ⟨own.toInt - other.toInt, 0⟩)
  | .string own, .string other => .ok (.longInt (subString distances own other))
  | .uuid own, .uuid other =>
    (((toFieldsLe own).zip (toFieldsLe other)).mapM fun words => subWord words.1 words.2).map
      fun fields => .uuid (fromFieldsLe fields)
  | .fixed ownSize own, .fixed otherSize other =>
    ((own.zip other).mapM fun bytes => subUnsigned bytes.1.toNat bytes.2.toNat).map
      fun differences => .fixed (min ownSize otherSize) (differences.map UInt8.ofNat)
  | own, other => .error (.type own.datatype.display other.datatype.display)

/-- Values that have a difference. -/
def Separable : Value → Value → Prop
  | .int own, .int other => own.ssubOverflow other = false
  | .longInt own, .longInt other => own.ssubOverflow other = false
  | .float _, .float _ => True
  | .double _, .double _ => True
  | .date own, .date other => own.ssubOverflow other = false
  | .time own, .time other => own.ssubOverflow other = false
  | .timestamp own, .timestamp other => own.ssubOverflow other = false
  | .timestampTZ own, .timestampTZ other => own.ssubOverflow other = false
  | .timestampNano _, .timestampNano _ => True
  | .timestampTZNano _, .timestampTZNano _ => True
  | .string _, .string _ => True
  | .uuid own, .uuid other => ∀ words ∈ (toFieldsLe own).zip (toFieldsLe other),
      ofLeBytes words.2 ≤ ofLeBytes words.1
  | .fixed _ own, .fixed _ other => ∀ bytes ∈ own.zip other, bytes.2.toNat ≤ bytes.1.toNat
  | _, _ => False

theorem subSigned_iff {width : Nat} {own other : BitVec width} :
    (∃ difference, subSigned own other = .ok difference) ↔ own.ssubOverflow other = false := by
  unfold subSigned
  cases own.ssubOverflow other with
  | true => simp
  | false => simp

theorem subUnsigned_iff {own other : Nat} :
    (∃ difference, subUnsigned own other = .ok difference) ↔ other ≤ own := by
  unfold subUnsigned
  by_cases less : own < other
  · simp [less]
  · simp [less, Nat.not_lt.mp less]

theorem mapM_iff {α β : Type} {run : α → Except Error β} {xs : List α} :
    (∃ ys, xs.mapM run = .ok ys) ↔ ∀ x ∈ xs, ∃ y, run x = .ok y := by
  constructor
  · rintro ⟨ys, runs⟩ x member
    have back : List.Forall₂ (fun y x => run x = .ok y) ys xs := (mapM_eq_ok.mp runs).flip
    obtain ⟨y, -, here⟩ := exists_of_mem_forall₂ back member
    exact ⟨y, here⟩
  · exact mapM_total

theorem exists_map_iff {α : Type} {run : Except Error α} {make : α → Value} :
    (∃ difference, run.map make = .ok difference) ↔ ∃ a, run = .ok a := by
  cases run with
  | error error => simp [Except.map]
  | ok a => simp [Except.map]

theorem trySub_of_variant_ne (distances : Distances) {own other : Value}
    (differ : own.variant ≠ other.variant) :
    own.trySub distances other = .error (.type own.datatype.display other.datatype.display) := by
  cases own <;> cases other <;> first | exact absurd rfl differ | rfl

/-- Only values of one variant have a difference. -/
theorem Separable.variant {own other : Value} (separable : own.Separable other) :
    own.variant = other.variant := by
  cases own <;> cases other <;> first | rfl | exact separable.elim

/-- Exactly these have a difference. -/
theorem trySub_iff (distances : Distances) (own other : Value) :
    (∃ difference, own.trySub distances other = .ok difference) ↔ own.Separable other := by
  by_cases same : own.variant = other.variant
  · cases own <;> cases other <;> try (cases same; done)
    case boolean.boolean => exact iff_of_false (fun ⟨_, run⟩ => nomatch run) id
    case binary.binary => exact iff_of_false (fun ⟨_, run⟩ => nomatch run) id
    case decimal.decimal => exact iff_of_false (fun ⟨_, run⟩ => nomatch run) id
    case float.float => exact iff_of_true ⟨_, rfl⟩ trivial
    case double.double => exact iff_of_true ⟨_, rfl⟩ trivial
    case timestampNano.timestampNano => exact iff_of_true ⟨_, rfl⟩ trivial
    case timestampTZNano.timestampTZNano => exact iff_of_true ⟨_, rfl⟩ trivial
    case string.string => exact iff_of_true ⟨_, rfl⟩ trivial
    case uuid.uuid own other =>
      refine (exists_map_iff.trans mapM_iff).trans (forall₂_congr fun words _ => ?_)
      have fields : (∃ difference, subWord words.1 words.2 = .ok difference) ↔
          ∃ difference, subUnsigned (ofLeBytes words.1) (ofLeBytes words.2) = .ok difference := by
        unfold subWord
        cases subUnsigned (ofLeBytes words.1) (ofLeBytes words.2) <;> simp [Except.map]
      exact fields.trans subUnsigned_iff
    case fixed.fixed ownSize own otherSize other =>
      exact (exists_map_iff.trans mapM_iff).trans (forall₂_congr fun bytes _ => subUnsigned_iff)
    all_goals exact exists_map_iff.trans subSigned_iff
  · rw [trySub_of_variant_ne distances same]
    exact iff_of_false (fun ⟨_, run⟩ => nomatch run) fun separable => same separable.variant

end Value

end IcebergRust

import Mathlib.Algebra.Order.Ring.Int
import Mathlib.Algebra.Order.Ring.Nat
import Mathlib.Data.List.AList

/-!
# Errors, maps and data types

The error type of both crates, the map type used for every `HashMap` of the
source, and the Iceberg data types of `iceberg-rust-spec/src/spec/types.rs`
together with the partition transforms that act on them.

* `Error` keeps the constructors the modelled functions raise.  The spec crate's
  errors reach the table crate through `Error::Iceberg`, whose `Display` is
  transparent, so both crates share one type here.
* `HashMap` is an association list with distinct keys.  The iteration order of a
  Rust `HashMap` is unspecified; the order of the list stands for whichever order
  a run has picked.
* Identifiers (`i32`, `i64`) are `Int`.  Arithmetic that the source checks is
  checked in the model at the same bound.
-/

namespace IcebergRust

/-- The errors raised by the modelled functions (`error.rs` of both crates). -/
inductive Error where
  | invalidFormat (what : String)
  | type (value : String) (expected : String)
  | schema (column : String) (known : String)
  | conversion (source : String) (target : String)
  /-- Gzip data that does not decompress. -/
  | decompress (what : String)
  | notFound (what : String)
  | catalogNotFound
  | notSupported (feature : String)
  /-- A concurrent commit superseded the base metadata this commit was built on. -/
  | commitConflict (what : String)
  /-- The Avro encoder or decoder rejects a record. -/
  | avro (what : String)
  /-- The object store has no object under the path. -/
  | objectStore (path : String)
  | json (what : String)
  | chrono (what : String)
  | io (what : String)
  | uuid (what : String)
  | deriveBuilder (field : String)
  | tryFromSlice
  | tryFromInt
  | utf8 (what : String)
  | parseInt (text : String)
  | external (what : String)
  /-- `unwrap`, `expect`, an out-of-range index or an overflow the source does not catch. -/
  | panicked (what : String)
deriving DecidableEq, Repr

/-- The text `Display` prints for an error. -/
def Error.message : Error → String
  | .invalidFormat what => what ++ " doesn't have the right format"
  | .type value expected => "Value " ++ value ++ " doesn't have the " ++ expected ++ " type."
  | .schema column known => "Column " ++ column ++ " not in schema " ++ known ++ "."
  | .conversion source target => "Failed to convert " ++ source ++ " to " ++ target ++ "."
  | .decompress what => "Failed to decompress gzip data: " ++ what
  | .notFound what => what ++ " not found."
  | .catalogNotFound => "Entity not found in catalog"
  | .notSupported feature => "Feature " ++ feature ++ " is not supported."
  | .commitConflict what => "Commit to " ++ what ++
      " conflicted with a concurrent commit; the base metadata is no longer current"
  | .avro what => what
  | .objectStore path => path
  | .json what => what
  | .chrono what => what
  | .io what => what
  | .uuid what => what
  | .deriveBuilder field => "`" ++ field ++ "` must be initialized"
  | .tryFromSlice => "could not convert slice to array"
  | .utf8 what => what
  | .tryFromInt => "out of range integral type conversion attempted"
  | .parseInt text => if text.isEmpty then "cannot parse integer from empty string"
      else "invalid digit found in string"
  | .external what => what
  | .panicked what => what

/-- A run that panics. -/
def Panics {α : Type} (run : Except Error α) : Prop := ∃ what, run = .error (.panicked what)

/-! ### Machine integers -/

/-- Two's-complement wrap-around of an `i64`, for the additions the source leaves unchecked. -/
def wrapI64 (n : Int) : Int := n.bmod 18446744073709551616

/-- Two's-complement wrap-around of an `i32`. -/
def wrapI32 (n : Int) : Int := n.bmod 4294967296

/-- `i64::MAX`. -/
def maxI64 : Int := 9223372036854775807

/-- `i64::checked_add` on non-negative operands, and the overflow error of the caller. -/
def checkedAddI64 (a b : Int) (overflow : Error) : Except Error Int :=
  if a + b ≤ maxI64 ∧ -maxI64 - 1 ≤ a + b then .ok (a + b) else .error overflow

/-! ### Text -/

/-- Whether a character is white space in Unicode. -/
def isWhiteSpace (c : Char) : Bool :=
  let code := c.toNat
  (9 ≤ code && code ≤ 13) || code = 32 || code = 133 || code = 160 || code = 5760 ||
    (8192 ≤ code && code ≤ 8202) || code = 8232 || code = 8233 || code = 8239 || code = 8287 ||
    code = 12288

/-- `str::trim`. -/
def trim (text : List Char) : List Char :=
  ((text.dropWhile isWhiteSpace).reverse.dropWhile isWhiteSpace).reverse

/-! ### Maps -/

/-- A `HashMap` of the source: entries with distinct keys. -/
abbrev HashMap (κ β : Type) := AList (fun _ : κ => β)

namespace HashMap

variable {κ β : Type}

instance [DecidableEq κ] [DecidableEq β] : DecidableEq (HashMap κ β) := fun m other =>
  decidable_of_iff (m.entries = other.entries) AList.ext_iff.symm

/-- `HashMap::values`. -/
def values (m : HashMap κ β) : List β := m.entries.map (·.2)

/-- `HashMap::iter`. -/
def iter (m : HashMap κ β) : List (κ × β) := m.entries.map fun e => (e.1, e.2)

/-- Collecting key-value pairs into a map: the last value of a key wins. -/
def fromIter [DecidableEq κ] (pairs : List (κ × β)) : HashMap κ β :=
  pairs.foldl (fun m p => m.insert p.1 p.2) ∅

/-- `HashMap::extend`. -/
def extend [DecidableEq κ] (m : HashMap κ β) (pairs : List (κ × β)) : HashMap κ β :=
  pairs.foldl (fun m p => m.insert p.1 p.2) m

theorem mem_values_iff [DecidableEq κ] {m : HashMap κ β} {v : β} :
    v ∈ m.values ↔ ∃ k, m.lookup k = some v := by
  simp only [values, List.mem_map]
  constructor
  · rintro ⟨⟨k, w⟩, member, rfl⟩
    exact ⟨k, AList.mem_lookup_iff.mpr member⟩
  · rintro ⟨k, found⟩
    exact ⟨⟨k, v⟩, AList.mem_lookup_iff.mp found, rfl⟩

theorem mem_iter_iff [DecidableEq κ] {m : HashMap κ β} {k : κ} {v : β} :
    (k, v) ∈ m.iter ↔ m.lookup k = some v := by
  simp only [iter, List.mem_map]
  constructor
  · rintro ⟨⟨key, value⟩, member, same⟩
    obtain ⟨rfl, rfl⟩ := Prod.mk.inj same
    exact AList.mem_lookup_iff.mpr member
  · exact fun found => ⟨⟨k, v⟩, AList.mem_lookup_iff.mp found, rfl⟩

theorem lookup_extend [DecidableEq κ] (m : HashMap κ β) (pairs : List (κ × β)) (k : κ) :
    (m.extend pairs).lookup k =
      ((pairs.reverse.find? fun p => decide (p.1 = k)).map (·.2)).or (m.lookup k) := by
  induction pairs generalizing m with
  | nil => rfl
  | cons p pairs ih =>
    rw [List.reverse_cons, List.find?_append]
    refine (ih (m.insert p.1 p.2)).trans ?_
    cases pairs.reverse.find? fun p => decide (p.1 = k) with
    | some found => rfl
    | none =>
      by_cases here : p.1 = k
      · subst here
        simp [AList.lookup_insert]
      · simp [here, AList.lookup_insert_ne (Ne.symm here)]

/-- Pairs of distinct keys are all in the map. -/
theorem lookup_fromIter_of_distinct [DecidableEq κ] {pairs : List (κ × β)}
    (distinct : ∀ p ∈ pairs, ∀ q ∈ pairs, p.1 = q.1 → p = q) {k : κ} {v : β} :
    (fromIter pairs).lookup k = some v ↔ (k, v) ∈ pairs := by
  have extended := lookup_extend ∅ pairs k
  rw [AList.lookup_empty, Option.or_none] at extended
  refine (iff_of_eq (congrArg (· = some v) extended)).trans ?_
  rw [Option.map_eq_some_iff]
  constructor
  · rintro ⟨p, found, rfl⟩
    have here : p.1 = k := by simpa using List.find?_some found
    rw [← here]
    exact List.mem_reverse.mp (List.mem_of_find?_eq_some found)
  · intro member
    cases found : pairs.reverse.find? fun p => decide (p.1 = k) with
    | none =>
      have absent := List.find?_eq_none.mp found _ (List.mem_reverse.mpr member)
      simp at absent
    | some p =>
      have here : p.1 = k := by simpa using List.find?_some found
      have member' := List.mem_reverse.mp (List.mem_of_find?_eq_some found)
      exact ⟨p, rfl, congrArg Prod.snd (distinct p member' (k, v) member here)⟩

/-- A map extended by another one: the entries of the other one win. -/
theorem lookup_extend_iter [DecidableEq κ] (m other : HashMap κ β) (k : κ) :
    (m.extend other.iter).lookup k = (other.lookup k).or (m.lookup k) := by
  rw [lookup_extend]
  congr 1
  cases found : other.iter.reverse.find? fun p => decide (p.1 = k) with
  | some p =>
    have here : p.1 = k := by simpa using List.find?_some found
    have member := List.mem_reverse.mp (List.mem_of_find?_eq_some found)
    exact (here ▸ mem_iter_iff.mp member).symm
  | none =>
    have absent := List.find?_eq_none.mp found
    cases bound : other.lookup k with
    | none => rfl
    | some v =>
      have member := List.mem_reverse.mpr (mem_iter_iff.mpr bound)
      exact absurd (absent _ member) (by simp)

/-- Entries are removed one after the other. -/
theorem lookup_erase_all [DecidableEq κ] (m : HashMap κ β) (keys : List κ) (k : κ) :
    (keys.foldl (fun m key => m.erase key) m).lookup k =
      if k ∈ keys then none else m.lookup k := by
  induction keys generalizing m with
  | nil => simp
  | cons key keys ih =>
    rw [List.foldl_cons, ih]
    by_cases here : k = key
    · subst here
      simp
    · simp [here, AList.lookup_erase_ne here]

/-- A map rebuilt from its entries, each of them changed or dropped. -/
theorem lookup_fromIter_filterMap [DecidableEq κ] {γ : Type} (m : HashMap κ β)
    (change : κ → β → Option γ) (k : κ) :
    (fromIter (m.iter.filterMap fun entry =>
      (change entry.1 entry.2).map fun value => (entry.1, value))).lookup k =
      (m.lookup k).bind (change k) := by
  have extended := lookup_extend ∅ (m.iter.filterMap fun entry =>
    (change entry.1 entry.2).map fun value => (entry.1, value)) k
  refine extended.trans ?_
  rw [AList.lookup_empty, Option.or_none]
  cases found : (m.iter.filterMap fun entry => (change entry.1 entry.2).map fun value =>
      (entry.1, value)).reverse.find? fun p => decide (p.1 = k) with
  | some p =>
    have here : p.1 = k := by simpa using List.find?_some found
    have member := List.mem_reverse.mp (List.mem_of_find?_eq_some found)
    obtain ⟨⟨key, old⟩, old_member, changed⟩ := List.mem_filterMap.mp member
    obtain ⟨value, kept, rfl⟩ := Option.map_eq_some_iff.mp changed
    obtain rfl : key = k := here
    rw [mem_iter_iff.mp old_member]
    exact kept.symm
  | none =>
    have absent := List.find?_eq_none.mp found
    cases bound : m.lookup k with
    | none => rfl
    | some old =>
      rw [Option.bind_some]
      cases changed : change k old with
      | none => rfl
      | some value =>
        have member : (k, value) ∈ m.iter.filterMap fun entry =>
            (change entry.1 entry.2).map fun value => (entry.1, value) :=
          List.mem_filterMap.mpr ⟨(k, old), mem_iter_iff.mpr bound, by rw [changed]; rfl⟩
        exact absurd (absent _ (List.mem_reverse.mpr member)) (by simp)

end HashMap

/-! ### Data types -/

/-- Edge interpolation of the `geography` type. -/
inductive EdgeAlgorithm where
  | spherical
  | vincenty
  | andoyer
  | karney
deriving DecidableEq, Repr

inductive PrimitiveType where
  | boolean
  | int
  | long
  | float
  | double
  | decimal (precision scale : Nat)
  | date
  | time
  | timestamp
  | timestamptz
  | timestampNs
  | timestamptzNs
  | string
  | uuid
  | fixed (length : Nat)
  | binary
  | unknown
  | variant
  | geometry (crs : Option String)
  | geography (crs : Option String) (algorithm : Option EdgeAlgorithm)
deriving DecidableEq, Repr

mutual

/-- The source's `Type`. -/
inductive IcebergType where
  | primitive (type : PrimitiveType)
  | struct (type : StructType)
  | list (type : ListType)
  | map (type : MapType)

/-- A struct field.  The two defaults are raw JSON, kept as their text. -/
structure StructField where
  id : Int
  name : String
  required : Bool
  fieldType : IcebergType
  doc : Option String
  initialDefault : Option String
  writeDefault : Option String

/-- A struct type.  Its `lookup` table is a function of the fields (`StructType.get`). -/
structure StructType where
  fields : List StructField

structure ListType where
  elementId : Int
  elementRequired : Bool
  element : IcebergType

structure MapType where
  keyId : Int
  key : IcebergType
  valueId : Int
  valueRequired : Bool
  value : IcebergType

end

mutual

def IcebergType.decEq : (a b : IcebergType) → Decidable (a = b)
  | .primitive p, .primitive q => decidable_of_iff (p = q) (by simp)
  | .struct s, .struct t =>
    match StructType.decEq s t with
    | isTrue same => isTrue (by rw [same])
    | isFalse differ => isFalse (by simpa using differ)
  | .list s, .list t =>
    match ListType.decEq s t with
    | isTrue same => isTrue (by rw [same])
    | isFalse differ => isFalse (by simpa using differ)
  | .map s, .map t =>
    match MapType.decEq s t with
    | isTrue same => isTrue (by rw [same])
    | isFalse differ => isFalse (by simpa using differ)
  | .primitive _, .struct _ => isFalse nofun
  | .primitive _, .list _ => isFalse nofun
  | .primitive _, .map _ => isFalse nofun
  | .struct _, .primitive _ => isFalse nofun
  | .struct _, .list _ => isFalse nofun
  | .struct _, .map _ => isFalse nofun
  | .list _, .primitive _ => isFalse nofun
  | .list _, .struct _ => isFalse nofun
  | .list _, .map _ => isFalse nofun
  | .map _, .primitive _ => isFalse nofun
  | .map _, .struct _ => isFalse nofun
  | .map _, .list _ => isFalse nofun
termination_by structural a => a

def StructField.decEq : (a b : StructField) → Decidable (a = b)
  | ⟨i, n, r, t, d, x, y⟩, ⟨i', n', r', t', d', x', y'⟩ =>
    match IcebergType.decEq t t' with
    | isTrue same =>
      decidable_of_iff (i = i' ∧ n = n' ∧ r = r' ∧ d = d' ∧ x = x' ∧ y = y') (by simp [same])
    | isFalse differ => isFalse (by simp [differ])
termination_by structural a => a

def StructType.decEq : (a b : StructType) → Decidable (a = b)
  | ⟨fs⟩, ⟨gs⟩ =>
    match fieldsDecEq fs gs with
    | isTrue same => isTrue (by rw [same])
    | isFalse differ => isFalse (by simpa using differ)
termination_by structural a => a

def ListType.decEq : (a b : ListType) → Decidable (a = b)
  | ⟨i, r, t⟩, ⟨i', r', t'⟩ =>
    match IcebergType.decEq t t' with
    | isTrue same => decidable_of_iff (i = i' ∧ r = r') (by simp [same])
    | isFalse differ => isFalse (by simp [differ])
termination_by structural a => a

def MapType.decEq : (a b : MapType) → Decidable (a = b)
  | ⟨i, k, j, r, v⟩, ⟨i', k', j', r', v'⟩ =>
    match IcebergType.decEq k k', IcebergType.decEq v v' with
    | isTrue sameKey, isTrue sameValue =>
      decidable_of_iff (i = i' ∧ j = j' ∧ r = r') (by simp [sameKey, sameValue])
    | isFalse differ, _ => isFalse (by simp [differ])
    | _, isFalse differ => isFalse (by simp [differ])
termination_by structural a => a

def fieldsDecEq : (a b : List StructField) → Decidable (a = b)
  | [], [] => isTrue rfl
  | [], _ :: _ => isFalse nofun
  | _ :: _, [] => isFalse nofun
  | f :: fs, g :: gs =>
    match StructField.decEq f g, fieldsDecEq fs gs with
    | isTrue head, isTrue tail => isTrue (by rw [head, tail])
    | isFalse differ, _ => isFalse (by simp [differ])
    | _, isFalse differ => isFalse (by simp [differ])
termination_by structural a => a

end

instance : DecidableEq IcebergType := IcebergType.decEq
instance : DecidableEq StructField := StructField.decEq
instance : DecidableEq StructType := StructType.decEq

instance : Inhabited StructType := ⟨⟨[]⟩⟩

/-- `StructType::get`: the lookup table is filled in field order, so of two fields
with one id the later one is found. -/
def StructType.get (type : StructType) (id : Int) : Option StructField :=
  type.fields.reverse.find? fun field => field.id = id

/-! ### The largest field id -/

/-- `Option::map_or` with the maximum, as the field-id functions use it. -/
def maxOr (id : Int) : Option Int → Int
  | none => id
  | some nested => max id nested

mutual

/-- `Type::max_nested_field_id`. -/
def IcebergType.maxNestedFieldId : IcebergType → Option Int
  | .primitive _ => none
  | .struct type => type.maxFieldId
  | .list ⟨elementId, _, element⟩ => some (maxOr elementId element.maxNestedFieldId)
  | .map ⟨keyId, key, valueId, _, value⟩ =>
    some (maxOr (maxOr (max keyId valueId) key.maxNestedFieldId) value.maxNestedFieldId)
termination_by structural type => type

/-- `StructField::max_field_id`. -/
def StructField.maxFieldId : StructField → Int
  | ⟨id, _, _, fieldType, _, _, _⟩ => maxOr id fieldType.maxNestedFieldId
termination_by structural field => field

/-- `StructType::max_field_id`. -/
def StructType.maxFieldId : StructType → Option Int
  | ⟨fields⟩ => maxFieldIds fields
termination_by structural type => type

/-- The `Iterator::max` of the fields' largest ids. -/
def maxFieldIds : List StructField → Option Int
  | [] => none
  | field :: fields => some (maxOr field.maxFieldId (maxFieldIds fields))
termination_by structural fields => fields

end

/-! ### Transforms -/

inductive Transform where
  | identity
  | bucket (n : Nat)
  | truncate (width : Nat)
  | year
  | month
  | day
  | hour
  | void
deriving DecidableEq, Repr

/-- `Display` of a transform. -/
def Transform.display : Transform → String
  | .identity => "identity"
  | .year => "year"
  | .month => "month"
  | .day => "day"
  | .hour => "hour"
  | .bucket n => "bucket[" ++ toString n ++ "]"
  | .truncate width => "truncate[" ++ toString width ++ "]"
  | .void => "void"

/-- `Type::tranform`: the type of a partition value computed from a source column. -/
def IcebergType.tranform (type : IcebergType) : Transform → Except Error IcebergType
  | .identity => .ok type
  | .bucket _ => .ok (.primitive .int)
  | .truncate _ => .ok type
  | .year => .ok (.primitive .int)
  | .month => .ok (.primitive .int)
  | .day => .ok (.primitive .int)
  | .hour => .ok (.primitive .int)
  | .void => .error (.notSupported "void transform")

end IcebergRust

import IcebergRust.Lib.Fallible
import IcebergRust.Lib.Interchange
import IcebergRust.Spec.Types

/-!
# JSON values

`serde_json::Value`, and what the derived deserializers of `serde` read from one.
-/

namespace IcebergRust

open Fallible Interchange

/-- `serde_json::Number`. -/
inductive JsonNumber where
  | integer (n : Int)
  | float (word : Word .binary64)

/-- `JsonValue`.  An object is the list of its entries. -/
inductive Json where
  | null
  | bool (value : Bool)
  | number (number : JsonNumber)
  | string (text : String)
  | array (items : List Json)
  | object (entries : List (String × Json))

namespace Json

/-- What holds of a value when it holds of the values inside holds of every value. -/
@[elab_as_elim, induction_eliminator]
theorem induction {motive : Json → Prop} (null : motive .null)
    (bool : ∀ value, motive (.bool value)) (number : ∀ number, motive (.number number))
    (string : ∀ text, motive (.string text))
    (array : ∀ items, (∀ item ∈ items, motive item) → motive (.array items))
    (object : ∀ entries, (∀ entry ∈ entries, motive entry.2) → motive (.object entries))
    (json : Json) : motive json :=
  @Json.rec motive (fun items => ∀ item ∈ items, motive item)
    (fun entries => ∀ entry ∈ entries, motive entry.2) (fun entry => motive entry.2)
    null bool number string array object (by simp)
    (fun _ _ head tail => List.forall_mem_cons.mpr ⟨head, tail⟩) (by simp)
    (fun _ _ head tail => List.forall_mem_cons.mpr ⟨head, tail⟩) (fun _ _ value => value) json

/-- An error of `serde` about the type of a value. -/
def invalidType (expected : String) : Error := .json ("invalid type: expected " ++ expected)

/-- `i32::deserialize`. -/
def asI32 : Json → Except Error Int
  | .number (.integer n) =>
    if -2147483648 ≤ n ∧ n ≤ 2147483647 then .ok n else .error (invalidType "i32")
  | _ => .error (invalidType "i32")

/-- `bool::deserialize`. -/
def asBool : Json → Except Error Bool
  | .bool value => .ok value
  | _ => .error (invalidType "a boolean")

/-- `i64::deserialize`. -/
def asI64 : Json → Except Error (BitVec 64)
  | .number (.integer n) =>
    if -maxI64 - 1 ≤ n ∧ n ≤ maxI64 then .ok (BitVec.ofInt 64 n) else .error (invalidType "i64")
  | _ => .error (invalidType "i64")

/-- `String::deserialize`. -/
def asString : Json → Except Error String
  | .string text => .ok text
  | _ => .error (invalidType "a string")

/-- `Option::<String>::deserialize`. -/
def asStringOption : Json → Except Error (Option String)
  | .null => .ok none
  | json => json.asString.map some

/-- The items of a sequence. -/
def asArray : Json → Except Error (List Json)
  | .array items => .ok items
  | _ => .error (invalidType "a sequence")

end Json

/-- An id is an `i32`. -/
def InI32 (id : Int) : Prop := -2147483648 ≤ id ∧ id ≤ 2147483647

theorem asI32_eq_ok {json : Json} {id : Int} (read : json.asI32 = .ok id) : InI32 id := by
  cases json with
  | number number =>
    cases number with
    | integer n =>
      by_cases inside : InI32 n
      · cases (if_pos inside : (Json.number (.integer n)).asI32 = _).symm.trans read
        exact inside
      · cases (if_neg inside : (Json.number (.integer n)).asI32 = _).symm.trans read
    | float word => cases read
  | _ => cases read

theorem asI32_integer {id : Int} (inside : InI32 id) :
    (Json.number (.integer id)).asI32 = .ok id := if_pos inside

theorem asI64_toInt (value : BitVec 64) :
    (Json.number (.integer value.toInt)).asI64 = .ok value := by
  have low := BitVec.le_toInt value
  have high := BitVec.toInt_lt (x := value)
  have inside : -maxI64 - 1 ≤ value.toInt ∧ value.toInt ≤ maxI64 := by
    unfold maxI64
    omega
  exact (if_pos inside).trans (congrArg Except.ok (BitVec.ofInt_toInt))

/-- An optional entry, which is skipped where it is `None`. -/
def optionalEntry {α : Type} (name : String) (json : α → Json) (value : Option α) :
    List (String × Json) :=
  value.toList.map fun value => (name, json value)

/-! ### Derived structs -/

section Derived

variable {α : Type}

/-- A field of a derived struct, among the entries of an object. -/
def findField (entries : List (String × α)) (name : String) : Except Error (Option α) :=
  match entries.filter fun entry => entry.1 = name with
  | [] => .ok none
  | [entry] => .ok (some entry.2)
  | _ => .error (.json ("duplicate field `" ++ name ++ "`"))

/-- The value of a field without a default. -/
def orMissing (name : String) : Option α → Except Error α
  | some value => .ok value
  | none => .error (.json ("missing field `" ++ name ++ "`"))

/-- A field without a default. -/
def requireField (entries : List (String × α)) (name : String) : Except Error α :=
  findField entries name >>= orMissing name

theorem mem_of_findField {entries : List (String × α)} {name : String} {value : α}
    (found : findField entries name = .ok (some value)) : ∃ entry ∈ entries, entry.2 = value := by
  unfold findField at found
  split at found
  · cases found
  · rename_i entry only
    cases found
    have member : entry ∈ entries.filter fun entry => entry.1 = name :=
      only ▸ List.mem_singleton_self entry
    exact ⟨entry, (List.mem_filter.mp member).1, rfl⟩
  · cases found

theorem mem_of_requireField {entries : List (String × α)} {name : String} {value : α}
    (found : requireField entries name = .ok value) : ∃ entry ∈ entries, entry.2 = value := by
  obtain ⟨here, found, same⟩ := bind_eq_ok.mp found
  cases here with
  | none => cases same
  | some other =>
    cases same
    exact mem_of_findField found

end Derived

end IcebergRust

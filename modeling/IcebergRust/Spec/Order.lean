import IcebergRust.Lib.Lexicographic
import IcebergRust.Spec.Value

/-!
# The order of values

Values of one type are ordered as numbers or as bytes: numbers, dates and times by their
value with NaN above everything, strings by their UTF-8 bytes.
-/

namespace IcebergRust

open Interchange Lexicographic

namespace Value

/-- The number of a value that is ordered as one. -/
def number : Value → Int
  | .boolean value => if value then 1 else 0
  | .int value => value.toInt
  | .longInt value => value.toInt
  | .float value => value.rank
  | .double value => value.rank
  | .date days => days.toInt
  | .time micros => micros.toInt
  | .timestamp micros => micros.toInt
  | .timestampTZ micros => micros.toInt
  | .timestampNano nanos => nanos.toInt
  | .timestampTZNano nanos => nanos.toInt
  | .uuid value => value.toNat
  | .decimal value => value.mantissa
  | .string _ => 0
  | .fixed _ _ => 0
  | .binary _ => 0

/-- The bytes of a value that is ordered by them. -/
def text : Value → List UInt8
  | .string text => utf8 text
  | .fixed _ bytes => bytes
  | .binary bytes => bytes
  | _ => []

/-- A value is at most another one of its type. -/
def AtMost (a b : Value) : Prop :=
  a.datatype = b.datatype ∧ (a.number < b.number ∨ a.number = b.number ∧ a.text ≤ b.text)

instance (a b : Value) : Decidable (AtMost a b) := inferInstanceAs (Decidable (_ ∧ _))

namespace AtMost

theorem refl (value : Value) : AtMost value value := ⟨rfl, .inr ⟨rfl, List.le_refl _⟩⟩

theorem trans {a b c : Value} (first : AtMost a b) (second : AtMost b c) : AtMost a c := by
  obtain ⟨type, low⟩ := first
  obtain ⟨type', high⟩ := second
  refine ⟨type.trans type', ?_⟩
  rcases low with less | ⟨same, text⟩
  · rcases high with less' | ⟨same', -⟩
    · exact .inl (less.trans less')
    · exact .inl (same' ▸ less)
  · rcases high with less' | ⟨same', text'⟩
    · exact .inl (same ▸ less')
    · exact .inr ⟨same.trans same', List.le_trans text text'⟩

end AtMost

theorem atMost_string {a b : String} :
    AtMost (.string a) (.string b) ↔ ¬ b.toList < a.toList := by
  have texts := @utf8_le_utf8_iff a.toList b.toList
  rw [String.ofList_toList, String.ofList_toList] at texts
  rw [← texts]
  constructor
  · rintro ⟨-, less | ⟨-, text⟩⟩
    · exact absurd less (lt_irrefl _)
    · exact text
  · exact fun text => ⟨rfl, .inr ⟨rfl, text⟩⟩

theorem atMost_binary {a b : List UInt8} : AtMost (.binary a) (.binary b) ↔ a ≤ b := by
  constructor
  · rintro ⟨-, less | ⟨-, text⟩⟩
    · exact absurd less (lt_irrefl _)
    · exact text
  · exact fun text => ⟨rfl, .inr ⟨rfl, text⟩⟩

/-! ### Values of one type -/

variable {value : Value}

theorem eq_int_of_datatype (type : value.datatype = .primitive .int) : ∃ i, value = .int i := by
  cases value <;> first | exact ⟨_, rfl⟩ | cases type

theorem eq_longInt_of_datatype (type : value.datatype = .primitive .long) :
    ∃ i, value = .longInt i := by
  cases value <;> first | exact ⟨_, rfl⟩ | cases type

theorem eq_string_of_datatype (type : value.datatype = .primitive .string) :
    ∃ text, value = .string text := by
  cases value <;> first | exact ⟨_, rfl⟩ | cases type

theorem eq_binary_of_datatype (type : value.datatype = .primitive .binary) :
    ∃ bytes, value = .binary bytes := by
  cases value <;> first | exact ⟨_, rfl⟩ | cases type

end Value

end IcebergRust

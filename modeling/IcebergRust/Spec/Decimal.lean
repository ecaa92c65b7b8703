import IcebergRust.Spec.Types

/-!
# Decimal text

`str::parse::<i64>` and its inverse `to_string`: numbers are kept as text in summaries and
in properties.
-/

namespace IcebergRust

/-- Decimal digits, most significant first. -/
def parseDigits (digits : List Char) : Option Nat :=
  if digits.isEmpty then none
  else digits.foldlM (fun n c =>
    if '0' ≤ c ∧ c ≤ '9' then some (n * 10 + (c.toNat - '0'.toNat)) else none) 0

/-- `str::parse::<i64>`: an optional sign and digits, in range. -/
def parseI64 (text : String) : Option Int :=
  let value := match text.toList with
    | '-' :: digits => (parseDigits digits).map fun n => -(n : Int)
    | '+' :: digits => (parseDigits digits).map fun n => (n : Int)
    | digits => (parseDigits digits).map fun n => (n : Int)
  value.filter fun n => decide (-maxI64 - 1 ≤ n ∧ n ≤ maxI64)

/-- `str::parse::<u8>`. -/
def parseU8 (text : String) : Option Nat :=
  let value := match text.toList with
    | '+' :: digits => parseDigits digits
    | digits => parseDigits digits
  value.filter fun n => decide (n < 256)

/-! ### Printing and parsing -/

theorem parseDigits_of_isDigit {digits : List Char} (nonempty : digits ≠ [])
    (decimal : ∀ c ∈ digits, c.isDigit) : parseDigits digits = some (Nat.ofDigitChars 10 digits 0) := by
  have general : ∀ (todo : List Char) (n : Nat), (∀ c ∈ todo, c.isDigit) →
      todo.foldlM (fun n c =>
        if '0' ≤ c ∧ c ≤ '9' then some (n * 10 + (c.toNat - '0'.toNat)) else none) n =
      some (Nat.ofDigitChars 10 todo n) := by
    intro todo
    induction todo with
    | nil =>
      intro n _
      rfl
    | cons c todo ih =>
      intro n decimal
      have here : '0' ≤ c ∧ c ≤ '9' := by
        simpa [Char.isDigit, Char.le_def] using decimal c List.mem_cons_self
      rw [List.foldlM_cons, if_pos here, Nat.ofDigitChars_cons, Nat.mul_comm 10 n]
      exact ih _ fun d member => decimal d (List.mem_cons_of_mem _ member)
  have empty : digits.isEmpty = false := by
    cases digits with
    | nil => exact absurd rfl nonempty
    | cons => rfl
  unfold parseDigits
  rw [empty]
  exact general digits 0 decimal

theorem parseDigits_repr (n : Nat) : parseDigits n.repr.toList = some n := by
  rw [Nat.toList_repr, parseDigits_of_isDigit Nat.toDigits_ne_nil fun c member =>
    Nat.isDigit_of_mem_toDigits (by decide) (by decide) member, Nat.ofDigitChars_ten_toDigits]

theorem notMem_digits {c : Char} (letter : c.isDigit = false) (n : Nat) :
    c ∉ (Nat.repr n).toList := by
  intro member
  have digit : c.isDigit = true := by
    rw [Nat.toList_repr] at member
    exact Nat.isDigit_of_mem_toDigits (by decide) (by decide) member
  rw [letter] at digit
  exact absurd digit (by decide)

theorem repr_ne_nil (n : Nat) : (Nat.repr n).toList ≠ [] := by
  rw [Nat.toList_repr]
  exact Nat.toDigits_ne_nil

/-- A printed number starts with a digit. -/
theorem toList_repr_cons (n : Nat) :
    ∃ c rest, n.repr.toList = c :: rest ∧ c ≠ '-' ∧ c ≠ '+' := by
  cases shape : n.repr.toList with
  | nil =>
    rw [Nat.toList_repr] at shape
    exact absurd shape Nat.toDigits_ne_nil
  | cons c rest =>
    have digit : c.isDigit := by
      rw [Nat.toList_repr] at shape
      exact Nat.isDigit_of_mem_toDigits (by decide) (by decide) (shape ▸ List.mem_cons_self)
    refine ⟨c, rest, rfl, ?_, ?_⟩
    · rintro rfl
      exact absurd digit (by decide)
    · rintro rfl
      exact absurd digit (by decide)

/-- A printed `i64` parses to itself. -/
theorem parseI64_toString {n : Int} (low : -maxI64 - 1 ≤ n) (high : n ≤ maxI64) :
    parseI64 (toString n) = some n := by
  have inRange : (some n).filter (fun n : Int => decide (-maxI64 - 1 ≤ n ∧ n ≤ maxI64)) = some n := by
    rw [Option.filter_some, if_pos (decide_eq_true ⟨low, high⟩)]
  cases n with
  | ofNat n =>
    obtain ⟨c, rest, shape, minus, plus⟩ := toList_repr_cons n
    have value := parseDigits_repr n
    have printed : (toString (Int.ofNat n)).toList = c :: rest := shape
    rw [shape] at value
    unfold parseI64
    rw [printed]
    simp only
    split
    · rename_i same
      exact absurd (List.cons.inj same).1 minus
    · rename_i same
      exact absurd (List.cons.inj same).1 plus
    · rw [value]
      exact inRange
  | negSucc n =>
    have printed : (toString (Int.negSucc n)).toList = '-' :: (n + 1).repr.toList := by
      show ("-" ++ (n + 1).repr).toList = _
      simp
    unfold parseI64
    rw [printed]
    simp only [parseDigits_repr]
    exact inRange

/-- What wraps around is in range. -/
theorem wrapI64_range (n : Int) : -maxI64 - 1 ≤ wrapI64 n ∧ wrapI64 n ≤ maxI64 := by
  have low := Int.le_bmod (x := n) (m := 18446744073709551616) (by decide)
  have high := Int.bmod_lt (x := n) (m := 18446744073709551616) (by decide)
  unfold wrapI64 maxI64
  omega

@[simp] theorem parseI64_wrapI64 (n : Int) : parseI64 (toString (wrapI64 n)) = some (wrapI64 n) :=
  parseI64_toString (wrapI64_range n).1 (wrapI64_range n).2

end IcebergRust

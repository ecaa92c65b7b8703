import Mathlib.Tactic.SplitIfs

/-!
# Words in lexicographic order

Bounds of all words with a prefix, and codes that keep the order.

* `raise` increments the last letter of a prefix that has a successor.  What it gives is above
  every word with the prefix (`lt_of_raise`); where it gives nothing, no word as short as the
  prefix is (`raise_eq_none`).
* A code whose letters differ before either ends keeps the order of words
  (`flatMap_lt_flatMap`); UTF-8 is one (`utf8_lt_utf8`).
-/

namespace Lexicographic

section Bounds

variable {α : Type} [LT α]

/-- The letters of a word from the back: dropping those without a successor, and replacing the
first one with it. -/
def raise (next : α → Option α) : List α → Option (List α)
  | [] => none
  | last :: before =>
    match next last with
    | some above => some (above :: before).reverse
    | none => raise next before

/-- Successors are greater, and letters without one are greatest. -/
structure Successors (next : α → Option α) : Prop where
  above : ∀ a b, next a = some b → a < b
  greatest : ∀ a, next a = none → ∀ b, ¬ a < b

variable {next : α → Option α} {popped raised word : List α}

/-- What a raised prefix bounds. -/
theorem lt_of_raise (successors : Successors next) (run : raise next popped = some raised)
    (rest : List α) : popped.reverse ++ rest < raised := by
  induction popped generalizing rest with
  | nil => cases run
  | cons last before ih =>
    unfold raise at run
    rw [List.reverse_cons, List.append_assoc]
    split at run
    · rename_i above found
      cases run
      rw [List.reverse_cons]
      apply List.append_left_lt
      exact List.cons_lt_cons_iff.mpr (.inl (successors.above _ _ found))
    · exact ih run _

omit [LT α] in
theorem length_raise (run : raise next popped = some raised) : raised.length ≤ popped.length := by
  induction popped with
  | nil => cases run
  | cons last before ih =>
    unfold raise at run
    split at run
    · cases run
      simp
    · exact Nat.le_succ_of_le (ih run)

theorem greatest_of_raise (successors : Successors next) (run : raise next popped = none) :
    ∀ a ∈ popped, ∀ b, ¬ a < b := by
  induction popped with
  | nil => exact fun _ member => absurd member List.not_mem_nil
  | cons last before ih =>
    unfold raise at run
    split at run
    · cases run
    · rename_i missing
      exact List.forall_mem_cons.mpr ⟨successors.greatest last missing, ih run⟩

/-- A word of greatest letters is at least every word that is as short. -/
theorem not_lt_of_greatest {most : List α} (greatest : ∀ a ∈ most, ∀ b, ¬ a < b)
    (short : word.length ≤ most.length) : ¬ most < word := by
  induction most generalizing word with
  | nil =>
    have empty : word = [] := List.eq_nil_of_length_eq_zero (Nat.le_zero.mp short)
    rw [empty]
    exact List.not_lt_nil _
  | cons a most ih =>
    obtain ⟨here, rest⟩ := List.forall_mem_cons.mp greatest
    cases word with
    | nil => exact List.not_lt_nil _
    | cons b word =>
      intro less
      rcases List.cons_lt_cons_iff.mp less with first | ⟨-, later⟩
      · exact here b first
      · exact ih rest (Nat.le_of_succ_le_succ short) later

/-- Where a prefix cannot be raised, some word with it is above every word that is as short. -/
theorem raise_eq_none [LE α] [Std.IsLinearOrder α] [Std.LawfulOrderLT α]
    (successors : Successors next) (run : raise next popped = none) (a : α)
    (short : word.length ≤ popped.length) : word < popped.reverse ++ [a] := by
  have greatest := greatest_of_raise successors run
  have atMost : word ≤ popped.reverse := by
    apply not_lt_of_greatest
    · intro b member
      exact greatest b (List.mem_reverse.mp member)
    · rwa [List.length_reverse]
  have less : popped.reverse < popped.reverse ++ [a] := by
    have longer : popped.reverse ++ [] < popped.reverse ++ [a] :=
      List.append_left_lt (List.nil_lt_cons a [])
    rwa [List.append_nil] at longer
  exact List.lt_of_le_of_lt atMost less

/-- A word is below what the letters it begins with are raised to. -/
theorem lt_of_raise_take (successors : Successors next) {length : Nat}
    (run : raise next (word.take length).reverse = some raised) : word < raised := by
  have less := lt_of_raise successors run (word.drop length)
  rwa [List.reverse_reverse, List.take_append_drop] at less

omit [LT α] in
theorem length_raise_take {length : Nat} (run : raise next (word.take length).reverse = some raised) :
    raised.length ≤ length := by
  have bound := length_raise run
  rw [List.length_reverse] at bound
  exact Nat.le_trans bound (List.length_take_le _ _)

/-- The letters a word begins with are not above it. -/
theorem not_lt_take [Std.Irrefl (· < · : α → α → Prop)] (word : List α) (length : Nat) :
    ¬ word < word.take length :=
  List.not_lt.mpr (List.IsPrefix.le (List.take_prefix length word))

/-- Where the letters a word begins with cannot be raised, a longer word that begins with them is
above every word of no more letters. -/
theorem lt_take_append [LE α] [Std.IsLinearOrder α] [Std.LawfulOrderLT α]
    (successors : Successors next) {short : List α} {length : Nat}
    (run : raise next (word.take length).reverse = none) (long : length ≤ word.length)
    (fits : short.length ≤ length) (a : α) : short < word.take length ++ [a] := by
  have within : short.length ≤ (word.take length).reverse.length := by
    rw [List.length_reverse, List.length_take_of_le long]
    exact fits
  have below := raise_eq_none successors run a within
  rwa [List.reverse_reverse] at below

end Bounds

/-- A word between two words with a prefix has the prefix. -/
theorem prefix_between {α : Type} [LT α] [Std.Trichotomous (· < · : α → α → Prop)]
    {start first second word : List α}
    (low : ¬ word < start ++ first) (high : ¬ start ++ second < word) : start <+: word := by
  induction start generalizing word with
  | nil => exact List.nil_prefix
  | cons a start ih =>
    cases word with
    | nil => exact absurd (List.nil_lt_cons _ _) low
    | cons b word =>
      rw [List.cons_append, List.cons_lt_cons_iff, not_or] at low high
      have same : b = a := Std.Trichotomous.trichotomous b a (low.1 ·) (high.1 ·)
      subst same
      have inner := ih (fun less => low.2 ⟨rfl, less⟩) (fun less => high.2 ⟨rfl, less⟩)
      exact List.cons_prefix_cons.mpr ⟨rfl, inner⟩


section Codes

variable {α β : Type} [LT α] [LT β]

/-- Words in order are in order encoded, where the codes of letters differ before either ends. -/
theorem flatMap_lt_flatMap {code : α → List β} (nonempty : ∀ a, code a ≠ [])
    (differ : ∀ a b, a < b → ∀ x y, code a ++ x < code b ++ y) {first second : List α}
    (less : first < second) : first.flatMap code < second.flatMap code := by
  induction less with
  | @nil b second =>
    rw [List.flatMap_nil, List.flatMap_cons]
    cases h : code b with
    | nil => exact absurd h (nonempty b)
    | cons c rest => exact List.nil_lt_cons _ _
  | @cons a _ _ _ ih =>
    rw [List.flatMap_cons, List.flatMap_cons]
    exact List.append_left_lt ih
  | rel here =>
    rw [List.flatMap_cons, List.flatMap_cons]
    exact differ _ _ here _ _

end Codes

/-! ### UTF-8 -/

/-- The bytes of a text. -/
def utf8 (text : String) : List UInt8 := text.toUTF8.data.toList

theorem utf8_inj {a b : String} : utf8 a = utf8 b ↔ a = b := by
  constructor
  · intro bytes
    exact String.toByteArray_inj.mp (ByteArray.ext (Array.toList_inj.mp bytes))
  · exact congrArg utf8

theorem utf8_eq (text : String) : utf8 text = text.toList.flatMap String.utf8EncodeChar := by
  have encoded : text.toUTF8 = text.toList.utf8Encode := by
    rw [String.toUTF8_eq_toByteArray, ← String.toByteArray_ofList, String.ofList_toList]
  rw [utf8, encoded, List.utf8Encode, List.data_toByteArray]

theorem utf8_ofList (letters : List Char) :
    utf8 (String.ofList letters) = letters.flatMap String.utf8EncodeChar := by
  rw [utf8_eq, String.toList_ofList]

/-- Bytes in order, and what decides where they are equal. -/
theorem bytes_lt {m n : Nat} {x y : List UInt8} (high : n < 256) (first : m ≤ n)
    (rest : m = n → x < y) : UInt8.ofNat m :: x < UInt8.ofNat n :: y := by
  apply List.cons_lt_cons_iff.mpr
  rcases Nat.lt_or_eq_of_le first with less | same
  · left
    rw [UInt8.lt_iff_toNat_lt, UInt8.toNat_ofNat', UInt8.toNat_ofNat']
    omega
  · exact .inr ⟨congrArg UInt8.ofNat same, rest same⟩

/-- The codes of characters differ before either ends, in the order of the characters. -/
theorem utf8EncodeChar_lt {a b : Char} (less : a < b) (x y : List UInt8) :
    String.utf8EncodeChar a ++ x < String.utf8EncodeChar b ++ y := by
  have below : a.val.toNat < b.val.toNat := less
  have bounded : b.val.toNat < 0x110000 := by
    rcases b.valid with low | ⟨-, high⟩
    · exact Nat.lt_trans low (by decide)
    · exact high
  generalize h : a.val.toNat = v at below
  generalize k : b.val.toNat = w at below bounded
  unfold String.utf8EncodeChar
  rw [h, k]
  dsimp only
  -- a longer code begins with a greater byte; codes of one length are the digits of the character
  split_ifs
  all_goals first
    | omega
    | exact bytes_lt (by omega) (by omega) fun first => by omega
    | exact bytes_lt (by omega) (by omega) fun first =>
        bytes_lt (by omega) (by omega) fun second => by omega
    | exact bytes_lt (by omega) (by omega) fun first =>
        bytes_lt (by omega) (by omega) fun second =>
          bytes_lt (by omega) (by omega) fun third => by omega
    | exact bytes_lt (by omega) (by omega) fun first =>
        bytes_lt (by omega) (by omega) fun second =>
          bytes_lt (by omega) (by omega) fun third =>
            bytes_lt (by omega) (by omega) fun fourth => by omega

/-- The bytes of texts are in the order of their characters. -/
theorem utf8_lt_utf8 {first second : List Char} (less : first < second) :
    utf8 (String.ofList first) < utf8 (String.ofList second) := by
  rw [utf8_ofList, utf8_ofList]
  exact flatMap_lt_flatMap (fun _ => String.utf8EncodeChar_ne_nil)
    (fun _ _ less => utf8EncodeChar_lt less) less

/-- The bytes of a text are at most those of another exactly if its characters are. -/
theorem utf8_le_utf8_iff {first second : List Char} :
    utf8 (String.ofList first) ≤ utf8 (String.ofList second) ↔ ¬ second < first := by
  constructor
  · intro atMost less
    exact List.not_lt.mpr atMost (utf8_lt_utf8 less)
  · intro atMost
    rcases Std.Trichotomous.rel_or_eq_or_rel_swap (r := (· < · : List Char → List Char → Prop))
      (a := first) (b := second) with less | same | more
    · exact List.le_of_lt (utf8_lt_utf8 less)
    · rw [same]
      exact List.le_refl _
    · exact absurd more atMost

end Lexicographic

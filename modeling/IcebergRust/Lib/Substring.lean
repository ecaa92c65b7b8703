import Mathlib.Data.List.Basic
import Mathlib.Data.List.Infix
import Mathlib.Data.Nat.Find

/-!
# The first occurrence of a pattern

`List.dropInfix?` cuts a list at the first occurrence of a pattern.  `dropInfix?_eq_none_iff` says
when there is none, and `dropInfix?_append_iff` when it is one that is known.
-/

namespace Substring

variable {α : Type} [BEq α] [LawfulBEq α]

theorem dropInfix?_eq_some_iff {list pattern before after : List α} :
    list.dropInfix? pattern = some (before, after) ↔
      list = before ++ pattern ++ after ∧
      ∀ before' after', list = before' ++ pattern ++ after' →
        before.length ≤ before'.length := by
  simp only [List.dropInfix?_eq_some_iff, beq_iff_eq, exists_eq_right]
  refine and_congr_right fun _ => ⟨fun first before' after' same => ?_, ?_⟩
  · exact first before' pattern after' same rfl
  · rintro first before' _ after' same rfl
    exact first before' after' same

/-- A pattern that occurs has a first occurrence. -/
theorem dropInfix?_eq_none_iff {list pattern : List α} :
    list.dropInfix? pattern = none ↔ ¬ pattern <:+: list := by
  constructor
  · rintro missing ⟨before, after, same⟩
    classical
    have occurs : ∃ n before after, before.length = n ∧ before ++ pattern ++ after = list :=
      ⟨_, before, after, rfl, same⟩
    obtain ⟨first, rest, length, cut⟩ := Nat.find_spec occurs
    have found : list.dropInfix? pattern = some (first, rest) := by
      refine dropInfix?_eq_some_iff.mpr ⟨cut.symm, fun before' after' other => ?_⟩
      rw [length]
      exact Nat.find_min' occurs ⟨before', after', rfl, other.symm⟩
    rw [missing] at found
    cases found
  · intro absent
    cases found : list.dropInfix? pattern with
    | none => rfl
    | some parts =>
      obtain ⟨before, after⟩ := parts
      exact absurd ⟨before, after, (dropInfix?_eq_some_iff.mp found).1.symm⟩ absent

/-- An occurrence is the first one if there is none that begins before it. -/
theorem dropInfix?_append_iff {before pattern after : List α} (nonempty : pattern ≠ []) :
    (before ++ pattern ++ after).dropInfix? pattern = some (before, after) ↔
      ¬ pattern <:+: before ++ pattern.dropLast := by
  rw [dropInfix?_eq_some_iff]
  have split : before ++ pattern ++ after =
      before ++ pattern.dropLast ++ ([pattern.getLast nonempty] ++ after) := by
    rw [← List.append_assoc, List.append_assoc before pattern.dropLast,
      List.dropLast_append_getLast]
  have positive := List.length_pos_iff.mpr nonempty
  constructor
  · rintro ⟨-, first⟩ ⟨earlier, rest, same⟩
    have later := first earlier (rest ++ ([pattern.getLast nonempty] ++ after)) (by
      rw [split, ← same]
      simp)
    have lengths := congrArg List.length same
    simp only [List.length_append, List.length_dropLast] at lengths
    omega
  · intro absent
    refine ⟨rfl, fun earlier rest same => ?_⟩
    by_contra less
    have prefix_ : earlier ++ pattern <+: before ++ pattern.dropLast := by
      refine @List.prefix_of_prefix_length_le _ _ _ (before ++ pattern ++ after) ?_ ?_ ?_
      · exact ⟨rest, same.symm⟩
      · exact ⟨_, split.symm⟩
      · simp only [List.length_append, List.length_dropLast]
        omega
    obtain ⟨tail, cut⟩ := prefix_
    exact absent ⟨earlier, tail, cut⟩

end Substring

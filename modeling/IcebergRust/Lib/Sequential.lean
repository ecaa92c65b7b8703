import Mathlib.Data.List.Basic
import Mathlib.Logic.Function.Basic

/-!
# Sequential histories

What an object that performs one operation after the other answers. A concurrent object is as good
as a sequential one if the answers it gives, in the order in which its operations take effect, are
such a history.
-/

/-- The object answers these operations, newest first, and is left in a state. -/
inductive SequentialHistory {O A S : Type} (perform : O → S → A × S) (initial : S) :
    List (O × A) → S → Prop
  | nil : SequentialHistory perform initial [] initial
  | cons {operation : O} {answer : A} {past : List (O × A)} {before after : S}
      (history : SequentialHistory perform initial past before)
      (performed : perform operation before = (answer, after)) :
      SequentialHistory perform initial ((operation, answer) :: past) after

namespace SequentialHistory

variable {O A S S' : Type} {perform : O → S → A × S}

/-- The answers of an object are also those of one that simulates it, where the relation between
the two may depend on what has been performed so far. -/
theorem simulate (perform' : O → S' → A × S') {initial : S} {initial' : S'} (allowed : List O → Prop)
    (earlier : ∀ operation past, allowed (operation :: past) → allowed past)
    (related : List O → S → S' → Prop) (start : related [] initial initial')
    (step : ∀ past operation before before', allowed (operation :: past) →
      related past before before' →
        (perform' operation before').1 = (perform operation before).1 ∧
          related (operation :: past) (perform operation before).2 (perform' operation before').2)
    {history : List (O × A)} {last : S} (sequential : SequentialHistory perform initial history last)
    (all : allowed (history.map (·.1))) :
    ∃ last', SequentialHistory perform' initial' history last' ∧
      related (history.map (·.1)) last last' := by
  induction sequential with
  | nil => exact ⟨initial', .nil, start⟩
  | cons history performed ih =>
    rename_i operation answer past before after
    obtain ⟨before', history', kept⟩ := ih (earlier operation _ all)
    obtain ⟨same, next⟩ := step _ operation before before' all kept
    rw [performed] at same next
    exact ⟨_, .cons history' (Prod.ext same rfl), next⟩

end SequentialHistory

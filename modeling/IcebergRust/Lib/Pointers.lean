import Mathlib.Data.Fintype.Pigeonhole
import Mathlib.Data.Set.Finite.Basic
import Mathlib.Logic.Relation

/-!
# Following pointers

A partial function sends an element to the one it points at.  Following it from an element ends, or
it does not; where only finitely many elements point anywhere, it does not end exactly if a cycle is
reached (`halts_iff`).
-/

namespace Pointers

variable {α : Type} (next : α → Option α)

/-- What is reached after a number of steps. -/
def follow : Nat → α → Option α
  | 0, a => some a
  | n + 1, a => (next a).bind (follow n)

/-- Following the pointers ends. -/
def Halts (a : α) : Prop := ∃ n, follow next n a = none

/-- One element points at another one. -/
def Step (a b : α) : Prop := next a = some b

/-- An element that is reached reaches itself again. -/
def Cyclic (a : α) : Prop :=
  ∃ b, Relation.ReflTransGen (Step next) a b ∧ Relation.TransGen (Step next) b b

variable {next}

theorem follow_add (m n : Nat) (a : α) :
    follow next (m + n) a = (follow next m a).bind (follow next n) := by
  induction m generalizing a with
  | zero => rw [Nat.zero_add, follow, Option.bind_some]
  | succ m ih =>
    rw [Nat.succ_add, follow, follow, Option.bind_assoc]
    exact congrArg (next a).bind (funext ih)

theorem reaches_of_follow {n : Nat} {a b : α} (reached : follow next n a = some b) :
    Relation.ReflTransGen (Step next) a b := by
  induction n generalizing a with
  | zero =>
    obtain rfl := Option.some.inj reached
    exact .refl
  | succ n ih =>
    obtain ⟨c, step, rest⟩ := Option.bind_eq_some_iff.mp reached
    exact .head step (ih rest)

/-- What lies on the way to a cycle points at something that does. -/
theorem exists_next_of_cyclic {a : α} (cyclic : Cyclic next a) :
    ∃ b, next a = some b ∧ Cyclic next b := by
  obtain ⟨c, reached, cycle⟩ := cyclic
  obtain ⟨b, step, rest⟩ := Relation.TransGen.head'_iff.mp (.trans_right reached cycle)
  exact ⟨b, step, c, rest, cycle⟩

theorem not_halts_of_cyclic {a : α} (cyclic : Cyclic next a) : ¬ Halts next a := by
  rintro ⟨n, ended⟩
  induction n generalizing a with
  | zero => cases ended
  | succ n ih =>
    obtain ⟨b, step, cyclic⟩ := exists_next_of_cyclic cyclic
    rw [follow, step, Option.bind_some] at ended
    exact ih cyclic ended

/-- Where following does not end, an element comes back. -/
theorem cyclic_of_not_halts (finite : {a | ∃ b, next a = some b}.Finite) {a : α}
    (endless : ¬ Halts next a) : Cyclic next a := by
  have each : ∀ n, ∃ b, follow next n a = some b := fun n =>
    Option.ne_none_iff_exists'.mp fun ended => endless ⟨n, ended⟩
  choose visited reached using each
  have steps : ∀ m n, follow next n (visited m) = some (visited (m + n)) := by
    intro m n
    rw [← reached (m + n), follow_add, reached, Option.bind_some]
  have points : ∀ n, next (visited n) = some (visited (n + 1)) := by
    intro n
    have one := steps n 1
    rw [follow] at one
    obtain ⟨b, step, same⟩ := Option.bind_eq_some_iff.mp one
    rw [step]
    exact same
  have : Finite {a | ∃ b, next a = some b} := finite
  obtain ⟨i, j, differ, same⟩ := Finite.exists_ne_map_eq_of_infinite
    fun n => (⟨visited n, _, points n⟩ : {a | ∃ b, next a = some b})
  have same : visited i = visited j := congrArg Subtype.val same
  have cycle : ∀ i j, i < j → visited i = visited j → Cyclic next a := by
    intro i j less same
    refine ⟨visited i, reaches_of_follow (reached i), .head' (points i) ?_⟩
    obtain ⟨k, rfl⟩ := Nat.exists_eq_add_of_lt less
    rw [same, Nat.add_right_comm]
    exact reaches_of_follow (steps (i + 1) k)
  rcases Nat.lt_or_gt_of_ne differ with less | greater
  · exact cycle i j less same
  · exact cycle j i greater same.symm

theorem halts_iff (finite : {a | ∃ b, next a = some b}.Finite) (a : α) :
    Halts next a ↔ ¬ Cyclic next a := by
  constructor
  · exact fun halts cyclic => not_halts_of_cyclic cyclic halts
  · exact fun acyclic => by_contra fun endless => acyclic (cyclic_of_not_halts finite endless)

end Pointers

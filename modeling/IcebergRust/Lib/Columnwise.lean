import Mathlib.Data.List.Basic
import Mathlib.Order.Basic

/-!
# Least entries, column by column

Rows are folded into one row that keeps, in every column, the entry that is least so far.  The
greatest entries are the least ones of the opposite comparison.

* `improve` is one step; it fails where the next row is shorter (`improve_eq_none_iff`).
* `Bottom` says what has been kept, and `Bottom.improve` carries it through a step.
* `Bottom.isLE_iff`: what is kept in a column is below a value exactly where one of its entries is.
-/

namespace Columnwise

variable {α : Type} (cmp : α → α → Ordering)

/-- The entry kept of two. -/
def keep (current value : α) : α := if cmp value current = .lt then value else current

theorem keep_eq (current value : α) :
    keep cmp current value = current ∨ keep cmp current value = value := by
  unfold keep
  exact (ite_eq_or_eq _ _ _).symm

theorem keep_self (value : α) : keep cmp value value = value := by
  unfold keep
  rw [ite_self]

/-- One step, `none` where the next row is shorter. -/
def improve : List α → List α → Option (List α)
  | [], _ => some []
  | _ :: _, [] => none
  | current :: currents, value :: values =>
    (improve currents values).map (keep cmp current value :: ·)

theorem improve_self (values : List α) : improve cmp values values = some values := by
  induction values with
  | nil => rfl
  | cons value values ih => rw [improve, ih, keep_self, Option.map_some]

/-- The entries of a column. -/
def column (rows : List (List α)) (i : Nat) : List α := rows.filterMap (·[i]?)

/-- One of the entries, and the least of them. -/
structure Least (bound : α) (entries : List α) : Prop where
  mem : bound ∈ entries
  least : ∀ entry ∈ entries, (cmp bound entry).isLE

/-- A row of the least entries of rows. -/
def Bottom (kept : List α) (rows : List (List α)) : Prop :=
  ∀ i bound, kept[i]? = some bound → Least cmp bound (column rows i)

variable {cmp} {currents values kept : List α} {rows : List (List α)}

theorem improve_eq_none_iff :
    improve cmp currents values = none ↔ values.length < currents.length := by
  induction currents generalizing values with
  | nil => simp [improve]
  | cons current currents ih =>
    cases values with
    | nil => simp [improve]
    | cons value values => simp [improve, ih]

theorem length_improve (run : improve cmp currents values = some kept) :
    kept.length = currents.length := by
  induction currents generalizing values kept with
  | nil =>
    cases run
    rfl
  | cons current currents ih =>
    cases values with
    | nil => cases run
    | cons value values =>
      obtain ⟨rest, inner, rfl⟩ := Option.map_eq_some_iff.mp run
      rw [List.length_cons, List.length_cons, ih inner]

/-- What a step keeps in one column. -/
theorem getElem?_improve (run : improve cmp currents values = some kept) {i : Nat} {bound : α}
    (here : kept[i]? = some bound) : ∃ current value, currents[i]? = some current ∧
      values[i]? = some value ∧ bound = keep cmp current value := by
  induction currents generalizing values kept i with
  | nil =>
    cases run
    cases here
  | cons current currents ih =>
    cases values with
    | nil => cases run
    | cons value values =>
      obtain ⟨rest, inner, rfl⟩ := Option.map_eq_some_iff.mp run
      cases i with
      | zero =>
        cases here
        exact ⟨current, value, rfl, rfl, rfl⟩
      | succ i => exact ih inner here

variable [Std.TransCmp cmp]

theorem keep_isLE_left (current value : α) : (cmp (keep cmp current value) current).isLE := by
  unfold keep
  by_cases below : cmp value current = .lt
  · rw [if_pos below, below]
    rfl
  · rw [if_neg below]
    exact Std.ReflCmp.isLE_rfl

theorem keep_isLE_right (current value : α) : (cmp (keep cmp current value) value).isLE := by
  unfold keep
  by_cases below : cmp value current = .lt
  · rw [if_pos below]
    exact Std.ReflCmp.isLE_rfl
  · rw [if_neg below, Ordering.isLE_iff_ne_gt]
    exact fun above => below (Std.OrientedCmp.lt_of_gt above)

theorem Least.keep {current : α} {entries : List α} (before : Least cmp current entries)
    (value : α) : Least cmp (keep cmp current value) (entries ++ [value]) := by
  constructor
  · rcases keep_eq cmp current value with same | same
    · rw [same]
      exact List.mem_append_left _ before.mem
    · rw [same]
      exact List.mem_append_right _ List.mem_cons_self
  · intro entry member
    rcases List.mem_append.mp member with earlier | here
    · exact Std.TransCmp.isLE_trans (keep_isLE_left current value) (before.least entry earlier)
    · rw [List.mem_singleton.mp here]
      exact keep_isLE_right current value

theorem forall₂_isLE_trans {as bs cs : List α}
    (first : List.Forall₂ (fun a b => (cmp a b).isLE) as bs)
    (second : List.Forall₂ (fun a b => (cmp a b).isLE) bs cs) :
    List.Forall₂ (fun a b => (cmp a b).isLE) as cs := by
  induction first generalizing cs with
  | nil =>
    cases second
    exact .nil
  | cons here _ ih =>
    cases second with
    | cons here' rest => exact .cons (Std.TransCmp.isLE_trans here here') (ih rest)

/-- A step within families of values: it keeps to them, and below both rows. -/
theorem improve_over {columns : List (α → Prop)}
    (current : List.Forall₂ (fun takes value => takes value) columns currents)
    (new : List.Forall₂ (fun takes value => takes value) columns values) :
    ∃ kept, improve cmp currents values = some kept ∧
      List.Forall₂ (fun takes value => takes value) columns kept ∧
      List.Forall₂ (fun a b => (cmp a b).isLE) kept currents ∧
      List.Forall₂ (fun a b => (cmp a b).isLE) kept values := by
  induction current generalizing values with
  | nil =>
    cases new
    exact ⟨[], rfl, .nil, .nil, .nil⟩
  | @cons takes current _ _ here _ ih =>
    cases new with
    | @cons _ value _ _ here' rest =>
      obtain ⟨kept, runs, bound, left, right⟩ := ih rest
      refine ⟨keep cmp current value :: kept, by rw [improve, runs]; rfl, .cons ?_ bound,
        .cons (keep_isLE_left current value) left, .cons (keep_isLE_right current value) right⟩
      rcases keep_eq cmp current value with same | same
      · rw [same]
        exact here
      · rw [same]
        exact here'

theorem Least.isLE_iff {bound : α} {entries : List α} (least : Least cmp bound entries)
    (value : α) : (cmp bound value).isLE ↔ ∃ entry ∈ entries, (cmp entry value).isLE := by
  constructor
  · exact fun below => ⟨bound, least.mem, below⟩
  · rintro ⟨entry, member, below⟩
    exact Std.TransCmp.isLE_trans (least.least entry member) below

theorem column_append (rows : List (List α)) (row : List α) (i : Nat) :
    column (rows ++ [row]) i = column rows i ++ (row[i]?).toList := by
  unfold column
  rw [List.filterMap_append]
  cases here : row[i]? with
  | none => simp [here]
  | some entry => simp [here]

theorem Bottom.single (row : List α) : Bottom cmp row [row] := by
  intro i bound here
  have only : column [row] i = [bound] := by simp [column, here]
  rw [only]
  refine ⟨List.mem_cons_self, ?_⟩
  intro entry member
  rw [List.mem_singleton.mp member]
  exact Std.ReflCmp.isLE_rfl

theorem Bottom.improve {row next : List α} (before : Bottom cmp kept rows)
    (run : improve cmp kept row = some next) : Bottom cmp next (rows ++ [row]) := by
  intro i bound here
  obtain ⟨current, value, currently, now, rfl⟩ := getElem?_improve run here
  rw [column_append, now]
  exact (before i current currently).keep value

theorem mem_column {i : Nat} {entry : α} :
    entry ∈ column rows i ↔ ∃ row ∈ rows, row[i]? = some entry :=
  List.mem_filterMap

/-- What is kept in a column is below a value exactly where one of its entries is. -/
theorem Bottom.isLE_iff (bottom : Bottom cmp kept rows) {i : Nat} {bound : α}
    (here : kept[i]? = some bound) (value : α) :
    (cmp bound value).isLE ↔
      ∃ row ∈ rows, ∃ entry, row[i]? = some entry ∧ (cmp entry value).isLE := by
  rw [(bottom i bound here).isLE_iff value]
  constructor
  · rintro ⟨entry, member, below⟩
    obtain ⟨row, there, found⟩ := mem_column.mp member
    exact ⟨row, there, entry, found, below⟩
  · rintro ⟨row, there, entry, found, below⟩
    exact ⟨entry, mem_column.mpr ⟨row, there, found⟩, below⟩

end Columnwise

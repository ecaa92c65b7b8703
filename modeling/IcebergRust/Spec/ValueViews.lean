import IcebergRust.Lib.Observation
import IcebergRust.Spec.Between
import IcebergRust.Spec.NestedValue
import IcebergRust.Spec.StructLookup

/-!
# Values along paths

A value is a tree: its struct columns, list items, map keys and map values are reached by steps.
There are two readings of a struct, by the names of its columns and by their positions, and each
gives a way for one value to be within another one, `Inside` and `Alike`.

`Sees.iff_within` is how a recursive relation of values turns out to be one of the two: it is
enough that it looks at every kind of value as the reading does.
-/

namespace IcebergRust

open Observation

namespace NestedValue

/-! ### Readings -/

/-- What is seen of a value without what is inside. -/
inductive Label where
  | null
  | value (value : Value)
  | struct (width : Nat) (lookup : List (String × Nat))
  | list (length : Nat)
  | map (length : Nat)

/-- Primitive values are the same when they are equal. -/
def Label.Same : Label → Label → Prop
  | .value a, .value b => a.same b = true
  | a, b => a = b

/-- A place in a value: a column, by what columns go by, or a place in a list or a map. -/
inductive Place (C : Type) where
  | column (column : C)
  | item (index : Nat)
  | key (index : Nat)
  | value (index : Nat)

/-- The view of a value that reads its structs in one way. -/
structure Reading (C : Type) where
  label : Struct NestedValue → Nat × List (String × Nat)
  cell : Struct NestedValue → C → Option (Option NestedValue)
  inside : ∀ tuple column found, cell tuple column = some found →
    ∃ own ∈ tuple.fields, own.2 = found

variable {C : Type}

def Reading.view (reading : Reading C) : View (Option NestedValue) Label (Place C) where
  label
    | none => .null
    | some (.primitive value) => .value value
    | some (.struct tuple) => .struct (reading.label tuple).1 (reading.label tuple).2
    | some (.list items) => .list items.length
    | some (.map entries) => .map entries.length
  child
    | some (.struct tuple), .column column => reading.cell tuple column
    | some (.list items), .item index => items[index]?
    | some (.map entries), .key index => entries[index]?.map fun entry => some entry.1
    | some (.map entries), .value index => entries[index]?.map (·.2)
    | _, _ => none

/-- Columns by their names; of a struct itself nothing is seen. -/
def byName : Reading String where
  label _ := (0, [])
  cell := Struct.get
  inside _ _ _ := Struct.mem_of_get

/-- Columns by their positions; of a struct itself its lookup table is seen. -/
def byPosition : Reading Nat where
  label tuple := (tuple.fields.length, tuple.lookup)
  cell tuple index := tuple.fields[index]?.map (·.2)
  inside _ _ _ found := by
    obtain ⟨column, listed, rfl⟩ := Option.map_eq_some_iff.mp found
    exact ⟨column, List.mem_of_getElem? listed, rfl⟩

/-- Whatever the first value has along a path of names, the second one has there. -/
def Inside (a b : NestedValue) : Prop := Within byName.view Label.Same (some a) (some b)

/-- Whatever the first value has along a path of positions, the second one has there, its tables
of names included. -/
def Alike (a b : NestedValue) : Prop := Within byPosition.view Label.Same (some a) (some b)

theorem Label.Same.refl (label : Label) : label.Same label := by
  cases label <;> simp [Label.Same, Value.same_refl]

theorem Label.Same.trans (a b c : Label) (first : a.Same b) (second : b.Same c) : a.Same c := by
  cases a with
  | value a =>
    cases b with
    | value b =>
      cases c with
      | value c => exact Value.same_trans first second
      | _ => cases second
    | _ => cases first
  | _ =>
    cases b with
    | value b => cases first
    | _ => exact (show _ = _ from first) ▸ second

theorem inside_refl (value : NestedValue) : Inside value value :=
  Within.refl Label.Same.refl _

theorem Inside.trans {a b c : NestedValue} (first : Inside a b) (second : Inside b c) :
    Inside a c :=
  Within.trans Label.Same.trans first second

/-! ### One step of a view -/

/-- Which of the four kinds a value is of. -/
def kind : NestedValue → Nat
  | .primitive _ => 0
  | .struct _ => 1
  | .list _ => 2
  | .map _ => 3

/-- A relation of values that looks at them as a reading does. -/
structure Sees (reading : Reading C) (related : NestedValue → NestedValue → Prop) : Prop where
  apart : ∀ a b, related a b → a.kind = b.kind
  primitive : ∀ a b, related (.primitive a) (.primitive b) ↔ a.same b = true
  struct : ∀ a b, related (.struct a) (.struct b) ↔ reading.label a = reading.label b ∧
    ∀ column cell, reading.cell a column = some cell →
      ∃ other, reading.cell b column = some other ∧ Option.Rel related cell other
  list : ∀ as bs, related (.list as) (.list bs) ↔ List.Forall₂ (Option.Rel related) as bs
  map : ∀ as bs, related (.map as) (.map bs) ↔
    List.Forall₂ (fun a b => related a.1 b.1 ∧ Option.Rel related a.2 b.2) as bs

section Steps

variable {reading : Reading C}

theorem kind_eq_of_within {a b : NestedValue}
    (within : Within reading.view Label.Same (some a) (some b)) : a.kind = b.kind := by
  have labels := (within_iff.mp within).1
  cases a <;> cases b <;> first | rfl | cases labels

theorem within_null {cell : Option NestedValue} :
    Within reading.view Label.Same none cell ↔ cell = none := by
  constructor
  · intro within
    have labels := (within_iff.mp within).1
    rcases cell with _ | value
    · rfl
    · cases value <;> cases labels
  · rintro rfl
    exact Within.refl Label.Same.refl _

theorem not_within_null {value : NestedValue} :
    ¬ Within reading.view Label.Same (some value) none := by
  intro within
  have labels := (within_iff.mp within).1
  cases value <;> cases labels

/-- Cells are within one another when their values are. -/
theorem rel_iff_within {related : NestedValue → NestedValue → Prop} {a : Option NestedValue}
    (inside : ∀ value, a = some value →
      ∀ b, related value b ↔ Within reading.view Label.Same (some value) (some b))
    (b : Option NestedValue) :
    Option.Rel related a b ↔ Within reading.view Label.Same a b := by
  cases a with
  | none =>
    rw [within_null]
    cases b <;> simp
  | some value =>
    cases b with
    | none => simp [not_within_null]
    | some other => rw [Option.rel_some_some, inside value rfl]

theorem within_primitive {a b : Value} :
    Within reading.view Label.Same (some (.primitive a)) (some (.primitive b)) ↔
      a.same b = true := by
  refine within_iff.trans (and_iff_left ?_)
  intro step inner reached
  cases reached

theorem within_struct {a b : Struct NestedValue} :
    Within reading.view Label.Same (some (.struct a)) (some (.struct b)) ↔
      reading.label a = reading.label b ∧
        ∀ column cell, reading.cell a column = some cell → ∃ other,
          reading.cell b column = some other ∧ Within reading.view Label.Same cell other := by
  rw [within_iff]
  refine and_congr ?_ ?_
  · rw [Prod.ext_iff]
    exact Iff.of_eq (Label.struct.injEq ..)
  · constructor
    · exact fun each column => each (.column column)
    · intro each step inner reached
      cases step with
      | column column => exact each column inner reached
      | _ => cases reached

theorem within_list {as bs : List (Option NestedValue)} :
    Within reading.view Label.Same (some (.list as)) (some (.list bs)) ↔
      List.Forall₂ (Within reading.view Label.Same) as bs := by
  rw [within_iff, forall₂_iff_getElem?]
  refine and_congr ?_ ?_
  · exact Iff.of_eq (Label.list.injEq ..)
  · constructor
    · exact fun each index => each (.item index)
    · intro each step inner reached
      cases step with
      | item index => exact each index inner reached
      | _ => cases reached

theorem within_map {as bs : List (NestedValue × Option NestedValue)} :
    Within reading.view Label.Same (some (.map as)) (some (.map bs)) ↔
      List.Forall₂ (fun a b => Within reading.view Label.Same (some a.1) (some b.1) ∧
        Within reading.view Label.Same a.2 b.2) as bs := by
  rw [within_iff, forall₂_iff_getElem?]
  refine and_congr ?_ ?_
  · exact Iff.of_eq (Label.map.injEq ..)
  · constructor
    · intro each index entry found
      obtain ⟨_, reached, key⟩ := each (.key index) (some entry.1)
        (Option.map_eq_some_iff.mpr ⟨entry, found, rfl⟩)
      obtain ⟨other, found', rfl⟩ := Option.map_eq_some_iff.mp reached
      obtain ⟨_, reached', value⟩ := each (.value index) entry.2
        (Option.map_eq_some_iff.mpr ⟨entry, found, rfl⟩)
      obtain ⟨_, found'', rfl⟩ := Option.map_eq_some_iff.mp reached'
      cases found'.symm.trans found''
      exact ⟨other, found', key, value⟩
    · intro each step inner reached
      cases step with
      | key index =>
        obtain ⟨entry, found, rfl⟩ := Option.map_eq_some_iff.mp reached
        obtain ⟨other, found', key, -⟩ := each index entry found
        exact ⟨_, Option.map_eq_some_iff.mpr ⟨other, found', rfl⟩, key⟩
      | value index =>
        obtain ⟨entry, found, rfl⟩ := Option.map_eq_some_iff.mp reached
        obtain ⟨other, found', -, value⟩ := each index entry found
        exact ⟨_, Option.map_eq_some_iff.mpr ⟨other, found', rfl⟩, value⟩
      | _ => cases reached

/-- A relation that looks at values as a reading does is being within in its view. -/
theorem Sees.iff_within {related : NestedValue → NestedValue → Prop}
    (sees : Sees reading related) (a b : NestedValue) :
    related a b ↔ Within reading.view Label.Same (some a) (some b) := by
  have apart : ∀ a b : NestedValue, a.kind ≠ b.kind →
      (related a b ↔ Within reading.view Label.Same (some a) (some b)) := fun a b kinds =>
    iff_of_false (fun held => kinds (sees.apart a b held))
      (fun within => kinds (kind_eq_of_within within))
  induction a generalizing b with
  | primitive a =>
    cases b with
    | primitive b => rw [sees.primitive, within_primitive]
    | _ => exact apart _ _ (by simp [kind])
  | struct a ih =>
    cases b with
    | struct b =>
      rw [sees.struct, within_struct]
      have cells : ∀ column cell, reading.cell a column = some cell → ∀ other,
          (Option.Rel related cell other ↔ Within reading.view Label.Same cell other) := by
        intro column cell found
        obtain ⟨own, listed, rfl⟩ := reading.inside a column cell found
        exact rel_iff_within (ih own listed)
      refine and_congr Iff.rfl (forall_congr' fun column => forall_congr' fun cell =>
        forall_congr' fun found => exists_congr fun other => and_congr Iff.rfl ?_)
      exact cells column cell found other
    | _ => exact apart _ _ (by simp [kind])
  | list as ih =>
    cases b with
    | list bs =>
      rw [sees.list, within_list]
      exact forall₂_congr_left fun item listed other => rel_iff_within (ih item listed) other
    | _ => exact apart _ _ (by simp [kind])
  | map as ih =>
    cases b with
    | map bs =>
      rw [sees.map, within_map]
      refine forall₂_congr_left fun entry listed other => and_congr ?_ ?_
      · exact (ih entry listed).1 other.1
      · exact rel_iff_within (ih entry listed).2 other.2
    | _ => exact apart _ _ (by simp [kind])

end Steps

end NestedValue

end IcebergRust

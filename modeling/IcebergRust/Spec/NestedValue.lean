import IcebergRust.Spec.Manifest
import IcebergRust.Spec.Order

/-!
# Values with structs, lists and maps

The whole of `Value`: the primitive variants of `Spec.Value`, and the compound ones.  A map is
the list of its entries, in the order of its keys.

* `NestedValue.induction` is the induction over the values inside a value.
* `NestedValue.fold` is the recursion: what is computed of a value from what is computed of the
  values inside.
-/

namespace IcebergRust

/-- `Value`. -/
inductive NestedValue where
  | primitive (value : Value)
  | struct (tuple : Struct NestedValue)
  | list (items : List (Option NestedValue))
  | map (entries : List (NestedValue × Option NestedValue))

namespace NestedValue

section Induction

variable {motive : NestedValue → Prop}

/-- What holds of the value of a cell, if it has one. -/
private def OfCell (motive : NestedValue → Prop) (cell : Option NestedValue) : Prop :=
  ∀ value, cell = some value → motive value

/-- What holds of a value when it holds of the values inside holds of every value. -/
@[elab_as_elim, induction_eliminator]
theorem induction (primitive : ∀ value, motive (.primitive value))
    (struct : ∀ tuple : Struct NestedValue,
      (∀ column ∈ tuple.fields, ∀ value, column.2 = some value → motive value) →
        motive (.struct tuple))
    (list : ∀ items, (∀ item ∈ items, ∀ value, item = some value → motive value) →
      motive (.list items))
    (map : ∀ entries, (∀ entry ∈ entries, motive entry.1 ∧
      ∀ value, entry.2 = some value → motive value) → motive (.map entries))
    (value : NestedValue) : motive value :=
  @NestedValue.rec motive
    (fun tuple => ∀ column ∈ tuple.fields, OfCell motive column.2)
    (fun items => ∀ item ∈ items, OfCell motive item)
    (fun entries => ∀ entry ∈ entries, motive entry.1 ∧ OfCell motive entry.2)
    (fun columns => ∀ column ∈ columns, OfCell motive column.2)
    (OfCell motive) (fun entry => motive entry.1 ∧ OfCell motive entry.2)
    (fun column => OfCell motive column.2)
    primitive struct list map (fun _ inside => inside)
    (by simp) (fun _ _ head tail => List.forall_mem_cons.mpr ⟨head, tail⟩)
    (by simp) (fun _ _ head tail => List.forall_mem_cons.mpr ⟨head, tail⟩)
    (by simp) (fun _ _ head tail => List.forall_mem_cons.mpr ⟨head, tail⟩)
    (fun _ empty => nomatch empty)
    (fun _ inside _ same => Option.some_inj.mp same ▸ inside)
    (fun _ _ key value => ⟨key, value⟩) (fun _ _ cell => cell) value

end Induction

/-! ### Recursion -/

section Fold

variable {R : Type} (primitive : Value → R) (struct : List (String × Option R) → R)
  (list : List (Option R) → R) (map : List (R × Option R) → R)

mutual

/-- What is computed of a value from what is computed of the values inside. -/
def fold : NestedValue → R
  | .primitive value => primitive value
  | .struct ⟨columns⟩ => struct (foldColumns columns)
  | .list items => list (foldItems items)
  | .map entries => map (foldEntries entries)

def foldCell : Option NestedValue → Option R
  | none => none
  | some value => some (fold value)

def foldColumns : List (String × Option NestedValue) → List (String × Option R)
  | [] => []
  | (name, cell) :: columns => (name, foldCell cell) :: foldColumns columns

def foldItems : List (Option NestedValue) → List (Option R)
  | [] => []
  | item :: items => foldCell item :: foldItems items

def foldEntries : List (NestedValue × Option NestedValue) → List (R × Option R)
  | [] => []
  | (key, value) :: entries => (fold key, foldCell value) :: foldEntries entries

end

theorem foldCell_eq (cell : Option NestedValue) :
    foldCell primitive struct list map cell = cell.map (fold primitive struct list map) := by
  cases cell <;> rfl

@[simp]
theorem fold_primitive (value : Value) :
    fold primitive struct list map (.primitive value) = primitive value := rfl

@[simp]
theorem fold_struct (tuple : Struct NestedValue) :
    fold primitive struct list map (.struct tuple) = struct (tuple.fields.map fun column =>
      (column.1, column.2.map (fold primitive struct list map))) := by
  obtain ⟨columns⟩ := tuple
  refine congrArg struct ?_
  induction columns with
  | nil => rfl
  | cons column columns ih =>
    rw [List.map_cons, ← ih, ← foldCell_eq]
    rfl

@[simp]
theorem fold_list (items : List (Option NestedValue)) :
    fold primitive struct list map (.list items) =
      list (items.map (Option.map (fold primitive struct list map))) := by
  refine congrArg list ?_
  induction items with
  | nil => rfl
  | cons item items ih =>
    rw [List.map_cons, ← ih, ← foldCell_eq]
    rfl

@[simp]
theorem fold_map (entries : List (NestedValue × Option NestedValue)) :
    fold primitive struct list map (.map entries) = map (entries.map fun entry =>
      (fold primitive struct list map entry.1,
        entry.2.map (fold primitive struct list map))) := by
  refine congrArg map ?_
  induction entries with
  | nil => rfl
  | cons entry entries ih =>
    rw [List.map_cons, ← ih, ← foldCell_eq]
    rfl

end Fold

end NestedValue

end IcebergRust

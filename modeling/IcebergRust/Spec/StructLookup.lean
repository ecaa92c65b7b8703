import Mathlib.Data.List.Dedup
import Mathlib.Data.List.Sort
import IcebergRust.Spec.Manifest

/-!
# The lookup table of a struct

`Struct` keeps its columns in order and, for each name, the index of the last column of the name.
`get_eq_some_iff` reads a column through the table.
-/

namespace IcebergRust

namespace Struct

variable {V W : Type}

/-- `Struct::keys`: the names in order, each once. -/
def keys (tuple : Struct V) : List String :=
  (tuple.fields.map (·.1)).dedup.insertionSort (· ≤ ·)

/-- The last of the columns with a name, by its distance from the end. -/
def lastIndex (tuple : Struct V) (name : String) : Nat :=
  tuple.fields.length - 1 - tuple.fields.reverse.findIdx fun column => column.1 = name

/-- The field `lookup`. -/
def lookup (tuple : Struct V) : List (String × Nat) :=
  tuple.keys.map fun name => (name, tuple.lastIndex name)

/-- A struct of the same names. -/
def map (f : Option V → Option W) (tuple : Struct V) : Struct W :=
  ⟨tuple.fields.map fun column => (column.1, f column.2)⟩

variable {tuple : Struct V} {name : String}

theorem mem_keys : name ∈ tuple.keys ↔ ∃ column ∈ tuple.fields, column.1 = name := by
  rw [keys, List.mem_insertionSort, List.mem_dedup, List.mem_map]

theorem keys_map (f : Option V → Option W) (tuple : Struct V) :
    (tuple.map f).keys = tuple.keys := by
  unfold keys map
  rw [List.map_map]
  rfl

theorem lookup_map (f : Option V → Option W) (tuple : Struct V) :
    (tuple.map f).lookup = tuple.lookup := by
  have last : ∀ name, (tuple.map f).lastIndex name = tuple.lastIndex name := by
    intro name
    simp only [lastIndex, map, ← List.map_reverse, List.length_map, List.findIdx_map]
    rfl
  unfold lookup
  rw [keys_map]
  exact List.map_congr_left fun name _ => congrArg (Prod.mk name) (last name)

/-- Structs with the same names list them alike. -/
theorem keys_eq {a : Struct V} {b : Struct W} (same : ∀ name, name ∈ a.keys ↔ name ∈ b.keys) :
    a.keys = b.keys := by
  have permuted : a.keys.Perm b.keys := by
    refine (List.perm_ext_iff_of_nodup ?_ ?_).mpr same
    · exact (List.perm_insertionSort _ _).nodup_iff.mpr (List.nodup_dedup _)
    · exact (List.perm_insertionSort _ _).nodup_iff.mpr (List.nodup_dedup _)
  exact permuted.eq_of_pairwise' (List.pairwise_insertionSort _ _) (List.pairwise_insertionSort _ _)

theorem get_map (f : Option V → Option W) (tuple : Struct V) (name : String) :
    (tuple.map f).get name = (tuple.get name).map f := by
  simp only [get, map, ← List.map_reverse, List.find?_map, Option.map_map]
  rfl

theorem get_isSome_iff : (tuple.get name).isSome ↔ name ∈ tuple.keys := by
  simp [get, mem_keys]

theorem mem_keys_of_get {cell : Option V} (found : tuple.get name = some cell) :
    name ∈ tuple.keys :=
  get_isSome_iff.mp (Option.isSome_of_eq_some found)

theorem get_of_mem_keys (named : name ∈ tuple.keys) : ∃ cell, tuple.get name = some cell :=
  Option.isSome_iff_exists.mp (get_isSome_iff.mpr named)

/-- The cell of a name is a cell of a column. -/
theorem mem_of_get {cell : Option V} (found : tuple.get name = some cell) :
    ∃ column ∈ tuple.fields, column.2 = cell := by
  obtain ⟨column, at_, rfl⟩ := Option.map_eq_some_iff.mp found
  exact ⟨column, List.mem_reverse.mp (List.mem_of_find?_eq_some at_), rfl⟩

theorem get_eq_lastIndex (named : name ∈ tuple.keys) :
    tuple.get name = (tuple.fields[tuple.lastIndex name]?).map (·.2) := by
  obtain ⟨column, member, rfl⟩ := mem_keys.mp named
  have within : tuple.fields.reverse.findIdx (fun other => other.1 = column.1) <
      tuple.fields.length := by
    rw [← List.length_reverse]
    exact List.findIdx_lt_length_of_exists ⟨column, List.mem_reverse.mpr member, by simp⟩
  rw [get, List.find?_eq_getElem?_findIdx, List.getElem?_reverse within]
  rfl

/-- Reading a column goes through the table. -/
theorem get_eq_some_iff {cell : Option V} :
    tuple.get name = some cell ↔ ∃ index, (name, index) ∈ tuple.lookup ∧
      ∃ column, tuple.fields[index]? = some column ∧ column.2 = cell := by
  constructor
  · intro found
    have named := mem_keys_of_get found
    refine ⟨tuple.lastIndex name, List.mem_map.mpr ⟨name, named, rfl⟩, ?_⟩
    exact Option.map_eq_some_iff.mp ((get_eq_lastIndex named).symm.trans found)
  · rintro ⟨index, listed, column, found, rfl⟩
    obtain ⟨_, named, same⟩ := List.mem_map.mp listed
    cases same
    rw [get_eq_lastIndex named, found, Option.map_some]

end Struct

end IcebergRust

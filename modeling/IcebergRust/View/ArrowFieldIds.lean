import IcebergRust.Arrow.Schema
import IcebergRust.Spec.Schema
import IcebergRust.Spec.TypeText
import Mathlib.Data.List.Sort

/-!
# The source ids of a view's columns

`view/mod.rs` keeps the ids the columns of a view have at their source in the property
`arrow_field_ids`, as the text `"<spec_id>:<arrow_id>,..."`.

`lookup_parse_encode` is that the text of a mapping parses to the mapping.
-/

namespace IcebergRust

open ArrowSchema (parseI32 parseI32_toString)
open TypeText (splitOnce splitOnce_append)

/-- One entry of the property. -/
def arrowFieldIdEntry (entry : Int × Int) : String := toString entry.1 ++ ":" ++ toString entry.2

/-- `encode_arrow_field_ids`. -/
def encodeArrowFieldIds (mapping : HashMap Int Int) : String :=
  ",".intercalate ((mapping.iter.insertionSort fun a b => a.1 ≤ b.1).map arrowFieldIdEntry)

/-- The body of the loop of `parse_arrow_field_ids`. -/
def parseArrowFieldIdEntry (entry : String) : Option (Int × Int) := do
  let (spec, arrow) ← splitOnce ':' entry.toList
  let spec ← parseI32 (String.ofList spec)
  let arrow ← parseI32 (String.ofList arrow)
  some (spec, arrow)

/-- `parse_arrow_field_ids`.  An entry that does not parse empties the map. -/
def parseArrowFieldIds (value : Option String) : HashMap Int Int :=
  match value with
  | none => ∅
  | some raw =>
    match ((splitAt ',' raw).filter fun entry => entry ≠ "").mapM parseArrowFieldIdEntry with
    | none => ∅
    | some entries => HashMap.fromIter entries

/-! ### What is encoded parses -/

theorem notMem_toString_int {c : Char} (other : c.isDigit = false) (sign : c ≠ '-') (n : Int) :
    c ∉ (toString n).toList := by
  cases n with
  | ofNat n => exact notMem_digits other n
  | negSucc n =>
    have printed : (toString (Int.negSucc n)).toList = '-' :: (n + 1).repr.toList := by
      show ("-" ++ (n + 1).repr).toList = _
      simp
    rw [printed, List.mem_cons, not_or]
    exact ⟨sign, notMem_digits other (n + 1)⟩

theorem toList_arrowFieldIdEntry (entry : Int × Int) :
    (arrowFieldIdEntry entry).toList =
      (toString entry.1).toList ++ ':' :: (toString entry.2).toList := by
  simp [arrowFieldIdEntry, String.toList_append]

theorem parseArrowFieldIdEntry_entry {entry : Int × Int} (inside : InI32 entry.1 ∧ InI32 entry.2) :
    parseArrowFieldIdEntry (arrowFieldIdEntry entry) = some entry := by
  unfold parseArrowFieldIdEntry
  rw [toList_arrowFieldIdEntry,
    splitOnce_append (notMem_toString_int rfl (by decide) entry.1)]
  show ((parseI32 (String.ofList (toString entry.1).toList)).bind fun spec =>
    (parseI32 (String.ofList (toString entry.2).toList)).bind fun arrow => some (spec, arrow)) = _
  rw [String.ofList_toList, String.ofList_toList, parseI32_toString inside.1,
    parseI32_toString inside.2]
  rfl

theorem splitAt_intercalate {entries : List (Int × Int)} (some_ : entries ≠ []) :
    splitAt ',' (",".intercalate (entries.map arrowFieldIdEntry)) =
      entries.map arrowFieldIdEntry := by
  have comma : ∀ text ∈ (entries.map arrowFieldIdEntry).map String.toList, ',' ∉ text := by
    simp only [List.map_map, List.forall_mem_map, Function.comp_apply]
    intro entry _
    rw [toList_arrowFieldIdEntry, List.mem_append, List.mem_cons, not_or, not_or]
    exact ⟨notMem_toString_int rfl (by decide) _, by decide, notMem_toString_int rfl (by decide) _⟩
  have split := List.splitOn_intercalate ',' comma (by simpa using some_)
  rw [splitAt, String.toList_intercalate]
  show ((List.intercalate [','] _).splitOn ',').map String.ofList = _
  rw [split, List.map_map]
  simp [Function.comp_def]

theorem arrowFieldIdEntry_ne_empty (entry : Int × Int) : arrowFieldIdEntry entry ≠ "" := by
  intro empty
  have chars := congrArg String.toList empty
  rw [toList_arrowFieldIdEntry] at chars
  simp at chars

/-- Only the empty mapping has the empty text. -/
theorem encodeArrowFieldIds_eq_empty_iff {mapping : HashMap Int Int} :
    encodeArrowFieldIds mapping = "" ↔ mapping.iter = [] := by
  have perm := List.perm_insertionSort (fun a b : Int × Int => a.1 ≤ b.1) mapping.iter
  unfold encodeArrowFieldIds
  generalize mapping.iter.insertionSort (fun a b => a.1 ≤ b.1) = entries at perm
  constructor
  · intro empty
    by_contra some_
    have nonempty : entries ≠ [] := by
      intro none_
      rw [none_] at perm
      exact some_ perm.symm.eq_nil
    have split := splitAt_intercalate nonempty
    rw [empty] at split
    cases entries with
    | nil => exact nonempty rfl
    | cons entry rest => exact arrowFieldIdEntry_ne_empty entry (List.cons.inj split).1.symm
  · intro none_
    rw [none_] at perm
    rw [perm.eq_nil]
    rfl

/-- A mapping is read back from its text. -/
theorem lookup_parse_encode {mapping : HashMap Int Int}
    (inside : ∀ entry ∈ mapping.iter, InI32 entry.1 ∧ InI32 entry.2) (some_ : mapping.iter ≠ [])
    (id : Int) :
    (parseArrowFieldIds (some (encodeArrowFieldIds mapping))).lookup id = mapping.lookup id := by
  have perm := List.perm_insertionSort (fun a b : Int × Int => a.1 ≤ b.1) mapping.iter
  have nonempty : mapping.iter.insertionSort (fun a b => a.1 ≤ b.1) ≠ [] := by
    intro empty
    rw [empty] at perm
    exact some_ perm.symm.eq_nil
  unfold parseArrowFieldIds encodeArrowFieldIds
  generalize mapping.iter.insertionSort (fun a b => a.1 ≤ b.1) = entries at perm nonempty
  have kept : ((entries.map arrowFieldIdEntry).filter fun entry => entry ≠ "") =
      entries.map arrowFieldIdEntry := by
    refine List.filter_eq_self.mpr (List.forall_mem_map.mpr fun entry _ => ?_)
    exact decide_eq_true (arrowFieldIdEntry_ne_empty entry)
  have parsed : (entries.map arrowFieldIdEntry).mapM parseArrowFieldIdEntry = some entries := by
    rw [Fallible.mapM_eq_some, List.forall₂_map_left_iff, List.forall₂_same]
    exact fun entry member => parseArrowFieldIdEntry_entry (inside entry (perm.mem_iff.mp member))
  dsimp only
  rw [splitAt_intercalate nonempty, kept, parsed]
  dsimp only
  have distinct : ∀ p ∈ entries, ∀ q ∈ entries, p.1 = q.1 → p = q := by
    rintro ⟨key, value⟩ member ⟨_, value'⟩ member' rfl
    have found := HashMap.mem_iter_iff.mp (perm.mem_iff.mp member)
    have found' := HashMap.mem_iter_iff.mp (perm.mem_iff.mp member')
    rw [Option.some.inj (found.symm.trans found')]
  refine Option.ext fun value => ?_
  rw [HashMap.lookup_fromIter_of_distinct distinct, perm.mem_iff, HashMap.mem_iter_iff]

end IcebergRust

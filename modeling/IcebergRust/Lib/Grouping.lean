import Mathlib.Data.List.AList
import Mathlib.Data.List.Induction

/-!
# Groups of a list

Lists collected by key, and groups merged into a bounded number of them.

* `push` adds a value under its key; nothing is lost (`contents_push`).
* `deal` keeps the first groups and deals the others out to them in turn: their contents are those
  of all groups (`contents_deal`), and as many groups are left as there is room for
  (`length_deal`).
-/

namespace Grouping

variable {κ α : Type}

/-- Everything in groups. -/
def contents (groups : List (κ × List α)) : List α := groups.flatMap (·.2)

@[simp] theorem contents_nil : contents ([] : List (κ × List α)) = [] := rfl

@[simp] theorem contents_cons (group : κ × List α) (groups : List (κ × List α)) :
    contents (group :: groups) = group.2 ++ contents groups := List.flatMap_cons

@[simp] theorem contents_append (first second : List (κ × List α)) :
    contents (first ++ second) = contents first ++ contents second := List.flatMap_append

theorem mem_contents {groups : List (κ × List α)} {x : α} :
    x ∈ contents groups ↔ ∃ group ∈ groups, x ∈ group.2 := List.mem_flatMap

/-! ### Collecting -/

section Collect

variable [DecidableEq κ]

/-- The groups of a map. -/
def groups (map : AList fun _ : κ => List α) : List (κ × List α) :=
  map.entries.map fun entry => (entry.1, entry.2)

/-- The group under a key, empty where there is none. -/
def under (map : AList fun _ : κ => List α) (key : κ) : List α := (map.lookup key).getD []

/-- A value is added to the group under its key. -/
def push (map : AList fun _ : κ => List α) (key : κ) (x : α) : AList fun _ : κ => List α :=
  map.insert key (under map key ++ [x])

theorem under_push_self (map : AList fun _ : κ => List α) (key : κ) (x : α) :
    under (push map key x) key = under map key ++ [x] := by
  rw [under, push, AList.lookup_insert, Option.getD_some]

theorem under_push_ne (map : AList fun _ : κ => List α) {key other : κ} (differ : other ≠ key)
    (x : α) : under (push map key x) other = under map other := by
  rw [under, push, AList.lookup_insert_ne differ, under]

theorem mem_push {map : AList fun _ : κ => List α} {key other : κ} {x : α} :
    other ∈ push map key x ↔ other = key ∨ other ∈ map := AList.mem_insert _

/-- The contents of a map, with one group aside. -/
theorem contents_perm (map : AList fun _ : κ => List α) (key : κ) :
    (contents (groups map)).Perm (under map key ++ contents (groups (map.erase key))) := by
  by_cases present : key ∈ map
  · obtain ⟨group, before, after, -, entries, erased⟩ := List.exists_of_kerase present
    have found : map.lookup key = some group := by
      apply AList.mem_lookup_iff.mpr
      rw [entries]
      exact List.mem_append_right _ List.mem_cons_self
    have rest : (map.erase key).entries = before ++ after := erased
    unfold groups under
    rw [rest, entries, found, Option.getD_some, List.map_append, List.map_cons, contents_append,
      contents_cons, List.map_append, contents_append]
    exact List.perm_append_comm_assoc _ _ _
  · have absent : map.lookup key = none := AList.lookup_eq_none.mpr present
    have same : (map.erase key).entries = map.entries := List.kerase_of_notMem_keys present
    unfold groups under
    rw [same, absent, Option.getD_none, List.nil_append]

/-- A pushed value is added to the contents. -/
theorem contents_push (map : AList fun _ : κ => List α) (key : κ) (x : α) :
    (contents (groups (push map key x))).Perm (contents (groups map) ++ [x]) := by
  have entries : groups (push map key x) =
      (key, under map key ++ [x]) :: groups (map.erase key) := rfl
  rw [entries, contents_cons, List.append_assoc]
  have aside := (contents_perm map key).append_right [x]
  refine List.Perm.trans ?_ aside.symm
  rw [List.append_assoc]
  exact List.perm_append_comm.append_left _

end Collect

/-! ### Dealing -/

/-- A group joins the ones kept: as a new one where there is room for it, else the one whose turn
it is. -/
def dealOne (count : Nat) (dealt : List (κ × List α)) (group : (κ × List α) × Nat) :
    List (κ × List α) :=
  if group.2 < count then dealt ++ [group.1]
  else dealt.modify (group.2 % count) fun kept => (kept.1, kept.2 ++ group.1.2)

/-- The first groups are kept, the others are dealt out to them in turn. -/
def deal (count : Nat) (groups : List (κ × List α)) : List (κ × List α) :=
  groups.zipIdx.foldl (dealOne count) []

theorem deal_append_singleton (count : Nat) (groups : List (κ × List α)) (group : κ × List α) :
    deal count (groups ++ [group]) = dealOne count (deal count groups) (group, groups.length) := by
  rw [deal, List.zipIdx_append, List.foldl_append, ← deal, Nat.zero_add]
  rfl

/-- The values a group is given are added to the contents. -/
theorem contents_modify {groups : List (κ × List α)} {i : Nat} (within : i < groups.length)
    (values : List α) :
    (contents (groups.modify i fun kept => (kept.1, kept.2 ++ values))).Perm
      (contents groups ++ values) := by
  induction groups generalizing i with
  | nil => cases within
  | cons group groups ih =>
    cases i with
    | zero =>
      rw [List.modify_zero_cons, contents_cons, contents_cons, List.append_assoc, List.append_assoc]
      exact List.perm_append_comm.append_left _
    | succ i =>
      rw [List.modify_succ_cons, contents_cons, contents_cons, List.append_assoc]
      exact (ih (Nat.lt_of_succ_lt_succ within)).append_left _

theorem keys_modify (groups : List (κ × List α)) (i : Nat) (values : List α) :
    (groups.modify i fun kept => (kept.1, kept.2 ++ values)).map (·.1) = groups.map (·.1) := by
  induction groups generalizing i with
  | nil => cases i <;> rfl
  | cons group groups ih =>
    cases i with
    | zero => rfl
    | succ i => rw [List.modify_succ_cons, List.map_cons, List.map_cons, ih]

/-- As many groups are left as there is room for. -/
theorem length_deal (count : Nat) (groups : List (κ × List α)) :
    (deal count groups).length = min groups.length count := by
  induction groups using List.reverseRecOn with
  | nil => simp [deal]
  | append_singleton groups group ih =>
    rw [deal_append_singleton, dealOne]
    split
    · rw [List.length_append, ih, List.length_singleton, List.length_append, List.length_singleton]
      omega
    · rw [List.length_modify, ih, List.length_append, List.length_singleton]
      omega

/-- The keys that are left are those of the first groups. -/
theorem keys_deal (count : Nat) (groups : List (κ × List α)) :
    (deal count groups).map (·.1) = (groups.map (·.1)).take count := by
  induction groups using List.reverseRecOn with
  | nil => simp [deal]
  | append_singleton groups group ih =>
    rw [deal_append_singleton, dealOne, List.map_append, List.take_append, List.length_map]
    split
    · rename_i room
      rw [List.map_append, ih, List.take_of_length_le (by rw [List.length_map]; omega),
        List.take_of_length_le (by simp; omega)]
    · rename_i full
      rw [keys_modify, ih, Nat.sub_eq_zero_of_le (Nat.le_of_not_lt full), List.take_zero,
        List.append_nil]

/-- Dealing keeps all contents. -/
theorem contents_deal {count : Nat} (positive : 0 < count) (groups : List (κ × List α)) :
    (contents (deal count groups)).Perm (contents groups) := by
  induction groups using List.reverseRecOn with
  | nil => exact .nil
  | append_singleton groups group ih =>
    rw [deal_append_singleton, dealOne, contents_append, contents_cons, contents_nil,
      List.append_nil]
    split
    · rw [contents_append, contents_cons, contents_nil, List.append_nil]
      exact ih.append_right _
    · rename_i full
      have within : groups.length % count < (deal count groups).length := by
        rw [length_deal]
        have turn := Nat.mod_lt groups.length positive
        dsimp only at full
        omega
      exact (contents_modify within group.2).trans (ih.append_right _)

end Grouping

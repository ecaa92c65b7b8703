import Mathlib.Data.List.Basic

/-!
# Caches that forget the least recently used entry

`LruCache` lists its entries from the one used last to the one used least recently.  Whatever is
done to a cache, its entries are those it had before and the one that was put in
(`mem_push`, `mem_getMut`, `mem_popLru`), and the sum of their weights changes by the weights of the
entries that come and go (`total_push`, `total_getMut`, `total_popLru`).
-/

/-- A cache without a capacity: entries with distinct keys, the most recently used one first. -/
structure LruCache (κ β : Type) where
  entries : List (κ × β)
  nodup : (entries.map (·.1)).Nodup

namespace LruCache

variable {κ β : Type}

/-- `LruCache::unbounded`. -/
def unbounded : LruCache κ β := ⟨[], List.nodup_nil⟩

/-- The number of entries. -/
def len (cache : LruCache κ β) : Nat := cache.entries.length

/-- The sum of the weights of some entries. -/
def sum (weight : κ × β → Nat) (entries : List (κ × β)) : Nat :=
  entries.foldr (fun entry rest => weight entry + rest) 0

@[simp] theorem sum_nil (weight : κ × β → Nat) : sum weight [] = 0 := rfl

@[simp] theorem sum_cons (weight : κ × β → Nat) (entry : κ × β) (entries : List (κ × β)) :
    sum weight (entry :: entries) = weight entry + sum weight entries := rfl

theorem sum_append (weight : κ × β → Nat) (entries others : List (κ × β)) :
    sum weight (entries ++ others) = sum weight entries + sum weight others := by
  induction entries with
  | nil => simp
  | cons entry entries ih => simp [ih, Nat.add_assoc]

/-- The sum of the weights of the entries. -/
def total (weight : κ × β → Nat) (cache : LruCache κ β) : Nat := sum weight cache.entries

/-- The least recently used entry is forgotten. -/
def popLru (cache : LruCache κ β) : LruCache κ β where
  entries := cache.entries.dropLast
  nodup := by
    rw [List.map_dropLast]
    exact cache.nodup.sublist (List.dropLast_sublist _)

variable {cache : LruCache κ β}

theorem mem_popLru {entry : κ × β} (member : entry ∈ cache.popLru.entries) :
    entry ∈ cache.entries :=
  (List.dropLast_sublist _).subset member

/-- The entries that stay have other keys than the one that goes. -/
theorem ne_of_mem_popLru {last entry : κ × β} (gone : cache.entries.getLast? = some last)
    (member : entry ∈ cache.popLru.entries) : entry.1 ≠ last.1 := by
  intro same
  have nodup := cache.nodup
  rw [← List.dropLast_append_getLast? last gone, List.map_append] at nodup
  have apart := (List.nodup_append.mp nodup).2.2
  exact apart _ (List.mem_map_of_mem member) _ (List.mem_singleton_self _) same

theorem len_popLru (cache : LruCache κ β) : cache.popLru.len = cache.len - 1 :=
  List.length_dropLast

theorem total_popLru {last : κ × β} (weight : κ × β → Nat)
    (gone : cache.entries.getLast? = some last) :
    cache.popLru.total weight + weight last = cache.total weight := by
  have split := List.dropLast_append_getLast? last gone
  calc cache.popLru.total weight + weight last
      = sum weight (cache.entries.dropLast ++ [last]) := by simp [total, popLru, sum_append]
    _ = cache.total weight := by rw [split, total]

theorem total_eq_zero (weight : κ × β → Nat) (empty : cache.entries.getLast? = none) :
    cache.total weight = 0 := by
  rw [List.getLast?_eq_none_iff] at empty
  simp [total, empty]

variable [DecidableEq κ]

/-- An entry is put in front; an older one of its key goes. -/
def push (cache : LruCache κ β) (key : κ) (value : β) : LruCache κ β where
  entries := (key, value) :: cache.entries.filter fun entry => entry.1 ≠ key
  nodup := by
    refine List.nodup_cons.mpr ⟨?_, cache.nodup.sublist (List.filter_sublist.map _)⟩
    intro present
    obtain ⟨entry, kept, same⟩ := List.mem_map.mp present
    exact of_decide_eq_true (List.mem_filter.mp kept).2 same

/-- The value of a key, which moves to the front. -/
def getMut (cache : LruCache κ β) (key : κ) : Option (β × LruCache κ β) :=
  (cache.entries.find? fun entry => entry.1 = key).map fun entry =>
    (entry.2, cache.push key entry.2)

/-- The value of a key, whose entry stays where it is. -/
def peek (cache : LruCache κ β) (key : κ) : Option β :=
  (cache.entries.find? fun entry => entry.1 = key).map (·.2)

variable {cache after : LruCache κ β} {key : κ} {value : β} {entry : κ × β}

theorem mem_push (member : entry ∈ (cache.push key value).entries) :
    entry = (key, value) ∨ entry ∈ cache.entries := by
  rcases List.mem_cons.mp member with here | kept
  · exact .inl here
  · exact .inr (List.mem_filter.mp kept).1

/-- A value that is found was there, and nothing new is there afterwards. -/
theorem mem_getMut (found : cache.getMut key = some (value, after)) :
    (key, value) ∈ cache.entries ∧ ∀ entry ∈ after.entries, entry ∈ cache.entries := by
  obtain ⟨held, here, same⟩ := Option.map_eq_some_iff.mp found
  obtain ⟨rfl, rfl⟩ := Prod.mk.inj same
  have named : held.1 = key := by simpa using List.find?_some here
  have member : (key, held.2) ∈ cache.entries := named ▸ List.mem_of_find?_eq_some here
  refine ⟨member, fun entry kept => ?_⟩
  rcases mem_push kept with rfl | kept
  · exact member
  · exact kept

/-- What an entry with distinct keys weighs next to the others. -/
theorem sum_filter_ne {entries : List (κ × β)} (nodup : (entries.map (·.1)).Nodup)
    (weight : κ × β → Nat) (key : κ) :
    sum weight (entries.filter fun entry => entry.1 ≠ key) +
      (((entries.find? fun entry => entry.1 = key).map weight).getD 0) = sum weight entries := by
  induction entries with
  | nil => rfl
  | cons entry entries ih =>
    obtain ⟨absent, nodup'⟩ := List.nodup_cons.mp nodup
    have rest := ih nodup'
    by_cases here : entry.1 = key
    · have others : entries.filter (fun other => other.1 ≠ key) = entries := by
        rw [List.filter_eq_self]
        intro other member
        refine decide_eq_true fun same => absent ?_
        exact List.mem_map.mpr ⟨other, member, same.trans here.symm⟩
      rw [List.filter_cons_of_neg (by simpa using here), others,
        List.find?_cons_of_pos (by simpa using here)]
      simp [Nat.add_comm]
    · rw [List.filter_cons_of_pos (by simpa using here),
        List.find?_cons_of_neg (by simpa using here), sum_cons, sum_cons, Nat.add_assoc, rest]

/-- The weight of the new entry comes, and that of the older one goes. -/
theorem total_push (weight : κ × β → Nat) :
    (cache.push key value).total weight +
        ((cache.peek key).map fun older => weight (key, older)).getD 0 =
      cache.total weight + weight (key, value) := by
  have kept := sum_filter_ne cache.nodup weight key
  have older : ((cache.entries.find? fun entry => entry.1 = key).map weight).getD 0 =
      ((cache.peek key).map fun older => weight (key, older)).getD 0 := by
    rw [peek]
    cases found : cache.entries.find? fun entry => entry.1 = key with
    | none => rfl
    | some entry =>
      have named : entry.1 = key := by simpa using List.find?_some found
      rw [← named]
      rfl
  rw [older] at kept
  simp only [total, push, sum_cons]
  omega

theorem weight_le_total_push (weight : κ × β → Nat) :
    weight (key, value) ≤ (cache.push key value).total weight :=
  Nat.le_add_right ..

theorem total_getMut (weight : κ × β → Nat) (found : cache.getMut key = some (value, after)) :
    after.total weight = cache.total weight := by
  obtain ⟨held, here, same⟩ := Option.map_eq_some_iff.mp found
  obtain ⟨rfl, rfl⟩ := Prod.mk.inj same
  have pushed := @total_push κ β _ cache key held.2 weight
  have peeked : cache.peek key = some held.2 := by rw [peek, here, Option.map_some]
  rw [peeked, Option.map_some, Option.getD_some] at pushed
  omega

end LruCache

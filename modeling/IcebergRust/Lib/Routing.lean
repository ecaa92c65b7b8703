import IcebergRust.Lib.Grouping

/-!
# Routing the values of a stream

The values of a stream are divided among logs by their keys, some at a time: each part of the stream
is cut into pieces of one key, and a piece is added to a log of its key or starts a new one.  A key
may have several logs.

`Routed` is kept by each of these steps (`Routed.next`, `Routed.send`, `Routed.branch`).  When no
piece is left, the logs together have the values of the stream, each has values of its own key only
(`Routed.owned`), and their order in it is that of the stream (`Routed.inOrder`).
-/

namespace Routing

open Grouping

variable {κ α : Type} {owner : α → κ → Prop}

/-- How far a stream has been routed: parts that are done with, the part whose pieces are being
sent, the pieces that are left of it, and the logs. -/
structure Routed (owner : α → κ → Prop) (earlier current : List α)
    (pending logs : List (κ × List α)) : Prop where
  conserved : (contents logs ++ contents pending).Perm (earlier ++ current)
  owned : ∀ log ∈ logs, ∀ x ∈ log.2, owner x log.1
  pendingOwned : ∀ piece ∈ pending, ∀ x ∈ piece.2, owner x piece.1
  /-- There is one piece for each key. -/
  distinct : (pending.map (·.1)).Nodup
  inOrder : ∀ log ∈ logs, log.2.Sublist (earlier ++ current)
  /-- The logs of a key that is still to come have nothing of the current part. -/
  behind : ∀ log ∈ logs, log.1 ∈ pending.map (·.1) → log.2.Sublist earlier
  inside : ∀ piece ∈ pending, piece.2.Sublist current

/-- Nothing is routed yet. -/
theorem routed_start : Routed owner [] [] [] [] where
  conserved := .nil
  owned _ member := absurd member List.not_mem_nil
  pendingOwned _ member := absurd member List.not_mem_nil
  distinct := List.nodup_nil
  inOrder _ member := absurd member List.not_mem_nil
  behind _ member := absurd member List.not_mem_nil
  inside _ member := absurd member List.not_mem_nil

namespace Routed

variable {earlier current part : List α} {pending pieces logs : List (κ × List α)} {key : κ}
  {old new : List α} {i : Nat}

/-- The next part of the stream is cut into pieces. -/
theorem next (routed : Routed owner earlier current [] logs)
    (divided : (contents pieces).Perm part)
    (owned : ∀ piece ∈ pieces, ∀ x ∈ piece.2, owner x piece.1)
    (distinct : (pieces.map (·.1)).Nodup) (inside : ∀ piece ∈ pieces, piece.2.Sublist part) :
    Routed owner (earlier ++ current) part pieces logs where
  conserved := by
    have before := routed.conserved
    rw [contents_nil, List.append_nil] at before
    exact before.append divided
  owned := routed.owned
  pendingOwned := owned
  distinct := distinct
  inOrder log member := (routed.inOrder log member).trans (List.sublist_append_left _ _)
  behind log member _ := routed.inOrder log member
  inside := inside

/-- A log that gets a piece has nothing of the current part before. -/
theorem sublist_append (routed : Routed owner earlier current ((key, new) :: pending) logs)
    (here : logs[i]? = some (key, old)) : (old ++ new).Sublist (earlier ++ current) := by
  have behind := routed.behind _ (List.mem_of_getElem? here) List.mem_cons_self
  have inside := routed.inside (key, new) List.mem_cons_self
  exact behind.append inside

/-- A piece is added to a log of its key. -/
theorem send (routed : Routed owner earlier current ((key, new) :: pending) logs)
    (here : logs[i]? = some (key, old)) :
    Routed owner earlier current pending
      (logs.modify i fun log => (log.1, log.2 ++ new)) := by
  have within := (List.getElem?_eq_some_iff.mp here).1
  obtain ⟨later, distinct⟩ := List.nodup_cons.mp routed.distinct
  -- Either a log was there before, or it is the one that got the piece.
  have cases {log : κ × List α}
      (member : log ∈ logs.modify i fun log => (log.1, log.2 ++ new)) :
      log ∈ logs ∨ log = (key, old ++ new) := by
    obtain ⟨j, inside⟩ := List.mem_iff_getElem?.mp member
    rw [List.getElem?_modify] at inside
    obtain ⟨before, there, rfl⟩ := Option.map_eq_some_iff.mp inside
    split
    · rename_i same
      subst same
      obtain rfl := Option.some.inj (here.symm.trans there)
      exact .inr rfl
    · exact .inl (List.mem_of_getElem? there)
  constructor
  · refine ((contents_modify within new).append_right _).trans ?_
    rw [List.append_assoc]
    exact routed.conserved
  · intro log member x inside
    rcases cases member with before | rfl
    · exact routed.owned log before x inside
    · rcases List.mem_append.mp inside with early | late
      · exact routed.owned _ (List.mem_of_getElem? here) x early
      · exact routed.pendingOwned (key, new) List.mem_cons_self x late
  · intro piece member
    exact routed.pendingOwned piece (List.mem_cons_of_mem _ member)
  · exact distinct
  · intro log member
    rcases cases member with before | rfl
    · exact routed.inOrder log before
    · exact routed.sublist_append here
  · intro log member waits
    rcases cases member with before | rfl
    · exact routed.behind log before (List.mem_cons_of_mem _ waits)
    · exact absurd waits later
  · intro piece member
    exact routed.inside piece (List.mem_cons_of_mem _ member)

/-- A piece starts a log. -/
theorem branch (routed : Routed owner earlier current ((key, new) :: pending) logs) :
    Routed owner earlier current pending (logs ++ [(key, new)]) := by
  obtain ⟨later, distinct⟩ := List.nodup_cons.mp routed.distinct
  constructor
  · rw [contents_append, contents_cons, contents_nil, List.append_nil, List.append_assoc]
    exact routed.conserved
  · intro log member
    rcases List.mem_append.mp member with before | last
    · exact routed.owned log before
    · obtain rfl := List.mem_singleton.mp last
      exact routed.pendingOwned _ List.mem_cons_self
  · intro piece member
    exact routed.pendingOwned piece (List.mem_cons_of_mem _ member)
  · exact distinct
  · intro log member
    rcases List.mem_append.mp member with before | last
    · exact routed.inOrder log before
    · obtain rfl := List.mem_singleton.mp last
      exact (routed.inside _ List.mem_cons_self).trans (List.sublist_append_right _ _)
  · intro log member waits
    rcases List.mem_append.mp member with before | last
    · exact routed.behind log before (List.mem_cons_of_mem _ waits)
    · obtain rfl := List.mem_singleton.mp last
      exact absurd waits later
  · intro piece member
    exact routed.inside piece (List.mem_cons_of_mem _ member)

/-- When no piece is left the logs have all of the stream. -/
theorem complete (routed : Routed owner earlier current [] logs) :
    (contents logs).Perm (earlier ++ current) := by
  have conserved := routed.conserved
  rwa [contents_nil, List.append_nil] at conserved

end Routed

end Routing

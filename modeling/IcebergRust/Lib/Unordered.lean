import Mathlib.Data.List.Nodup

/-!
# Streams merged in any order

Sources are opened one after the other, those that fail are skipped, and the streams of the others
make progress in any order.  `Run.items_of_source` says what of a complete run comes from one
source, whatever the order was.
-/

namespace Unordered

variable {K E α : Type} (start : E → Option (List α))

/-- What is left to open, what is left of the open streams, and everything that is yielded until
all of them have ended. -/
inductive Run : List (K × E) → List (K × List α) → List (K × α) → Prop
  | done {streams : List (K × List α)} (ended : ∀ stream ∈ streams, stream.2 = []) :
      Run [] streams []
  | opened {key : K} {source : E} {sources : List (K × E)} {streams : List (K × List α)}
      {stream : List α} {out : List (K × α)} (starts : start source = some stream)
      (next : Run sources ((key, stream) :: streams) out) : Run ((key, source) :: sources) streams out
  | skipped {key : K} {source : E} {sources : List (K × E)} {streams : List (K × List α)}
      {out : List (K × α)} (fails : start source = none) (next : Run sources streams out) :
      Run ((key, source) :: sources) streams out
  | yielded {key : K} {item : α} {rest : List α} {sources : List (K × E)}
      {before after : List (K × List α)} {out : List (K × α)}
      (next : Run sources (before ++ (key, rest) :: after) out) :
      Run sources (before ++ (key, item :: rest) :: after) ((key, item) :: out)

/-- What came from one source. -/
def items [DecidableEq K] (key : K) (out : List (K × α)) : List α :=
  out.filterMap fun item => if item.1 = key then some item.2 else none

variable {start} [DecidableEq K] {sources : List (K × E)} {streams : List (K × List α)}
  {out : List (K × α)}

/-- The keys of the sources and of the open streams. -/
def keys (sources : List (K × E)) (streams : List (K × List α)) : List K :=
  sources.map (·.1) ++ streams.map (·.1)

theorem Run.items_of_absent (run : Run start sources streams out) {key : K}
    (absent : key ∉ keys sources streams) : items key out = [] := by
  induction run with
  | done => rfl
  | opened starts next ih =>
    exact ih fun member => absent (List.perm_middle.mem_iff.mp member)
  | skipped fails next ih =>
    simp only [keys, List.map_cons, List.cons_append, List.mem_cons, not_or] at absent
    exact ih absent.2
  | @yielded own item rest sources before after out next ih =>
    have other : own ≠ key := by
      rintro rfl
      exact absent (by simp [keys])
    rw [items, List.filterMap_cons, if_neg other]
    exact ih (by simpa [keys] using absent)

/-- An open stream is yielded whole and in its order. -/
theorem Run.items_of_stream (run : Run start sources streams out)
    (distinct : (keys sources streams).Nodup) {key : K} {stream : List α}
    (member : (key, stream) ∈ streams) : items key out = stream := by
  induction run generalizing stream with
  | done ended => exact (ended _ member).symm
  | opened starts next ih =>
    exact ih (List.perm_middle.nodup_iff.mpr distinct) (List.mem_cons_of_mem _ member)
  | skipped fails next ih => exact ih (List.nodup_cons.mp distinct).2 member
  | @yielded own item rest sources before after out next ih =>
    have same : keys sources (before ++ (own, rest) :: after) =
        keys sources (before ++ (own, item :: rest) :: after) := by simp [keys]
    have distinct' : (keys sources (before ++ (own, rest) :: after)).Nodup := same ▸ distinct
    have here : (own, item :: rest) ∈ before ++ (own, item :: rest) :: after :=
      List.mem_append_right _ List.mem_cons_self
    rw [items, List.filterMap_cons]
    by_cases equal : own = key
    · subst equal
      have unique := (List.nodup_append.mp distinct).2.1
      obtain ⟨-, rfl⟩ := Prod.mk.inj (List.inj_on_of_nodup_map unique member here rfl)
      rw [if_pos rfl]
      exact congrArg (item :: ·) (ih distinct' (List.mem_append_right _ List.mem_cons_self))
    · rw [if_neg equal]
      refine ih distinct' ?_
      rcases List.mem_append.mp member with first | rest
      · exact List.mem_append_left _ first
      · rcases List.mem_cons.mp rest with here | last
        · exact absurd (Prod.mk.inj here).1.symm equal
        · exact List.mem_append_right _ (List.mem_cons_of_mem _ last)

/-- A source is yielded whole and in its order if it could be opened, and else not at all. -/
theorem Run.items_of_source (run : Run start sources streams out)
    (distinct : (keys sources streams).Nodup) {key : K} {source : E}
    (member : (key, source) ∈ sources) : items key out = (start source).getD [] := by
  induction run with
  | done => exact absurd member List.not_mem_nil
  | @opened own other sources streams stream out starts next ih =>
    have distinct' := List.perm_middle.nodup_iff.mpr distinct
    rcases List.mem_cons.mp member with here | later
    · obtain ⟨rfl, rfl⟩ := Prod.mk.inj here
      rw [starts]
      exact next.items_of_stream distinct' List.mem_cons_self
    · exact ih distinct' later
  | @skipped own other sources streams out fails next ih =>
    obtain ⟨apart, distinct'⟩ := List.nodup_cons.mp distinct
    rcases List.mem_cons.mp member with here | later
    · obtain ⟨rfl, rfl⟩ := Prod.mk.inj here
      rw [fails]
      exact next.items_of_absent apart
    · exact ih distinct' later
  | @yielded own item rest sources before after out next ih =>
    have same : keys sources (before ++ (own, rest) :: after) =
        keys sources (before ++ (own, item :: rest) :: after) := by simp [keys]
    have other : own ≠ key := by
      rintro rfl
      refine (List.nodup_append.mp distinct).2.2 own (List.mem_map_of_mem member) own ?_ rfl
      exact List.mem_map_of_mem (f := (·.1)) (List.mem_append_right before List.mem_cons_self)
    rw [items, List.filterMap_cons, if_neg other]
    exact ih (same ▸ distinct) member

end Unordered

import Mathlib.Data.List.Pairwise
import Mathlib.Data.List.Induction

/-!
# Interleaved calls

Any number of calls run against shared state in small atomic steps: between two steps of
one call any steps of others may come, and a call may stop for good after any step.

* `step` performs one event and `run` a list of events: every interleaving is one list.
* `Keeps` are the conditions on single steps under which an invariant of the shared state,
  one of each call and a relation between any two calls hold in every run (`holds_run`).
-/

namespace Interleaving

/-- How calls begin and proceed. `Q` are the requests, `E` what a step reads from outside. -/
structure System (S T Q E : Type) where
  /-- A request up to its first pause; no call is left if it has returned. -/
  begin : Q → S → S × Option T
  /-- The next atomic step of a call; no call is left if it has returned. -/
  advance : E → T → S → S × Option T

structure State (S T : Type) where
  shared : S
  calls : List T

/-- One step of some call, which is named by its place among those in flight. -/
inductive Event (Q E : Type) where
  | call (request : Q)
  | advance (place : Nat) (environment : E)
  | stop (place : Nat)

variable {S T Q E : Type} (system : System S T Q E)

/-- One event. -/
def step (state : State S T) : Event Q E → State S T
  | .call request =>
    let begun := system.begin request state.shared
    ⟨begun.1, state.calls ++ begun.2.toList⟩
  | .advance place environment =>
    match state.calls[place]? with
    | none => state
    | some call =>
      let advanced := system.advance environment call state.shared
      ⟨advanced.1,
        state.calls.take place ++ (advanced.2.toList ++ state.calls.drop (place + 1))⟩
  | .stop place => { state with calls := state.calls.eraseIdx place }

/-- A run. -/
def run (state : State S T) (events : List (Event Q E)) : State S T :=
  events.foldl (step system) state

theorem run_snoc (state : State S T) (events : List (Event Q E)) (event : Event Q E) :
    run system state (events ++ [event]) = step system (run system state events) event :=
  List.foldl_append

/-! ### Invariants -/

variable {system} {I : S → Prop} {J : S → T → Prop} {R : T → T → Prop}

variable (system I J R) in
/-- What single steps must keep: `I` of the shared state, `J` of each call, and `R` between any
two calls. A step is answerable for what it does to the other calls. -/
structure Keeps : Prop where
  symm : ∀ {one other}, R one other → R other one
  begin : ∀ request {shared}, I shared → I (system.begin request shared).1 ∧
    ∀ call ∈ (system.begin request shared).2, J (system.begin request shared).1 call
  beginOther : ∀ request {shared other}, I shared → J shared other →
    J (system.begin request shared).1 other ∧ ∀ call ∈ (system.begin request shared).2, R other call
  advance : ∀ environment {shared call}, I shared → J shared call →
    I (system.advance environment call shared).1 ∧
      ∀ next ∈ (system.advance environment call shared).2,
        J (system.advance environment call shared).1 next
  advanceOther : ∀ environment {shared call other}, I shared → J shared call → J shared other →
    R call other → J (system.advance environment call shared).1 other ∧
      ∀ next ∈ (system.advance environment call shared).2, R next other

/-- An invariant may rest on another one. -/
theorem Keeps.and {I' : S → Prop} {J' : S → T → Prop} (keeps : Keeps system I J R)
    (begin : ∀ request {shared}, I shared → I' shared → I' (system.begin request shared).1 ∧
      ∀ call ∈ (system.begin request shared).2, J' (system.begin request shared).1 call)
    (beginOther : ∀ request {shared other}, I shared → I' shared → J shared other →
      J' shared other → J' (system.begin request shared).1 other)
    (advance : ∀ environment {shared call}, I shared → I' shared → J shared call →
      J' shared call → I' (system.advance environment call shared).1 ∧
        ∀ next ∈ (system.advance environment call shared).2,
          J' (system.advance environment call shared).1 next)
    (advanceOther : ∀ environment {shared call other}, I shared → I' shared → J shared call →
      J' shared call → J shared other → J' shared other → R call other →
        J' (system.advance environment call shared).1 other) :
    Keeps system (fun shared => I shared ∧ I' shared)
      (fun shared call => J shared call ∧ J' shared call) R where
  symm := keeps.symm
  begin request {_} holds := by
    obtain ⟨shared, calls⟩ := keeps.begin request holds.1
    obtain ⟨shared', calls'⟩ := begin request holds.1 holds.2
    exact ⟨⟨shared, shared'⟩, fun call member => ⟨calls call member, calls' call member⟩⟩
  beginOther request {_ _} holds there := by
    obtain ⟨other, apart⟩ := keeps.beginOther request holds.1 there.1
    exact ⟨⟨other, beginOther request holds.1 holds.2 there.1 there.2⟩, apart⟩
  advance environment {_ _} holds here := by
    obtain ⟨shared, next⟩ := keeps.advance environment holds.1 here.1
    obtain ⟨shared', next'⟩ := advance environment holds.1 holds.2 here.1 here.2
    exact ⟨⟨shared, shared'⟩, fun call member => ⟨next call member, next' call member⟩⟩
  advanceOther environment {_ _ _} holds here there apart := by
    obtain ⟨other, next⟩ := keeps.advanceOther environment holds.1 here.1 there.1 apart
    exact ⟨⟨other, advanceOther environment holds.1 holds.2 here.1 here.2 there.1 there.2 apart⟩,
      next⟩

variable (I J R) in
/-- The invariant of a state. -/
structure Holds (state : State S T) : Prop where
  shared : I state.shared
  each : ∀ call ∈ state.calls, J state.shared call
  pairs : state.calls.Pairwise R

theorem Holds.step {state : State S T} (keeps : Keeps system I J R) (holds : Holds I J R state)
    (event : Event Q E) : Holds I J R (step system state event) := by
  obtain ⟨shared, each, pairs⟩ := holds
  cases event with
  | call request =>
    obtain ⟨here, begun⟩ := keeps.begin request shared
    refine ⟨here, fun call member => ?_, List.pairwise_append.mpr ⟨pairs, ?_, ?_⟩⟩
    · rcases List.mem_append.mp member with old | new
      · exact (keeps.beginOther request shared (each call old)).1
      · exact begun call (Option.mem_toList.mp new)
    · cases (system.begin request state.shared).2 <;> simp
    · intro old member call new
      exact (keeps.beginOther request shared (each old member)).2 call (Option.mem_toList.mp new)
  | advance place environment =>
    simp only [Interleaving.step]
    split
    · exact ⟨shared, each, pairs⟩
    · rename_i call found
      -- The calls before and after the one that proceeds.
      have split : state.calls = state.calls.take place ++ call :: state.calls.drop (place + 1) := by
        obtain ⟨below, rfl⟩ := List.getElem?_eq_some_iff.mp found
        rw [← List.drop_eq_getElem_cons below, List.take_append_drop]
      generalize state.calls.take place = before at split ⊢
      generalize state.calls.drop (place + 1) = after at split ⊢
      rw [split] at each pairs
      obtain ⟨first, rest, between⟩ := List.pairwise_append.mp pairs
      obtain ⟨own, last⟩ := List.pairwise_cons.mp rest
      have mine := each call (by simp)
      obtain ⟨here, advanced⟩ := keeps.advance environment shared mine
      have others : ∀ other, (other ∈ before ∨ other ∈ after) → J state.shared other ∧
          R call other := by
        rintro other (early | late)
        · exact ⟨each other (by simp [early]),
            keeps.symm (between other early call List.mem_cons_self)⟩
        · exact ⟨each other (by simp [late]), own other late⟩
      have kept := fun other member =>
        keeps.advanceOther environment shared mine (others other member).1
          (others other member).2
      refine ⟨here, fun other member => ?_, ?_⟩
      · simp only [List.mem_append] at member
        rcases member with early | new | late
        · exact (kept other (.inl early)).1
        · exact advanced other (Option.mem_toList.mp new)
        · exact (kept other (.inr late)).1
      · refine List.pairwise_append.mpr ⟨first, List.pairwise_append.mpr ⟨?_, last, ?_⟩, ?_⟩
        · cases (system.advance environment call state.shared).2 <;> simp
        · intro next new other late
          exact (kept other (.inr late)).2 next (Option.mem_toList.mp new)
        · intro other early next member
          rcases List.mem_append.mp member with new | late
          · exact keeps.symm ((kept other (.inl early)).2 next (Option.mem_toList.mp new))
          · exact between other early next (List.mem_cons_of_mem _ late)
  | stop place =>
    have fewer : (state.calls.eraseIdx place).Sublist state.calls := List.eraseIdx_sublist _ _
    exact ⟨shared, fun call member => each call (fewer.subset member), pairs.sublist fewer⟩

/-- An invariant single steps keep holds in every run. -/
theorem holds_run {state : State S T} (keeps : Keeps system I J R) (start : Holds I J R state)
    (events : List (Event Q E)) : Holds I J R (run system state events) := by
  induction events using List.reverseRecOn with
  | nil => exact start
  | append_singleton events event ih =>
    rw [run_snoc]
    exact ih.step keeps event

end Interleaving

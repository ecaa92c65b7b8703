import Mathlib.Data.Set.Function
import Mathlib.Logic.Function.Basic

/-!
# Names with an indirection

Values that are kept in slots, and names that refer to them: a name refers to the slot of the same
name, unless it was moved there from another one. Moving a name leaves its value in its slot.

`Tracks` says that the slots hold what the names are said to. It survives writing, moving and
forgetting names as long as no slot is touched that another name refers to.
-/

namespace Indirection

variable {κ V : Type}

/-- The slot a name refers to. -/
def slot (moved : κ → Option κ) (name : κ) : κ := (moved name).getD name

/-- A name is away if it refers to nothing, since another name refers to its slot. -/
def Away (moved : κ → Option κ) (name : κ) : Prop :=
  moved name = none ∧ ∃ other, moved other = some name

section Moving

variable [DecidableEq κ]

/-- A name is moved: the other name refers to its slot from now on. -/
def move (moved : κ → Option κ) (source destination : κ) : κ → Option κ :=
  Function.update (Function.update moved source none) destination (some (slot moved source))

def forget (moved : κ → Option κ) (name : κ) : κ → Option κ := Function.update moved name none

end Moving

/-- The slots hold what the names are said to, and nothing where no name refers to them. -/
structure Tracks (used : κ → Prop) (moved : κ → Option κ) (held : κ → Option V)
    (holds : κ → Option V → Prop) : Prop where
  closed : ∀ name other, moved name = some other → used name ∧ used other
  single : ∀ name other here, moved name = some here → moved other = some here → name = other
  shown : ∀ name, used name → ¬ Away moved name → holds (slot moved name) (held name)
  free : ∀ here, used here → (∀ name, used name → ¬ Away moved name → slot moved name ≠ here) →
    holds here none
  away : ∀ name, Away moved name → held name = none

variable {moved : κ → Option κ}

theorem slot_of_moved {name here : κ} (found : moved name = some here) :
    slot moved name = here := by
  rw [slot, found, Option.getD_some]

theorem slot_of_unmoved {name : κ} (found : moved name = none) : slot moved name = name := by
  rw [slot, found, Option.getD_none]

theorem not_away_of_moved {name here : κ} (found : moved name = some here) : ¬ Away moved name := by
  rintro ⟨missing, -⟩
  rw [missing] at found
  cases found

namespace Tracks

variable {used : κ → Prop} {moved : κ → Option κ} {held : κ → Option V}
  {holds holds' : κ → Option V → Prop}

theorem used_slot (tracks : Tracks used moved held holds) {name : κ} (here : used name) :
    used (slot moved name) := by
  cases found : moved name with
  | none => rwa [slot_of_unmoved found]
  | some other =>
    rw [slot_of_moved found]
    exact (tracks.closed _ _ found).2

/-- Two names that are not away refer to different slots. -/
theorem slot_inj (tracks : Tracks used moved held holds) {name other : κ}
    (one : ¬ Away moved name) (two : ¬ Away moved other)
    (same : slot moved name = slot moved other) : name = other := by
  cases first : moved name with
  | none =>
    cases second : moved other with
    | none => rwa [slot_of_unmoved first, slot_of_unmoved second] at same
    | some here =>
      rw [slot_of_unmoved first, slot_of_moved second] at same
      exact absurd ⟨first, other, same ▸ second⟩ one
  | some here =>
    rw [slot_of_moved first] at same
    cases second : moved other with
    | none =>
      rw [slot_of_unmoved second] at same
      exact absurd ⟨second, name, same ▸ first⟩ two
    | some there =>
      rw [slot_of_moved second] at same
      exact tracks.single name other here first (same ▸ second)

/-- The names stay as they are, and so do the slots. -/
theorem imp (tracks : Tracks used moved held holds)
    (kept : ∀ here, used here → ∀ value, holds here value → holds' here value) :
    Tracks used moved held holds' where
  closed := tracks.closed
  single := tracks.single
  shown name member visible :=
    kept _ (tracks.used_slot member) _ (tracks.shown name member visible)
  free here member unowned := kept here member _ (tracks.free here member unowned)
  away := tracks.away

/-- Some names are dropped together, with what is in their slots. -/
theorem clear (tracks : Tracks used moved held holds) (dropped : κ → Prop) [DecidablePred dropped]
    (empty : ∀ here, used here → holds here none → holds' here none)
    (cleared : ∀ name, used name → held name ≠ none → dropped name →
      holds' (slot moved name) none)
    (rest : ∀ name, used name → held name ≠ none → ¬ dropped name →
      holds (slot moved name) (held name) → holds' (slot moved name) (held name)) :
    Tracks used moved (fun name => if dropped name then none else held name) holds' where
  closed := tracks.closed
  single := tracks.single
  shown name member visible := by
    have before := tracks.shown name member visible
    cases found : held name with
    | none =>
      rw [found] at before
      rw [ite_self]
      exact empty _ (tracks.used_slot member) before
    | some value =>
      have present : held name ≠ none := by rw [found]; exact Option.some_ne_none value
      by_cases gone : dropped name
      · rw [if_pos gone]
        exact cleared name member present gone
      · rw [if_neg gone, ← found]
        exact rest name member present gone before
  free here member unowned := empty here member (tracks.free here member unowned)
  away name gone := by rw [tracks.away name gone, ite_self]
section Steps

variable [DecidableEq κ]

/-- A value is written under a name. -/
theorem write (tracks : Tracks used moved held holds) {name : κ} {value : V}
    (visible : ¬ Away moved name) (member : used name)
    (written : holds' (slot moved name) (some value))
    (rest : ∀ here, used here → here ≠ slot moved name → ∀ value, holds here value →
      holds' here value) :
    Tracks used moved (Function.update held name (some value)) holds' where
  closed := tracks.closed
  single := tracks.single
  shown other known there := by
    by_cases same : other = name
    · subst same
      rwa [Function.update_self]
    · rw [Function.update_of_ne same]
      refine rest _ (tracks.used_slot known) ?_ _ (tracks.shown other known there)
      exact fun slots => same (tracks.slot_inj there visible slots)
  free here known unowned := by
    have differs : here ≠ slot moved name := fun same => unowned name member visible same.symm
    exact rest here known differs _ (tracks.free here known unowned)
  away other gone := by
    have differs : other ≠ name := fun same => visible (same ▸ gone)
    rw [Function.update_of_ne differs]
    exact tracks.away other gone

/-- A name is dropped, with what is in its slot. -/
theorem drop (tracks : Tracks used moved held holds) {name : κ}
    (empty : ∀ here, used here → holds here none → holds' here none)
    (cleared : holds' (slot moved name) none)
    (rest : ∀ other, used other → other ≠ name → held other ≠ none →
      holds (slot moved other) (held other) → holds' (slot moved other) (held other)) :
    Tracks used (forget moved name) (Function.update held name none) holds' := by
  -- What a slot held that nobody refers to any longer.
  have forgotten : ∀ {other here}, forget moved name other = some here →
      other ≠ name ∧ moved other = some here := by
    intro other here found
    by_cases same : other = name
    · subst same
      rw [forget, Function.update_self] at found
      cases found
    · exact ⟨same, by rwa [forget, Function.update_of_ne same] at found⟩
  have unchanged : ∀ {other}, other ≠ name → forget moved name other = moved other :=
    fun differs => Function.update_of_ne differs _ _
  have held_slot : ∀ other, used other → other ≠ name → ¬ Away moved other →
      holds' (slot moved other) (held other) := by
    intro other member differs visible
    have before := tracks.shown other member visible
    cases found : held other with
    | none => exact empty _ (tracks.used_slot member) (found ▸ before)
    | some value =>
      rw [← found]
      exact rest other member differs (by rw [found]; exact Option.some_ne_none value) before
  -- A slot that only its own name may refer to.
  have own : ∀ here, used here → (∀ other, other ≠ name → moved other ≠ some here) →
      (moved here = none → here ≠ name → Away moved here) → holds' here none := by
    intro here member unmoved gone
    by_cases same : slot moved name = here
    · exact same ▸ cleared
    · apply empty here member
      apply tracks.free here member
      intro other known visible refers
      cases found : moved other with
      | none =>
        rw [slot_of_unmoved found] at refers
        subst refers
        by_cases there : other = name
        · exact same (there ▸ slot_of_unmoved found)
        · exact visible (gone found there)
      | some there =>
        rw [slot_of_moved found] at refers
        subst refers
        have here : other = name := by_contra fun differs => unmoved other differs found
        exact same (here ▸ slot_of_moved found)
  refine ⟨?_, ?_, ?_, ?_, ?_⟩
  · intro other here found
    exact tracks.closed _ _ (forgotten found).2
  · intro one two here first second
    exact tracks.single _ _ _ (forgotten first).2 (forgotten second).2
  · intro other member visible
    have unmoved : forget moved name other = none → ∀ one, one ≠ name → moved one ≠ some other := by
      intro missing one differs found
      exact visible ⟨missing, one, by rwa [unchanged differs]⟩
    by_cases same : other = name
    · subst same
      have missing : forget moved other other = none := Function.update_self _ _ _
      rw [Function.update_self, slot_of_unmoved missing]
      exact own other member (unmoved missing) fun _ differs => absurd rfl differs
    · rw [Function.update_of_ne same]
      have slots : slot (forget moved name) other = slot moved other := by
        rw [slot, slot, unchanged same]
      rw [slots]
      by_cases before : Away moved other
      · -- The forgotten name was the one that referred to the slot.
        obtain ⟨missing, one, found⟩ := before
        rw [tracks.away other ⟨missing, one, found⟩, slot_of_unmoved missing]
        have here : one = name :=
          by_contra fun differs => unmoved (by rwa [unchanged same]) one differs found
        exact slot_of_moved (here ▸ found) ▸ cleared
      · exact held_slot other member same before
  · intro here member unowned
    refine own here member ?_ ?_
    · intro other differs found
      have still : forget moved name other = some here := by rwa [unchanged differs]
      exact unowned other (tracks.closed _ _ found).1 (not_away_of_moved still) (slot_of_moved still)
    · intro missing differs
      have still : forget moved name here = none := by rwa [unchanged differs]
      by_contra visible
      refine unowned here member ?_ (slot_of_unmoved still)
      rintro ⟨-, one, found⟩
      exact visible ⟨missing, one, (forgotten found).2⟩
  · intro other gone
    by_cases same : other = name
    · rw [same, Function.update_self]
    · rw [Function.update_of_ne same]
      obtain ⟨missing, one, found⟩ := gone
      rw [unchanged same] at missing
      exact tracks.away other ⟨missing, one, (forgotten found).2⟩

/-- A name is moved to one under which nothing is held. -/
theorem moves (tracks : Tracks used moved held holds) {source destination : κ}
    (differs : source ≠ destination) (from_used : used source) (to_used : used destination)
    (visible : ¬ Away moved source) (vacant : held destination = none) :
    Tracks used (move moved source destination)
      (Function.update (Function.update held source none) destination (held source)) holds := by
  have at_destination : move moved source destination destination = some (slot moved source) :=
    Function.update_self _ _ _
  have at_source : move moved source destination source = none := by
    rw [move, Function.update_of_ne differs, Function.update_self]
  have elsewhere : ∀ {other}, other ≠ source → other ≠ destination →
      move moved source destination other = moved other := by
    intro other one two
    rw [move, Function.update_of_ne two, Function.update_of_ne one]
  have back : ∀ {other here}, move moved source destination other = some here →
      other = destination ∧ here = slot moved source ∨
        other ≠ source ∧ other ≠ destination ∧ moved other = some here := by
    intro other here found
    by_cases two : other = destination
    · subst two
      rw [at_destination] at found
      exact .inl ⟨rfl, (Option.some.inj found).symm⟩
    · by_cases one : other = source
      · subst one
        rw [at_source] at found
        cases found
      · exact .inr ⟨one, two, by rwa [elsewhere one two] at found⟩
  -- No other name referred to the slot.
  have only : ∀ other, other ≠ source → moved other ≠ some (slot moved source) := by
    intro other one found
    exact one (tracks.slot_inj (not_away_of_moved found) visible (slot_of_moved found))
  -- A slot that the names do not refer to after the move, or only its own name does.
  have own : ∀ here, used here → here ≠ slot moved source →
      (∀ other, other ≠ source → other ≠ destination → moved other ≠ some here) →
      (here ≠ source → here ≠ destination → moved here = none → Away moved here) →
      holds here none := by
    intro here member apart unmoved gone
    by_cases old : ∃ other, used other ∧ ¬ Away moved other ∧ slot moved other = here
    · obtain ⟨other, known, there, refers⟩ := old
      have one : other ≠ source := fun same => apart (same ▸ refers.symm)
      have two : other = destination := by
        by_contra two
        cases found : moved other with
        | none =>
          rw [slot_of_unmoved found] at refers
          subst refers
          exact there (gone one two found)
        | some slot =>
          rw [slot_of_moved found] at refers
          exact unmoved other one two (refers ▸ found)
      subst two
      have before := tracks.shown other known there
      rwa [vacant, refers] at before
    · apply tracks.free here member
      exact fun other known there refers => old ⟨other, known, there, refers⟩
  refine ⟨?_, ?_, ?_, ?_, ?_⟩
  · intro other here found
    rcases back found with ⟨rfl, rfl⟩ | ⟨-, -, found⟩
    · exact ⟨to_used, tracks.used_slot from_used⟩
    · exact tracks.closed _ _ found
  · intro one two here first second
    rcases back first with ⟨rfl, rfl⟩ | ⟨one_source, -, one_stays⟩
    · rcases back second with ⟨rfl, -⟩ | ⟨two_source, -, two_stays⟩
      · rfl
      · exact absurd two_stays (only _ two_source)
    · rcases back second with ⟨rfl, rfl⟩ | ⟨-, -, two_stays⟩
      · exact absurd one_stays (only _ one_source)
      · exact tracks.single _ _ _ one_stays two_stays
  · intro other member there
    by_cases two : other = destination
    · subst two
      rw [Function.update_self, slot_of_moved at_destination]
      exact tracks.shown source from_used visible
    · rw [Function.update_of_ne two]
      -- A name that is not away after the move, and has not been moved itself.
      have alone : move moved source destination other = none → other ≠ slot moved source ∧
          ∀ name, name ≠ source → name ≠ destination → moved name ≠ some other := by
        intro missing
        refine ⟨fun same => there ⟨missing, destination, same ▸ at_destination⟩, ?_⟩
        intro name one two found
        exact there ⟨missing, name, by rwa [elsewhere one two]⟩
      by_cases one : other = source
      · subst one
        obtain ⟨apart, unmoved⟩ := alone at_source
        rw [Function.update_self, slot_of_unmoved at_source]
        exact own other member apart unmoved fun differs => absurd rfl differs
      · rw [Function.update_of_ne one]
        have slots : slot (move moved source destination) other = slot moved other := by
          rw [slot, slot, elsewhere one two]
        rw [slots]
        by_cases before : Away moved other
        · have missing := before.1
          obtain ⟨apart, unmoved⟩ := alone (by rwa [elsewhere one two])
          rw [tracks.away other before, slot_of_unmoved missing]
          exact own other member apart unmoved fun _ _ _ => before
        · exact tracks.shown other member before
  · intro here member unowned
    have apart : here ≠ slot moved source := by
      rintro rfl
      exact unowned destination to_used (not_away_of_moved at_destination)
        (slot_of_moved at_destination)
    refine own here member apart ?_ ?_
    · intro other one two found
      have still : move moved source destination other = some here := by rwa [elsewhere one two]
      exact unowned other (tracks.closed _ _ found).1 (not_away_of_moved still) (slot_of_moved still)
    · intro one two missing
      have still : move moved source destination here = none := by rwa [elsewhere one two]
      by_contra there
      refine unowned here member ?_ (slot_of_unmoved still)
      rintro ⟨-, name, found⟩
      rcases back found with ⟨-, same⟩ | ⟨-, -, found⟩
      · exact apart same
      · exact there ⟨missing, name, found⟩
  · intro other gone
    obtain ⟨missing, name, found⟩ := gone
    have two : other ≠ destination := by
      rintro rfl
      rw [at_destination] at missing
      cases missing
    rw [Function.update_of_ne two]
    by_cases one : other = source
    · rw [one, Function.update_self]
    · rw [Function.update_of_ne one]
      rw [elsewhere one two] at missing
      apply tracks.away other
      rcases back found with ⟨-, same⟩ | ⟨-, -, found⟩
      · -- The source had been moved here itself.
        refine ⟨missing, source, ?_⟩
        cases there : moved source with
        | none => exact absurd (same.trans (slot_of_unmoved there)) one
        | some here => rw [same, slot_of_moved there]
      · exact ⟨missing, name, found⟩

end Steps

end Tracks

end Indirection

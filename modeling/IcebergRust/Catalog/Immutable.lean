import IcebergRust.Catalog.Sequences
import IcebergRust.Transaction.Origins

/-!
# Readers of earlier versions

A reader may hold the metadata of any version of a table while others commit.  In no run is a
version lost, or anything it consists of changed (`versions_immutable`).
-/

namespace IcebergRust

open Optimistic

variable {V : Type} {state : TableState V}

/-- All versions and all objects are still there. -/
structure Later (before after : TableState V) : Prop where
  versions : ∀ version ∈ before.versions, version ∈ after.versions
  objects : before.world.Extends after.world

variable [PartitionValue V]

/-- A step takes nothing away, and leaves the names of the steps after it fresh. -/
theorem step_later (keeps : Keeps state) {event : TableEvent V} {events : List (TableEvent V)}
    (names : FreshNames state.initial.location state.world (namesDrawn (event :: events))) :
    Later state (step (tableProtocol V) state event) ∧
      Keeps (step (tableProtocol V) state event) ∧
      FreshNames (step (tableProtocol V) state event).initial.location
        (step (tableProtocol V) state event).world (namesDrawn events) := by
  have versions : ∀ version ∈ state.versions,
      version ∈ (step (tableProtocol V) state event).versions := by
    have stepped : Stepped (tableProtocol V) state _ := step_stepped state event
    generalize step (tableProtocol V) state event = next at stepped
    cases stepped with
    | accepted place sent applied => exact fun version member => List.mem_cons_of_mem _ member
    | _ => exact fun _ member => member
  rw [step_initial]
  cases event with
  | prepare age request =>
    obtain ⟨changes, next⟩ := keeps.prepare age request names.left
    exact ⟨⟨versions, changes.extends names.left.unused_flatten⟩, next, names.after changes⟩
  | send place now =>
    obtain ⟨world, next⟩ := keeps.send place now
    exact ⟨⟨versions, by rw [world]; exact .refl _⟩, next, by rw [world]; exact names⟩

/-- What is there in the middle of a run is there at its end. -/
theorem run_later (keeps : Keeps state) {first rest : List (TableEvent V)}
    (names : FreshNames state.initial.location state.world (namesDrawn (first ++ rest))) :
    Keeps (run (tableProtocol V) state first) ∧
      Later (run (tableProtocol V) state first) (run (tableProtocol V) state (first ++ rest)) := by
  induction first generalizing state with
  | nil =>
    refine ⟨keeps, ?_⟩
    induction rest generalizing state with
    | nil => exact ⟨fun _ member => member, .refl _⟩
    | cons event rest ih =>
      obtain ⟨one, next, fresh⟩ := step_later keeps names
      have others := ih next fresh
      exact ⟨fun version member => others.versions version (one.versions version member),
        one.objects.trans others.objects⟩
  | cons event first ih =>
    obtain ⟨-, next, fresh⟩ := step_later keeps names
    exact ih next fresh

/-- Whatever clients prepare and send after some moment, with names that are drawn fresh: no version
of a table of version 2 or 3 and no object is lost or changed, and each snapshot has its list and
its manifests, and keeps its live files and their sequence numbers. -/
theorem versions_immutable {initial : TableMetadata} {store : Store V}
    {first rest : List (TableEvent V)} (versioned : initial.formatVersion ≠ .v1)
    (start : TableSequenced initial.formatVersion initial.snapshots initial.lastSequenceNumber
      store)
    (names : FreshNames initial.location store (namesDrawn (first ++ rest))) :
    Later (runTable initial store first) (runTable initial store (first ++ rest)) ∧
    ∀ version ∈ (runTable initial store first).versions,
      ∀ id snapshot, version.snapshots.lookup id = some snapshot →
        Readable (runTable initial store first).world snapshot ∧
        (runTable initial store (first ++ rest)).world.origins version.formatVersion snapshot =
          (runTable initial store first).world.origins version.formatVersion snapshot := by
  obtain ⟨keeps, later⟩ := run_later (keeps_start versioned start) names
  refine ⟨later, fun version member id snapshot found => ?_⟩
  have readable := keeps.readable version member id snapshot found
  exact ⟨readable, readable.origins later.objects _⟩

/-- Of two appends prepared from one version the second is rejected. -/
theorem versions_immutable_run :
    Later (runTable (longTable .v2) .empty [.prepare 0 (appendOne none 1 "a"), .send 0 1])
      (runTable (longTable .v2) .empty ([.prepare 0 (appendOne none 1 "a"), .send 0 1] ++
        [.prepare 1 (appendOne none 2 "b"), .send 0 2])) :=
  (versions_immutable (by decide) (tableSequenced_empty rfl _)
    ⟨by decide +kernel, fun _ _ _ _ => ⟨fun _ => rfl, fun _ => rfl⟩⟩).1

end IcebergRust

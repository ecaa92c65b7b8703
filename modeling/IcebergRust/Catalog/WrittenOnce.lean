import IcebergRust.Catalog.Tabular
import Mathlib.Logic.Function.Basic

/-!
# Files that are written once

Metadata files whose names carry a UUID that is drawn for them: what is stored stays as it is, and
what has not been written yet is not there.
-/

namespace IcebergRust

/-- Metadata files by location. -/
abbrev TabularFiles := String → Option TabularFile

namespace TabularFiles

variable (locate : TabularMetadata → Uuid → String)

/-- `put_metadata`. -/
def put (files : TabularFiles) (version : TabularVersion) : TabularFiles :=
  Function.update files version.location (some version.file)

/-- How the file of a version is named: that of a creation by `new_metadata_location`, that of an
update as the catalog does it. -/
def Named (version : TabularVersion) (transactionUuid : Uuid) : Prop :=
  version.location = version.metadata.newMetadataLocation transactionUuid ∨
    version.location = locate version.metadata transactionUuid

/-- The file of a version is there. -/
def Holds (files : TabularFiles) (version : TabularVersion) : Prop :=
  files version.location = some version.file

/-- No file carries the UUID yet. -/
def Unwritten (files : TabularFiles) (transactionUuid : Uuid) : Prop :=
  ∀ location, files location ≠ none → ¬ CarriesUuid location transactionUuid

/-- A version that is going to be written. -/
structure Pending (files : TabularFiles) (uuids : List Uuid) (version : TabularVersion)
    (transactionUuid : Uuid) : Prop where
  drawn : transactionUuid ∈ uuids
  named : Named locate version transactionUuid
  unwritten : Unwritten files transactionUuid

/-- A version that has been written. -/
structure Stored (files : TabularFiles) (version : TabularVersion) : Prop where
  holds : Holds files version
  named : ∃ transactionUuid, Named locate version transactionUuid

/-- The files carry UUIDs that have been drawn. -/
def Drawn (files : TabularFiles) (uuids : List Uuid) : Prop :=
  ∀ location, files location ≠ none →
    ∃ transactionUuid ∈ uuids, CarriesUuid location transactionUuid

/-- No file is overwritten or deleted. -/
def Kept (before after : TabularFiles) : Prop :=
  ∀ location, before location ≠ none → after location = before location

variable {locate} {files before after : TabularFiles} {uuids : List Uuid}
  {version : TabularVersion} {transactionUuid : Uuid}

theorem Kept.refl (files : TabularFiles) : Kept files files := fun _ _ => rfl

theorem Holds.kept (kept : Kept before after) (holds : Holds before version) :
    Holds after version :=
  (kept version.location (by rw [holds]; simp)).trans holds

theorem Stored.kept (kept : Kept before after) (stored : Stored locate before version) :
    Stored locate after version :=
  ⟨stored.holds.kept kept, stored.named⟩

/-- Two versions stored in one file have its metadata. -/
theorem Holds.metadata_eq {other : TabularVersion} (here : Holds files version)
    (there : Holds files other) (same : version.location = other.location) :
    version.metadata = other.metadata := by
  unfold Holds at here there
  rw [same, there] at here
  exact congrArg TabularFile.metadata (Option.some.inj here).symm

/-- No file carries a UUID that has not been drawn. -/
theorem Drawn.pending (drawn : Drawn files uuids) (fresh : transactionUuid ∉ uuids)
    (named : Named locate version transactionUuid) :
    Pending locate files (transactionUuid :: uuids) version transactionUuid := by
  refine ⟨List.mem_cons_self, named, fun location stored here => ?_⟩
  obtain ⟨other, known, there⟩ := drawn location stored
  rw [here.inj there] at fresh
  exact fresh known

theorem Drawn.mono {more : List Uuid} (drawn : Drawn files uuids) (sub : uuids ⊆ more) :
    Drawn files more := by
  intro location stored
  obtain ⟨uuid, known, carries⟩ := drawn location stored
  exact ⟨uuid, sub known, carries⟩

theorem Pending.stored (pending : Pending locate files uuids version transactionUuid) :
    Stored locate (files.put version) version :=
  ⟨by simp [Holds, put], transactionUuid, pending.named⟩

section Carries

variable (carries : ∀ metadata transactionUuid,
  CarriesUuid (locate metadata transactionUuid) transactionUuid)

include carries

theorem Named.carriesUuid (named : Named locate version transactionUuid) :
    CarriesUuid version.location transactionUuid := by
  rcases named with same | same
  · rw [same]
    exact version.metadata.carriesUuid _
  · rw [same]
    exact carries _ _

/-- A version goes to a name that is free. -/
theorem Pending.kept (pending : Pending locate files uuids version transactionUuid) :
    Kept files (files.put version) := by
  intro location stored
  refine Function.update_of_ne ?_ _ _
  rintro rfl
  exact pending.unwritten _ stored (pending.named.carriesUuid carries)

/-- Writing a version leaves the UUIDs of others unwritten. -/
theorem Pending.unwritten_put {own : Uuid}
    (pending : Pending locate files uuids version transactionUuid) (apart : own ≠ transactionUuid)
    (unwritten : Unwritten files own) : Unwritten (files.put version) own := by
  intro location stored here
  by_cases same : location = version.location
  · rw [same] at here
    exact apart (here.inj (pending.named.carriesUuid carries))
  · refine unwritten location ?_ here
    simpa [put, Function.update_of_ne same] using stored

theorem Pending.drawn_put (pending : Pending locate files uuids version transactionUuid)
    (drawn : Drawn files uuids) : Drawn (files.put version) uuids := by
  intro location stored
  by_cases same : location = version.location
  · rw [same]
    exact ⟨transactionUuid, pending.drawn, pending.named.carriesUuid carries⟩
  · refine drawn location ?_
    simpa [put, Function.update_of_ne same] using stored

end Carries

end TabularFiles

end IcebergRust

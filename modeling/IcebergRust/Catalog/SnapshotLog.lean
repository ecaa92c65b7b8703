import IcebergRust.Catalog.Integrity

/-!
# The current snapshot, the reference `main` and the snapshot log

Three records of one fact.  `SetSnapshotRef` on `main` writes two of them, `AddSnapshot`
the third on whatever branch it is for, and `RemoveSnapshotRef` only one.

* `lastLogged` is the entry the log ends up with: the last one whose snapshot every later
  removal has found stored.
* `agrees_iff` says exactly which lists of updates keep the records in agreement.
-/

namespace IcebergRust

open Fallible

/-- The records agree: the current snapshot is that of `main`, and the last one logged. -/
structure Agrees (metadata : TableMetadata) : Prop where
  main : metadata.currentSnapshotId = metadata.refTarget "main"
  logged : metadata.snapshotLog.getLast?.map (·.snapshotId) = metadata.currentSnapshotId

/-- Whether a snapshot is stored after updates, newest first. -/
def storedAfter (metadata : TableMetadata) (updates : List TableUpdate) (id : Int) : Bool :=
  (updates.findSome? (leftBy id)).getD (decide (id ∈ metadata.snapshots))

/-- The snapshot logged last by updates, newest first, among those that are `kept` and that every
later removal has found stored. -/
def lastLogged (metadata : TableMetadata) (kept : Int → Bool) : List TableUpdate → Option Int
  | [] => ((metadata.snapshotLog.map (·.snapshotId)).filter kept).getLast?
  | .addSnapshot snapshot :: earlier =>
    if kept snapshot.snapshotId then some snapshot.snapshotId
    else lastLogged metadata kept earlier
  | .removeSnapshots ids :: earlier =>
    lastLogged metadata
      (fun id => kept id && storedAfter metadata (.removeSnapshots ids :: earlier) id) earlier
  | _ :: earlier => lastLogged metadata kept earlier

/-- What updates must not do to the three records: leave `main` unset after it has been set, or the
log at another snapshot than the current one. -/
structure KeepsAgreement (metadata : TableMetadata) (updates : List TableUpdate) : Prop where
  main : updates.reverse.findSome? (TableUpdate.points (.ref "main")) = some none →
    metadata.currentSnapshotId = none ∧ ¬ Moves updates .current
  logged : lastLogged metadata (fun _ => true) updates.reverse =
    pointerAfter .current metadata.currentSnapshotId updates

/-! ### The reference -/

open TableUpdate

theorem pointerAfter_eq_findSome (pointer : Pointer) (target : Option Int)
    (updates : List TableUpdate) : pointerAfter pointer target updates =
      (updates.reverse.findSome? (points pointer)).getD target := by
  induction updates generalizing target with
  | nil => rfl
  | cons update updates ih =>
    rw [List.reverse_cons, List.findSome?_append]
    show pointerAfter pointer ((update.points pointer).getD target) updates = _
    rw [ih]
    cases updates.reverse.findSome? (points pointer) <;>
      cases found : update.points pointer <;> simp [found]

/-- What sets `main` sets the current snapshot. -/
theorem points_current (update : TableUpdate) :
    update.points .current = match update.points (.ref "main") with
      | some (some id) => some (some id)
      | _ => none := by
  cases update with
  | setSnapshotRef name reference =>
    by_cases same : name = "main" <;> simp [points, same, eq_comm]
  | removeSnapshotRef name =>
    by_cases same : name = "main" <;> simp [points, same, eq_comm]
  | _ => rfl

theorem agree_iff_findSome (current : Option Int) (updates : List TableUpdate) :
    (updates.findSome? (points .current)).getD current =
        (updates.findSome? (points (.ref "main"))).getD current ↔
      (updates.findSome? (points (.ref "main")) = some none →
        current = none ∧ updates.findSome? (points .current) = none) := by
  induction updates with
  | nil => simp
  | cons update updates ih =>
    rw [List.findSome?_cons, List.findSome?_cons, points_current]
    cases moved : update.points (.ref "main") with
    | none => exact ih
    | some target =>
      cases target with
      | some id => simp
      | none =>
        have set : ∀ target, updates.findSome? (points .current) = some target →
            target ≠ none := by
          intro target found
          obtain ⟨update, -, points⟩ := List.exists_of_findSome?_eq_some found
          rw [points_current] at points
          split at points
          · cases points
            exact Option.some_ne_none _
          · cases points
        cases found : updates.findSome? (points .current) with
        | none => simp
        | some target => simpa using set target found

/-! ### The log -/

theorem lastLogged_cons (metadata : TableMetadata) {done : List TableUpdate} {update : TableUpdate}
    {state next : ApplyState} (here : After metadata done state)
    (logged : ∀ kept, ((state.metadata.snapshotLog.map (·.snapshotId)).filter kept).getLast? =
      lastLogged metadata kept done.reverse)
    (applied : Applied state update next) (kept : Int → Bool) :
    ((next.metadata.snapshotLog.map (·.snapshotId)).filter kept).getLast? =
      lastLogged metadata kept (update :: done.reverse) := by
  have stored := (here.step applied).snapshots
  cases applied with
  | snapshot snapshot nextRowId advances lineage =>
    rw [lastLogged, ← logged]
    by_cases keep : kept snapshot.snapshotId = true
    · simp [keep]
    · simp [keep]
  | removed ids =>
    rw [lastLogged, ← logged]
    congr 1
    rw [removeSnapshots, List.filter_map, List.filter_map, List.filter_filter]
    congr 1
    refine List.filter_congr fun entry _ => ?_
    have same := stored entry.snapshotId
    rw [List.reverse_append] at same
    exact congrArg (kept entry.snapshotId && ·) same
  | _ => exact logged kept

theorem applyTableUpdates_logged {metadata after : TableMetadata} {updates : List TableUpdate}
    {now : Int} (run : applyTableUpdates metadata updates now = .ok after) :
    after.snapshotLog.getLast?.map (·.snapshotId) =
      lastLogged metadata (fun _ => true) updates.reverse := by
  obtain ⟨state, ⟨here, logged⟩, rfl⟩ := applyTableUpdates_prefix
    (fun done state => After metadata done state ∧
      ∀ kept, ((state.metadata.snapshotLog.map (·.snapshotId)).filter kept).getLast? =
        lastLogged metadata kept done.reverse)
    (fun done update state next here applied => ⟨here.1.step applied, fun kept => by
      rw [List.reverse_append]
      exact lastLogged_cons metadata here.1 here.2 applied kept⟩)
    run ⟨.start metadata, fun kept => rfl⟩
  rw [← logged]
  simp [List.getLast?_map]

/-- Updates that are applied to metadata whose records agree keep the agreement exactly if they
leave `main` set and the log at the current snapshot. -/
theorem agrees_iff (metadata after : TableMetadata) (updates : List TableUpdate) (now : Int)
    (agrees : Agrees metadata) (run : applyTableUpdates metadata updates now = .ok after) :
    Agrees after ↔ KeepsAgreement metadata updates := by
  have pointers := (applyTableUpdates_effect run).pointer
  have logged := applyTableUpdates_logged run
  have current : after.currentSnapshotId =
      pointerAfter .current metadata.currentSnapshotId updates := pointers .current
  have main : after.refTarget "main" =
      pointerAfter (.ref "main") metadata.currentSnapshotId updates := by
    rw [agrees.main]
    exact pointers (.ref "main")
  have moves : ¬ Moves updates .current ↔
      updates.reverse.findSome? (TableUpdate.points .current) = none := by
    simp [Moves, List.findSome?_eq_none_iff]
  have records : after.currentSnapshotId = after.refTarget "main" ↔
      (updates.reverse.findSome? (TableUpdate.points (.ref "main")) = some none →
        metadata.currentSnapshotId = none ∧ ¬ Moves updates .current) := by
    rw [current, main, pointerAfter_eq_findSome, pointerAfter_eq_findSome, moves]
    exact agree_iff_findSome _ _
  constructor
  · rintro ⟨main, last⟩
    exact ⟨records.mp main, by rw [← logged, last, current]⟩
  · rintro ⟨main, last⟩
    exact ⟨records.mpr main, by rw [logged, last, current]⟩

/-! ### A snapshot on a branch -/

/-- A table whose main branch has one snapshot. -/
def oneSnapshot : TableMetadata :=
  { longTable .v2 with
    lastSequenceNumber := 1
    currentSnapshotId := some 1
    snapshots := AList.singleton 1 (bareSnapshot 1 none)
    snapshotLog := [⟨1, 1⟩]
    refs := AList.singleton "main" ⟨1, default⟩ }

/-- The updates of a data operation that commits a snapshot to a branch. -/
def commitTo (name : String) : List TableUpdate :=
  [.addSnapshot (bareSnapshot 2 (some 1)), .setSnapshotRef name ⟨2, default⟩]

theorem oneSnapshot_agrees : Agrees oneSnapshot := ⟨by decide, by decide⟩

theorem agrees_iff_commitTo_main : ∃ after,
    applyTableUpdates oneSnapshot (commitTo "main") 2 = .ok after ∧
      (Agrees after ↔ KeepsAgreement oneSnapshot (commitTo "main")) :=
  ⟨_, rfl, agrees_iff oneSnapshot _ (commitTo "main") 2 oneSnapshot_agrees rfl⟩

/-- A commit to another branch leaves the log at a snapshot that has never been current. -/
theorem branch_snapshot_logged : ∃ after, Agrees oneSnapshot ∧
    applyTableUpdates oneSnapshot (commitTo "dev") 2 = .ok after ∧ ¬ Agrees after := by
  refine ⟨_, oneSnapshot_agrees, rfl, fun agrees => ?_⟩
  exact absurd agrees.logged (by decide)

end IcebergRust

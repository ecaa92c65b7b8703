import IcebergRust.Catalog.History
import IcebergRust.Spec.LongValue

/-!
# References under concurrent commits

Whether every reference, and the current snapshot, points at a snapshot the metadata still
has.

* A `Pointer` is a reference or the current snapshot; `TableUpdate.points` says which
  pointers an update moves, and where to.
* `ExpireSnapshots` computes what it removes on the metadata it has read and requires
  nothing.  All pointers stay intact in runs where no accepted commit removes what a
  pointer it does not move has come to point at, nor sets a reference to what has been
  removed meanwhile (`pointersIntact_of_keepsPointers`).
* `expired_under_new_reference` is a run where the references of one client lose their
  snapshot to another.
-/

namespace IcebergRust

open TableTransaction Optimistic

/-! ### Pointers -/

/-- A named reference, or the current snapshot. -/
inductive Pointer where
  | ref (name : String)
  | current
deriving DecidableEq, Repr

/-- Where a pointer points. -/
def TableMetadata.pointer (metadata : TableMetadata) : Pointer → Option Int
  | .ref name => metadata.refTarget name
  | .current => metadata.currentSnapshotId

/-- Every pointer points at a snapshot the metadata has. -/
def PointersIntact (metadata : TableMetadata) : Prop :=
  ∀ pointer id, metadata.pointer pointer = some id → id ∈ metadata.snapshots

/-- What an update sets a pointer to; `none` where it leaves it. -/
def TableUpdate.points (pointer : Pointer) : TableUpdate → Option (Option Int)
  | .setSnapshotRef name reference =>
    if pointer = .ref name ∨ (pointer = .current ∧ name = "main") then
      some (some reference.snapshotId)
    else none
  | .removeSnapshotRef name => if pointer = .ref name then some none else none
  | _ => none

/-- Where a pointer points after updates. -/
def pointerAfter (pointer : Pointer) (target : Option Int) (updates : List TableUpdate) :
    Option Int :=
  updates.foldl (fun target update => (update.points pointer).getD target) target

/-- Some of the updates moves the pointer. -/
def Moves (updates : List TableUpdate) (pointer : Pointer) : Prop :=
  ∃ update ∈ updates, (update.points pointer).isSome

instance (updates : List TableUpdate) (pointer : Pointer) : Decidable (Moves updates pointer) :=
  inferInstanceAs (Decidable (∃ update ∈ updates, (update.points pointer).isSome))

theorem pointerAfter_snoc (pointer : Pointer) (target : Option Int) (first last : List TableUpdate) :
    pointerAfter pointer target (first ++ last) =
      pointerAfter pointer (pointerAfter pointer target first) last :=
  List.foldl_append

variable {updates whole done : List TableUpdate} {metadata current : TableMetadata}

/-- Where a moved pointer points does not depend on where it has pointed before. -/
theorem pointerAfter_of_moves {pointer : Pointer} (moves : Moves updates pointer) (a b : Option Int) :
    pointerAfter pointer a updates = pointerAfter pointer b updates := by
  induction updates generalizing a b with
  | nil => simp [Moves] at moves
  | cons update updates ih =>
    show pointerAfter pointer _ updates = pointerAfter pointer _ updates
    cases found : update.points pointer with
    | some target => simp only [found, Option.getD_some]
    | none =>
      refine ih ?_ _ _
      obtain ⟨other, member, moved⟩ := moves
      rcases List.mem_cons.mp member with rfl | later
      · simp [found] at moved
      · exact ⟨other, later, moved⟩

theorem pointerAfter_of_not_moves {pointer : Pointer} (still : ¬ Moves updates pointer)
    (target : Option Int) : pointerAfter pointer target updates = target := by
  induction updates with
  | nil => rfl
  | cons update updates ih =>
    have here : update.points pointer = none := by
      by_contra moved
      exact still ⟨update, List.mem_cons_self, Option.isSome_iff_ne_none.mpr moved⟩
    show pointerAfter pointer ((update.points pointer).getD target) updates = target
    rw [here]
    exact ih fun ⟨other, member, moved⟩ => still ⟨other, List.mem_cons_of_mem _ member, moved⟩

theorem refs_foldl_lookup (updates : List TableUpdate) (refs : HashMap String SnapshotReference)
    (name : String) :
    ((updates.foldl TableUpdate.refs refs).lookup name).map (·.snapshotId) =
      pointerAfter (.ref name) ((refs.lookup name).map (·.snapshotId)) updates := by
  induction updates generalizing refs with
  | nil => rfl
  | cons update updates ih =>
    rw [List.foldl_cons, ih]
    show pointerAfter _ _ updates = pointerAfter _ _ updates
    congr 1
    cases update with
    | setSnapshotRef other reference =>
      by_cases same : name = other
      · subst same
        simp [TableUpdate.refs, TableUpdate.points]
      · simp [TableUpdate.refs, TableUpdate.points, same]
    | removeSnapshotRef other =>
      by_cases same : name = other
      · subst same
        simp [TableUpdate.refs, TableUpdate.points]
      · simp [TableUpdate.refs, TableUpdate.points, same]
    | _ => rfl

theorem currentSnapshotId_foldl (updates : List TableUpdate) (current : Option Int) :
    updates.foldl TableUpdate.currentSnapshotId current = pointerAfter .current current updates := by
  induction updates generalizing current with
  | nil => rfl
  | cons update updates ih =>
    rw [List.foldl_cons, ih]
    show pointerAfter _ _ updates = pointerAfter _ _ updates
    congr 1
    cases update with
    | setSnapshotRef other reference =>
      by_cases same : other = "main" <;>
        simp [TableUpdate.currentSnapshotId, TableUpdate.points, same]
    | removeSnapshotRef other => simp [TableUpdate.currentSnapshotId, TableUpdate.points]
    | _ => rfl

/-- The pointers after updates. -/
theorem Effect.pointer {before after : TableMetadata} (effect : Effect before after updates)
    (pointer : Pointer) :
    after.pointer pointer = pointerAfter pointer (before.pointer pointer) updates := by
  cases pointer with
  | ref name =>
    simp only [TableMetadata.pointer, TableMetadata.refTarget]
    rw [effect.refs, refs_foldl_lookup]
  | current =>
    simp only [TableMetadata.pointer]
    rw [effect.currentSnapshotId, currentSnapshotId_foldl]

/-! ### Expiration -/

theorem mem_foldl_erase {ids : List Int} {snapshots : HashMap Int Snapshot} {id : Int} :
    id ∈ ids.foldl (fun left removed => left.erase removed) snapshots ↔
      id ∈ snapshots ∧ id ∉ ids := by
  induction ids generalizing snapshots with
  | nil => simp
  | cons removed ids ih =>
    rw [List.foldl_cons, ih, AList.mem_erase, List.mem_cons, not_or]
    tauto

/-- What expiration with retained references removes is not pointed at. -/
theorem pointer_not_expired {olderThan : Option Int} {retainLast : Option Nat} {pointer : Pointer}
    {id : Int} (points : metadata.pointer pointer = some id) :
    id ∉ snapshotsToExpire metadata olderThan retainLast true := by
  intro expired
  simp only [snapshotsToExpire, List.mem_map, List.mem_filter] at expired
  obtain ⟨⟨snapshot, index⟩, ⟨-, removed⟩, rfl⟩ := expired
  simp only [retains, Bool.true_and, Bool.not_eq_true', Bool.or_eq_false_iff,
    decide_eq_false_iff_not] at removed
  cases pointer with
  | current => exact removed.1.1.1 points
  | ref name =>
    obtain ⟨reference, found, same⟩ := Option.map_eq_some_iff.mp points
    have listed : snapshot.snapshotId ∈ metadata.refs.values.map (·.snapshotId) := by
      rw [← same]
      exact List.mem_map_of_mem (HashMap.mem_values_iff.mpr ⟨name, found⟩)
    rw [List.contains_iff_mem.mpr listed] at removed
    exact absurd removed.1.1.2 (by simp)

/-! ### One commit -/

variable {V : Type} {performed : List (Performed V)}

/-- An expiration of the transaction retains the snapshots references point at. -/
def retainsRefs (transaction : TableTransaction V) : Bool :=
  match transaction.operations 8 with
  | some (.expireSnapshots _ _ _ retainRefSnapshots _) => retainRefSnapshots
  | _ => true

/-- The snapshots a commit removes. -/
def removedBy (updates : List TableUpdate) : List Int :=
  updates.flatMap fun
    | .removeSnapshots ids => ids
    | _ => []

/-- The reference a transaction sets. -/
def refSet (transaction : TableTransaction V) : Option (String × SnapshotReference) :=
  match transaction.operations 7 with
  | some (.setSnapshotRef entry) => some entry
  | _ => none

/-- What the commit removes is, in the metadata it is applied to, not pointed at by a pointer the
commit does not move, and a reference it sets is to a snapshot that metadata still has. -/
structure KeepsPointers (current : TableMetadata) (transaction : TableTransaction V)
    (updates : List TableUpdate) : Prop where
  refs : ∀ entry ∈ current.refs.iter, entry.2.snapshotId ∈ removedBy updates →
    Moves updates (.ref entry.1)
  head : ∀ id ∈ current.currentSnapshotId, id ∈ removedBy updates → Moves updates .current
  target : ∀ entry ∈ refSet transaction, entry.2.snapshotId ∈ current.snapshots

instance (current : TableMetadata) (transaction : TableTransaction V)
    (updates : List TableUpdate) : Decidable (KeepsPointers current transaction updates) :=
  decidable_of_iff
    ((∀ entry ∈ current.refs.iter, entry.2.snapshotId ∈ removedBy updates →
        Moves updates (.ref entry.1)) ∧
      (∀ id ∈ current.currentSnapshotId, id ∈ removedBy updates → Moves updates .current) ∧
      ∀ entry ∈ refSet transaction, entry.2.snapshotId ∈ current.snapshots)
    ⟨fun ⟨refs, head, target⟩ => ⟨refs, head, target⟩,
      fun ⟨refs, head, target⟩ => ⟨refs, head, target⟩⟩

theorem KeepsPointers.removed {transaction : TableTransaction V}
    (keeps : KeepsPointers current transaction updates) (pointer : Pointer) (id : Int)
    (points : current.pointer pointer = some id) (removed : id ∈ removedBy updates) :
    Moves updates pointer := by
  cases pointer with
  | current => exact keeps.head id points removed
  | ref name =>
    obtain ⟨reference, found, rfl⟩ := Option.map_eq_some_iff.mp points
    exact keeps.refs (name, reference) (HashMap.mem_iter_iff.mpr found) removed

/-- The snapshots after updates. -/
def snapshotsAfter (current : TableMetadata) (updates : List TableUpdate) : HashMap Int Snapshot :=
  updates.foldl TableUpdate.snapshots current.snapshots

theorem snapshotsAfter_snoc (current : TableMetadata) (first last : List TableUpdate) :
    snapshotsAfter current (first ++ last) =
      last.foldl TableUpdate.snapshots (snapshotsAfter current first) :=
  List.foldl_append

theorem mem_snapshotsAfter {id : Int} (here : id ∈ current.snapshots)
    (kept : id ∉ removedBy updates) : id ∈ snapshotsAfter current updates := by
  simp only [snapshotsAfter]
  generalize current.snapshots = snapshots at here
  induction updates generalizing snapshots with
  | nil => exact here
  | cons update updates ih =>
    rw [removedBy, List.flatMap_cons, List.mem_append, not_or] at kept
    refine ih kept.2 _ ?_
    cases update with
    | addSnapshot snapshot => exact (AList.mem_insert _).mpr (.inr here)
    | removeSnapshots ids => exact mem_foldl_erase.mpr ⟨here, kept.1⟩
    | _ => exact here

/-- The operations before an expiration remove nothing. -/
theorem Outcome.removedBy {entropy : Entropy} {operation : Operation V}
    {requirement : Option TableRequirement}
    (outcome : Outcome metadata entropy operation requirement updates) (early : operation.index < 8) :
    removedBy updates = [] := by
  cases outcome with
  | expired => exact absurd early (by simp [Operation.index])
  | _ => rfl

theorem removedBy_updatesOf {base : TableMetadata} {entropy : Nat → Entropy}
    (performs : Performs base entropy performed)
    (early : ∀ one ∈ performed, one.operation.index < 8) :
    removedBy (updatesOf performed) = [] := by
  induction performs with
  | nil => rfl
  | snoc before staged outcome ih =>
    rw [updatesOf_snoc, IcebergRust.removedBy, List.flatMap_append]
    have first := ih fun one member => early one (List.mem_append_left _ member)
    have last := outcome.removedBy (early _ (by simp))
    rw [IcebergRust.removedBy] at first last
    rw [first, last, List.append_nil]

/-- Part of a commit has been applied: the pointers that part moves, and those the whole commit
leaves alone, are intact. -/
def Settled (current : TableMetadata) (whole done : List TableUpdate) : Prop :=
  ∀ pointer, (Moves done pointer ∨ ¬ Moves whole pointer) → ∀ id,
    pointerAfter pointer (current.pointer pointer) done = some id → id ∈ snapshotsAfter current done

theorem Moves.of_append {first last : List TableUpdate} {pointer : Pointer}
    (moves : Moves (first ++ last) pointer) : Moves first pointer ∨ Moves last pointer := by
  obtain ⟨update, member, moved⟩ := moves
  rcases List.mem_append.mp member with left | right
  · exact .inl ⟨update, left, moved⟩
  · exact .inr ⟨update, right, moved⟩

/-- Updates that move no pointer and remove nothing keep what is settled. -/
theorem Settled.idle (settled : Settled current whole done)
    (still : ∀ pointer, ¬ Moves updates pointer) (kept : ∀ snapshots : HashMap Int Snapshot,
      updates.foldl TableUpdate.snapshots snapshots = snapshots) :
    Settled current whole (done ++ updates) := by
  intro pointer which id points
  rw [pointerAfter_snoc, pointerAfter_of_not_moves (still pointer)] at points
  rw [snapshotsAfter_snoc, kept]
  refine settled pointer ?_ id points
  exact which.imp (fun moves => moves.of_append.resolve_right (still pointer)) fun w => w

/-- A pointer set to a snapshot that is there is intact, and the others stay so. -/
theorem Settled.set (settled : Settled current whole done) {name : String}
    {reference : SnapshotReference} (here : reference.snapshotId ∈ snapshotsAfter current done) :
    Settled current whole (done ++ [.setSnapshotRef name reference]) := by
  intro pointer which id points
  rw [pointerAfter_snoc] at points
  rw [snapshotsAfter_snoc]
  show id ∈ snapshotsAfter current done
  by_cases moved : Moves [.setSnapshotRef name reference] pointer
  · obtain ⟨update, member, moved⟩ := moved
    obtain rfl := List.mem_singleton.mp member
    simp only [pointerAfter, List.foldl_cons, List.foldl_nil] at points
    simp only [TableUpdate.points] at points moved
    split at moved
    · rename_i hit
      rw [if_pos hit] at points
      obtain rfl : reference.snapshotId = id := by simpa using points
      exact here
    · simp at moved
  · rw [pointerAfter_of_not_moves moved] at points
    exact settled pointer (which.imp (fun moves => moves.of_append.resolve_right moved) fun w => w)
      id points

theorem Settled.addSnapshot (settled : Settled current whole done) (snapshot : Snapshot) :
    Settled current whole (done ++ [.addSnapshot snapshot]) := by
  have still : ∀ pointer, ¬ Moves [.addSnapshot snapshot] pointer := by
    simp [Moves, TableUpdate.points]
  intro pointer which id points
  rw [pointerAfter_snoc, pointerAfter_of_not_moves (still pointer)] at points
  rw [snapshotsAfter_snoc]
  refine (AList.mem_insert _).mpr (.inr (settled pointer ?_ id points))
  exact which.imp (fun moves => moves.of_append.resolve_right (still pointer)) fun w => w

/-- Removing snapshots no settled pointer points at. -/
theorem Settled.remove {ids : List Int} (settled : Settled current whole done)
    (free : ∀ pointer, (Moves done pointer ∨ ¬ Moves whole pointer) → ∀ id,
      pointerAfter pointer (current.pointer pointer) done = some id → id ∉ ids) :
    Settled current whole (done ++ [.removeSnapshots ids]) := by
  have still : ∀ pointer, ¬ Moves [.removeSnapshots ids] pointer := by
    simp [Moves, TableUpdate.points]
  intro pointer which id points
  rw [pointerAfter_snoc, pointerAfter_of_not_moves (still pointer)] at points
  rw [snapshotsAfter_snoc]
  have before := which.imp (fun moves => moves.of_append.resolve_right (still pointer)) fun w => w
  exact mem_foldl_erase.mpr ⟨settled pointer before id points, free pointer before id points⟩

/-- What the operations performed so far have to satisfy, besides their outcomes. -/
structure Admitted (current : TableMetadata) (whole : List TableUpdate)
    (performed : List (Performed V)) : Prop where
  within : ∀ update ∈ updatesOf performed, update ∈ whole
  sorted : (performed.map (·.operation.index)).Pairwise (· < ·)
  retain : ∀ one ∈ performed, ∀ olderThan retainLast clean retainRefSnapshots dryRun,
    one.operation = .expireSnapshots olderThan retainLast clean retainRefSnapshots dryRun →
      retainRefSnapshots = true
  target : ∀ one ∈ performed, ∀ name reference,
    one.operation = .setSnapshotRef (name, reference) → reference.snapshotId ∈ current.snapshots

theorem Admitted.init {last : Performed V} (admitted : Admitted current whole (performed ++ [last])) :
    Admitted current whole performed := by
  refine ⟨?_, ?_, ?_, ?_⟩
  · intro update member
    exact admitted.within update (by rw [updatesOf_snoc]; exact List.mem_append_left _ member)
  · have sorted := admitted.sorted
    rw [List.map_append, List.pairwise_append] at sorted
    exact sorted.1
  · exact fun one member => admitted.retain one (List.mem_append_left _ member)
  · exact fun one member => admitted.target one (List.mem_append_left _ member)

theorem Admitted.early {last one : Performed V}
    (admitted : Admitted current whole (performed ++ [last])) (member : one ∈ performed) :
    one.operation.index < last.operation.index := by
  have sorted := admitted.sorted
  rw [List.map_append, List.pairwise_append] at sorted
  exact sorted.2.2 _ (List.mem_map_of_mem member) _ (by simp)

/-- Every operation keeps what is settled. -/
theorem Performs.settled {base : TableMetadata} {entropy : Nat → Entropy}
    (performs : Performs base entropy performed) (admitted : Admitted current whole performed)
    (intact : PointersIntact current)
    (removed : ∀ pointer id, current.pointer pointer = some id → id ∈ removedBy whole →
      Moves whole pointer) : Settled current whole (updatesOf performed) := by
  induction performs with
  | nil => exact fun pointer _ id points => intact pointer id points
  | @snoc performed last before staged outcome ih =>
    have settled := ih admitted.init
    rw [updatesOf_snoc]
    obtain ⟨operation, read, requirement, updates⟩ := last
    dsimp only at staged outcome ⊢
    have member : (⟨operation, read, requirement, updates⟩ : Performed V) ∈
        performed ++ [⟨operation, read, requirement, updates⟩] := by simp
    cases outcome with
    | nothing => simpa using settled
    | retained => simpa using settled
    | @snapshot _ branch writes old snapshot =>
      have added := settled.addSnapshot snapshot
      have here : snapshot.snapshotId ∈
          snapshotsAfter current (updatesOf performed ++ [.addSnapshot snapshot]) := by
        rw [snapshotsAfter_snoc]
        exact (AList.mem_insert _).mpr (.inl rfl)
      have moved : Settled current whole (updatesOf performed ++ [.addSnapshot snapshot] ++
          [.setSnapshotRef (branchName branch) ⟨snapshot.snapshotId, default⟩]) := added.set here
      simpa [snapshotCommit] using moved
    | properties => exact settled.idle (by simp [Moves, TableUpdate.points]) fun _ => rfl
    | schema => exact settled.idle (by simp [Moves, TableUpdate.points]) fun _ => rfl
    | spec => exact settled.idle (by simp [Moves, TableUpdate.points]) fun _ => rfl
    | sortOrder => exact settled.idle (by simp [Moves, TableUpdate.points]) fun _ => rfl
    | ref name reference =>
      have early : ∀ one ∈ performed, one.operation.index < 8 := fun one within =>
        lt_trans (admitted.early within) (by simp [Operation.index])
      refine settled.set (mem_snapshotsAfter (admitted.target _ member _ _ rfl) ?_)
      rw [removedBy_updatesOf before early]
      exact List.not_mem_nil
    | expired olderThan retainLast clean retainRefSnapshots dryRun =>
      obtain rfl := admitted.retain _ member _ _ _ _ _ rfl
      refine settled.remove fun pointer which id points => ?_
      rcases which with moved | still
      · rw [pointerAfter_of_moves moved _ (base.pointer pointer), ← staged.pointer] at points
        exact pointer_not_expired points
      · rw [pointerAfter_of_not_moves] at points
        · intro expired
          refine still (removed pointer id points ?_)
          refine List.mem_flatMap.mpr ⟨.removeSnapshots
            (snapshotsToExpire read olderThan retainLast true), admitted.within _ ?_, expired⟩
          rw [updatesOf_snoc]
          simp
        · rintro ⟨update, member, moved⟩
          refine still ⟨update, admitted.within _ ?_, moved⟩
          rw [updatesOf_snoc]
          exact List.mem_append_left _ member

namespace TableTransaction

/-- Operations sit in the order of their slots. -/
theorem flatten_sorted (transaction : TableTransaction V) :
    (transaction.flatten.map Operation.index).Pairwise (· < ·) := by
  have sub : (transaction.flatten.map Operation.index).Sublist (List.range numOperations) := by
    rw [flatten]
    generalize List.range numOperations = slots
    induction slots with
    | nil => simp
    | cons slot slots ih =>
      cases found : transaction.operations slot with
      | none =>
        rw [List.filterMap_cons_none found]
        exact ih.cons slot
      | some operation =>
        rw [List.filterMap_cons_some found, List.map_cons, transaction.slot_index slot _ found]
        exact ih.cons_cons slot
  exact List.pairwise_lt_range.sublist sub

theorem operations_of_mem_flatten {transaction : TableTransaction V} {operation : Operation V}
    (member : operation ∈ transaction.flatten) :
    transaction.operations operation.index = some operation := by
  obtain ⟨slot, -, found⟩ := List.mem_filterMap.mp member
  rwa [transaction.slot_index slot operation found]

end TableTransaction

/-- A commit that keeps pointers is one an accepted commit leaves all pointers intact with. -/
theorem AcceptedSpec.pointersIntact {entry : AcceptedCommit V} (spec : AcceptedSpec entry performed)
    (intact : PointersIntact entry.current) (retains : retainsRefs (transactionOf entry) = true)
    (keeps : KeepsPointers entry.current (transactionOf entry) (updatesSent entry)) :
    PointersIntact entry.next := by
  have slots : ∀ one ∈ performed,
      (transactionOf entry).operations one.operation.index = some one.operation := by
    intro one member
    refine operations_of_mem_flatten ?_
    rw [← spec.prepared.operations]
    exact List.mem_map_of_mem member
  have same : updatesSent entry = updatesOf performed := spec.prepared.updates
  have admitted : Admitted entry.current (updatesOf performed) performed := by
    refine ⟨fun _ member => member, ?_, ?_, ?_⟩
    · have sorted := (transactionOf entry).flatten_sorted
      rwa [← spec.prepared.operations, List.map_map] at sorted
    · intro one member olderThan retainLast clean retainRefSnapshots dryRun expires
      have slot := slots one member
      rw [expires] at slot
      simpa [retainsRefs, show (transactionOf entry).operations 8 = _ from slot] using retains
    · intro one member name reference sets
      have slot := slots one member
      rw [sets] at slot
      refine keeps.target (name, reference) ?_
      simp [refSet, show (transactionOf entry).operations 7 = _ from slot]
  have settled := spec.prepared.performs.settled admitted intact (same ▸ keeps.removed)
  intro pointer id points
  rw [spec.effect.pointer] at points
  rw [spec.effect.snapshots]
  exact settled pointer (em _) id points

/-! ### Runs -/

variable [PartitionValue V]

/-- Every reference and the current snapshot of every committed metadata point at a snapshot that
is present. -/
def ReferencesIntact (state : TableState V) : Prop :=
  ∀ metadata ∈ state.versions,
    (∀ name reference, metadata.refs.lookup name = some reference →
      reference.snapshotId ∈ metadata.snapshots) ∧
    (∀ id, metadata.currentSnapshotId = some id → id ∈ metadata.snapshots)

theorem pointersIntact_iff :
    PointersIntact metadata ↔
      (∀ name reference, metadata.refs.lookup name = some reference →
        reference.snapshotId ∈ metadata.snapshots) ∧
      (∀ id, metadata.currentSnapshotId = some id → id ∈ metadata.snapshots) := by
  constructor
  · intro intact
    refine ⟨fun name reference found => intact (.ref name) _ ?_, fun id => intact .current id⟩
    simp [TableMetadata.pointer, TableMetadata.refTarget, found]
  · rintro ⟨refs, current⟩ pointer id points
    cases pointer with
    | current => exact current id points
    | ref name =>
      obtain ⟨reference, found, rfl⟩ := Option.map_eq_some_iff.mp points
      exact refs name reference found

/-- In a run from intact metadata whose expirations retain referenced snapshots, all references
stay intact if no accepted commit removes what a reference it does not move points at when it is
applied, nor sets a reference to a snapshot that is no longer there. -/
theorem referencesIntact_of_keepsPointers (initial : TableMetadata) (store : Store V)
    (events : List (TableEvent V)) (intact : PointersIntact initial)
    (retains : ∀ entry ∈ (runTable initial store events).accepted,
      retainsRefs (transactionOf entry) = true)
    (keeps : ∀ entry ∈ (runTable initial store events).accepted,
      KeepsPointers entry.current (transactionOf entry) (updatesSent entry)) :
    ReferencesIntact (runTable initial store events) := by
  have history := runTable_history initial store events
  have begun : (runTable initial store events).initial = initial := run_initial _ events
  intro metadata member
  rw [State.versions, begun] at member
  refine pointersIntact_iff.mp (history.invariant PointersIntact intact ?_ metadata member)
  intro entry accepted here
  obtain ⟨performed, spec⟩ := history.spec_of_mem accepted
  exact spec.pointersIntact here (retains entry accepted) (keeps entry accepted)

/-! ### A new reference to an expiring snapshot -/

/-- A snapshot without files. -/
def bareSnapshot (snapshotId : Int) (parentSnapshotId : Option Int) : Snapshot where
  snapshotId
  parentSnapshotId
  sequenceNumber := snapshotId
  timestampMs := snapshotId
  manifestList := ""
  summary := ⟨.append, ∅⟩
  schemaId := some 0
  firstRowId := none
  addedRows := none

/-- A table whose main branch has two snapshots. -/
def twoSnapshots : TableMetadata :=
  { longTable .v2 with
    lastSequenceNumber := 2
    currentSnapshotId := some 2
    snapshots := (AList.singleton 2 (bareSnapshot 2 (some 1))).insert 1 (bareSnapshot 1 none)
    refs := AList.singleton "main" ⟨2, default⟩ }

/-- The request of a client that keeps the latest snapshot and those with a reference. -/
def expireOldest : CommitRequest LongValue :=
  .single (.expireSnapshots none (some 1) true true false) 0 ""

/-- The request of a client that tags the first snapshot. -/
def tagFirst : CommitRequest LongValue := .single (.setSnapshotRef ("tag", ⟨1, .tag 0⟩)) 0 ""

theorem twoSnapshots_intact : PointersIntact twoSnapshots := by
  refine pointersIntact_iff.mpr ⟨fun name reference found => ?_, fun id points => ?_⟩
  · have listed : (name, reference) ∈ twoSnapshots.refs.iter := HashMap.mem_iter_iff.mpr found
    obtain ⟨rfl, rfl⟩ := Prod.mk.inj (List.mem_singleton.mp listed)
    decide
  · obtain rfl := Option.some.inj points
    decide

/-- Tagging a snapshot before the expiration is prepared keeps it. -/
theorem referencesIntact_of_keepsPointers_sequential :
    ReferencesIntact (runTable twoSnapshots .empty
      [.prepare 0 tagFirst, .send 0 3, .prepare 0 expireOldest, .send 0 4]) :=
  referencesIntact_of_keepsPointers twoSnapshots .empty
    [.prepare 0 tagFirst, .send 0 3, .prepare 0 expireOldest, .send 0 4] twoSnapshots_intact
    (by decide) (by decide)

/-- An expiration and a new tag are prepared from the same metadata.  Both are accepted, and the
tag is left without its snapshot. -/
theorem expired_under_new_reference :
    ¬ ReferencesIntact (runTable twoSnapshots .empty
      [.prepare 0 expireOldest, .prepare 0 tagFirst, .send 1 3, .send 0 4]) := by
  intro intact
  have present := (intact _ List.mem_cons_self).1 "tag" ⟨1, .tag 0⟩ (by decide)
  exact absurd present (by decide)

end IcebergRust

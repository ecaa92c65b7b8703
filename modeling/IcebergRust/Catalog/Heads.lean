import IcebergRust.Catalog.History
import IcebergRust.Spec.LongValue
import Mathlib.Data.List.Flatten

/-!
# Branch heads under concurrent data operations

Transactions of data operations never lose a snapshot of another client: the requirement
of their first snapshot ties every accepted commit to the head it has read.

* `AcceptedSpec.builtOn` is the step lemma: the head of the branch, in the metadata a
  commit is applied to, is the snapshot the commit was built on.
* `headsPreserved` lifts it to runs, for every format version.
* `addSnapshot` checks sequence numbers in versions 2 and 3 only; there they increase on
  every branch.  `v1_sequence_repeats` is a run of a version 1 table where they do not.
-/

namespace IcebergRust

open Fallible TableTransaction Optimistic

variable {V : Type}

/-- All operations of a transaction commit snapshots. -/
def DataOnly (transaction : TableTransaction V) : Prop :=
  ∀ operation ∈ transaction.flatten, operation.branch.isSome

instance (transaction : TableTransaction V) : Decidable (DataOnly transaction) :=
  inferInstanceAs (Decidable (∀ operation ∈ transaction.flatten, operation.branch.isSome))

/-- The snapshots updates add, in order. -/
def addedBy (updates : List TableUpdate) : List Snapshot :=
  updates.filterMap fun
    | .addSnapshot snapshot => some snapshot
    | _ => none

/-- The name of the branch a commit writes to. -/
def branchOf (entry : AcceptedCommit V) : String := branchName (transactionOf entry).branch

/-- The snapshots an accepted commit adds. -/
def snapshotsOf (entry : AcceptedCommit V) : List Snapshot := addedBy (updatesSent entry)

/-- The drawn snapshot ids are distinct, and not those of snapshots the table has. -/
def FreshIds (entry : AcceptedCommit V) : Prop :=
  ((snapshotsOf entry).map (·.snapshotId)).Nodup ∧
    ∀ snapshot ∈ snapshotsOf entry, snapshot.snapshotId ∉ entry.current.snapshots

instance (entry : AcceptedCommit V) : Decidable (FreshIds entry) :=
  inferInstanceAs (Decidable (_ ∧ _))

/-- Snapshots are stored under their own ids. -/
def KeyedById (metadata : TableMetadata) : Prop :=
  ∀ id snapshot, metadata.snapshots.lookup id = some snapshot → snapshot.snapshotId = id

/-- The later metadata has all snapshots of the earlier one, unchanged. -/
def KeepsSnapshots (earlier later : TableMetadata) : Prop :=
  ∀ id snapshot, earlier.snapshots.lookup id = some snapshot →
    later.snapshots.lookup id = some snapshot

/-! ### Adding snapshots -/

/-- Updates that only add snapshots and set references. -/
def OnlySnapshots (updates : List TableUpdate) : Prop :=
  ∀ update ∈ updates, (∃ snapshot, update = .addSnapshot snapshot) ∨
    ∃ name reference, update = .setSnapshotRef name reference

theorem snapshots_of_onlySnapshots {updates : List TableUpdate} (only : OnlySnapshots updates)
    (snapshots : HashMap Int Snapshot) :
    updates.foldl TableUpdate.snapshots snapshots =
      (addedBy updates).foldl (fun map snapshot => map.insert snapshot.snapshotId snapshot)
        snapshots := by
  induction updates generalizing snapshots with
  | nil => rfl
  | cons update updates ih =>
    have rest := ih fun u member => only u (List.mem_cons_of_mem _ member)
    rcases only update List.mem_cons_self with ⟨snapshot, rfl⟩ | ⟨name, reference, rfl⟩
    · exact rest _
    · exact rest _

variable {added : List Snapshot}

theorem lookup_insertAll {snapshots : HashMap Int Snapshot} {id : Int}
    (other : id ∉ added.map (·.snapshotId)) :
    (added.foldl (fun map snapshot => map.insert snapshot.snapshotId snapshot) snapshots).lookup id =
      snapshots.lookup id := by
  induction added generalizing snapshots with
  | nil => rfl
  | cons snapshot added ih =>
    rw [List.map_cons, List.mem_cons, not_or] at other
    rw [List.foldl_cons, ih other.2, AList.lookup_insert_ne other.1]

theorem lookup_insertAll_of_mem {snapshots : HashMap Int Snapshot} {snapshot : Snapshot}
    (distinct : (added.map (·.snapshotId)).Nodup) (member : snapshot ∈ added) :
    (added.foldl (fun map snapshot => map.insert snapshot.snapshotId snapshot) snapshots).lookup
      snapshot.snapshotId = some snapshot := by
  induction added generalizing snapshots with
  | nil => simp at member
  | cons first added ih =>
    rw [List.map_cons, List.nodup_cons] at distinct
    rw [List.foldl_cons]
    rcases List.mem_cons.mp member with rfl | later
    · rw [lookup_insertAll distinct.1, AList.lookup_insert]
    · exact ih distinct.2 later

theorem keyed_insertAll {snapshots : HashMap Int Snapshot}
    (keyed : ∀ id snapshot, snapshots.lookup id = some snapshot → snapshot.snapshotId = id) :
    ∀ id snapshot, (added.foldl (fun map snapshot => map.insert snapshot.snapshotId snapshot)
      snapshots).lookup id = some snapshot → snapshot.snapshotId = id := by
  induction added generalizing snapshots with
  | nil => exact keyed
  | cons first added ih =>
    refine ih fun id snapshot found => ?_
    by_cases same : id = first.snapshotId
    · rw [same, AList.lookup_insert] at found
      rw [same, Option.some.inj found]
    · exact keyed id snapshot (by rwa [AList.lookup_insert_ne same] at found)

/-- What the sequence check of version 2 and 3 metadata gives for a list of updates. -/
structure Sequenced (last after : Int) (added : List Snapshot) : Prop where
  above : ∀ snapshot ∈ added, last < snapshot.sequenceNumber
  below : ∀ snapshot ∈ added, snapshot.sequenceNumber ≤ after
  increasing : added.Pairwise fun a b => a.sequenceNumber < b.sequenceNumber
  advanced : last ≤ after

theorem Sequenced.cons {last after : Int} {snapshot : Snapshot}
    (advances : last < snapshot.sequenceNumber)
    (rest : Sequenced snapshot.sequenceNumber after added) :
    Sequenced last after (snapshot :: added) where
  above := by
    intro other member
    rcases List.mem_cons.mp member with rfl | later
    · exact advances
    · exact lt_trans advances (rest.above other later)
  below := by
    intro other member
    rcases List.mem_cons.mp member with rfl | later
    · exact rest.advanced
    · exact rest.below other later
  increasing := List.pairwise_cons.mpr ⟨rest.above, rest.increasing⟩
  advanced := le_trans (le_of_lt advances) rest.advanced

theorem foldlM_sequenced {state after : ApplyState} {updates : List TableUpdate}
    (run : updates.foldlM applyTableUpdate state = .ok after)
    (versioned : state.metadata.formatVersion ≠ .v1) :
    Sequenced state.metadata.lastSequenceNumber after.metadata.lastSequenceNumber
      (addedBy updates) := by
  induction updates generalizing state with
  | nil =>
    cases foldlM_nil_eq_ok.mp run
    exact ⟨by simp [addedBy], by simp [addedBy], by simp [addedBy], le_refl _⟩
  | cons update updates ih =>
    obtain ⟨middle, first, rest⟩ := foldlM_cons_eq_ok.mp run
    have effect := applyTableUpdate_effect first
    have sequenced := ih rest (by rwa [effect.formatVersion])
    have last := effect.lastSequenceNumber
    cases update with
    | addSnapshot snapshot =>
      obtain ⟨added, adds, first⟩ := bind_eq_ok.mp first
      obtain ⟨advances, -⟩ := addSnapshot_eq_ok adds
      exact .cons (advances versioned) (by rwa [last] at sequenced)
    | _ => exact (by rwa [last] at sequenced)

/-! ### One commit -/

section OneCommit

variable {entry : AcceptedCommit V} {performed : List (Performed V)}

/-- Every operation of a data-only commit has sent nothing, or a new head of the commit's branch. -/
theorem AcceptedSpec.sends (spec : AcceptedSpec entry performed)
    (data : DataOnly (transactionOf entry)) {one : Performed V} (member : one ∈ performed) :
    SendsSnapshot one.read (entry.proposal.request.entropy one.operation.index)
      (transactionOf entry).branch one.operation.parentOn
      (one.operation.index < 4 → writesFiles one.operation = true) one.requirement one.updates := by
  have flat : one.operation ∈ (transactionOf entry).flatten := by
    rw [← spec.prepared.operations]
    exact List.mem_map_of_mem member
  obtain ⟨branch, writes⟩ := Option.isSome_iff_exists.mp (data _ flat)
  obtain ⟨slot, -, found⟩ := List.mem_filterMap.mp flat
  obtain rfl := (transactionOf entry).branch_of_slot found writes
  have outcome := spec.prepared.performs.outcome member
  obtain ⟨operation, read, requirement, updates⟩ := one
  dsimp only at outcome writes ⊢
  cases outcome with
  | nothing => exact .inl ⟨rfl, rfl⟩
  | snapshot other old snapshot read drawn parent wrote =>
    obtain rfl := Option.some.inj (other.symm.trans writes)
    exact .inr ⟨old, snapshot, read, drawn, parent, wrote, rfl⟩
  | _ => simp [Operation.branch] at writes

/-- The first operation of a list that has sent something. -/
theorem exists_first {performed : List (Performed V)} (sent : updatesOf performed ≠ []) :
    ∃ before one after, performed = before ++ one :: after ∧ updatesOf before = [] ∧
      one.updates ≠ [] := by
  induction performed with
  | nil => exact absurd rfl sent
  | cons first rest ih =>
    by_cases silent : first.updates = []
    · have later : updatesOf rest ≠ [] := by simpa [updatesOf, silent] using sent
      obtain ⟨before, one, after, rfl, quiet, speaks⟩ := ih later
      exact ⟨first :: before, one, after, rfl, by simpa [updatesOf, silent] using quiet, speaks⟩
    · exact ⟨[], first, rest, rfl, rfl, silent⟩

/-- Metadata with the same references, snapshots and current snapshot has the same heads. -/
theorem Effect.currentSnapshot {before after : TableMetadata} (effect : Effect before after [])
    (branch : Option String) : after.currentSnapshot branch = before.currentSnapshot branch := by
  have refs : after.refs = before.refs := effect.refs
  have snapshots : after.snapshots = before.snapshots := effect.snapshots
  have current : after.currentSnapshotId = before.currentSnapshotId := effect.currentSnapshotId
  simp only [TableMetadata.currentSnapshot, TableMetadata.refSnapshotId, refs, snapshots, current]

/-- The head of its branch, in the metadata a data-only commit is applied to, is the snapshot the
commit was built on. -/
theorem AcceptedSpec.builtOn (spec : AcceptedSpec entry performed)
    (data : DataOnly (transactionOf entry)) :
    ∃ old, entry.proposal.base.currentSnapshot (transactionOf entry).branch = .ok old ∧
      entry.current.refTarget (branchOf entry) = old.map (·.snapshotId) := by
  obtain ⟨before, one, after, whole, quiet, speaks⟩ :=
    exists_first (spec.prepared.updates ▸ spec.prepared.nonempty)
  have member : one ∈ performed := by rw [whole]; simp
  have performs := spec.prepared.performs
  rw [whole] at performs
  have effect : Effect entry.proposal.base one.read [] := quiet ▸ performs.split.2.1
  rcases spec.sends data member with ⟨-, silent⟩ | ⟨old, snapshot, read, -, -, -, same⟩
  · exact absurd silent speaks
  · obtain ⟨required, -⟩ := Prod.mk.inj same
    refine ⟨old, effect.currentSnapshot _ ▸ read, ?_⟩
    have refs : one.read.refs = entry.proposal.base.refs := effect.refs
    have target : one.read.refTarget = entry.proposal.base.refTarget := by
      funext name
      rw [TableMetadata.refTarget, TableMetadata.refTarget, refs]
    have sent := spec.prepared.requirements one member _ required
      (by simp only [checkTableRequirement, target])
    have checked := List.all_eq_true.mp spec.checked _ sent
    simpa [checkTableRequirement, branchOf] using checked

theorem AcceptedSpec.onlySnapshots (spec : AcceptedSpec entry performed)
    (data : DataOnly (transactionOf entry)) : OnlySnapshots (updatesSent entry) := by
  intro update member
  rw [updatesSent, spec.prepared.updates, updatesOf, List.mem_flatMap] at member
  obtain ⟨one, within, sent⟩ := member
  rcases spec.sends data within with ⟨-, silent⟩ | ⟨old, snapshot, -, -, -, -, same⟩
  · rw [silent] at sent
    exact absurd sent List.not_mem_nil
  · rw [(Prod.mk.inj same).2] at sent
    rcases List.mem_pair.mp sent with rfl | rfl
    · exact .inl ⟨snapshot, rfl⟩
    · exact .inr ⟨_, _, rfl⟩

theorem AcceptedSpec.snapshots (spec : AcceptedSpec entry performed)
    (data : DataOnly (transactionOf entry)) :
    entry.next.snapshots = (snapshotsOf entry).foldl
      (fun map snapshot => map.insert snapshot.snapshotId snapshot) entry.current.snapshots := by
  rw [(applyTableUpdates_effect spec.applied).snapshots,
    snapshots_of_onlySnapshots (spec.onlySnapshots data), snapshotsOf]

theorem AcceptedSpec.keepsSnapshots (spec : AcceptedSpec entry performed)
    (data : DataOnly (transactionOf entry)) (fresh : FreshIds entry) :
    KeepsSnapshots entry.current entry.next := by
  intro id snapshot found
  rw [spec.snapshots data, lookup_insertAll, found]
  intro drawn
  obtain ⟨added, member, rfl⟩ := List.mem_map.mp drawn
  exact fresh.2 added member (AList.lookup_isSome.mp (by rw [found]; rfl))

theorem AcceptedSpec.keyed (spec : AcceptedSpec entry performed)
    (data : DataOnly (transactionOf entry)) (keyed : KeyedById entry.current) :
    KeyedById entry.next := by
  intro id snapshot found
  rw [spec.snapshots data] at found
  exact keyed_insertAll keyed id snapshot found

/-- The references after operations that commit to one branch. -/
theorem refs_of_sends {branch : Option String} {entropy : Nat → Entropy}
    {performed : List (Performed V)}
    (sends : ∀ one ∈ performed, SendsSnapshot one.read (entropy one.operation.index) branch
      one.operation.parentOn (one.operation.index < 4 → writesFiles one.operation = true)
      one.requirement one.updates) (refs : HashMap String SnapshotReference) (name : String) :
    ((updatesOf performed).foldl TableUpdate.refs refs).lookup name =
      if name = branchName branch then
        ((addedBy (updatesOf performed)).getLast?.map fun snapshot =>
          ⟨snapshot.snapshotId, default⟩).or (refs.lookup name)
      else refs.lookup name := by
  induction performed generalizing refs with
  | nil => simp [addedBy]
  | cons one performed ih =>
    have rest := ih fun other member => sends other (List.mem_cons_of_mem _ member)
    have here : updatesOf (one :: performed) = one.updates ++ updatesOf performed := rfl
    rw [here, List.foldl_append, rest]
    rcases sends one List.mem_cons_self with ⟨-, silent⟩ | ⟨old, snapshot, -, -, -, -, same⟩
    · rw [silent]
      rfl
    · rw [(Prod.mk.inj same).2]
      have added : addedBy ([.addSnapshot snapshot,
          .setSnapshotRef (branchName branch) ⟨snapshot.snapshotId, default⟩] ++
            updatesOf performed) = snapshot :: addedBy (updatesOf performed) := rfl
      have set : [TableUpdate.addSnapshot snapshot,
          .setSnapshotRef (branchName branch) ⟨snapshot.snapshotId, default⟩].foldl
            TableUpdate.refs refs =
          refs.insert (branchName branch) ⟨snapshot.snapshotId, default⟩ := rfl
      rw [added, set, List.getLast?_cons]
      by_cases hit : name = branchName branch
      · rw [if_pos hit, if_pos hit, hit, AList.lookup_insert]
        cases (addedBy (updatesOf performed)).getLast? <;> rfl
      · rw [if_neg hit, if_neg hit, AList.lookup_insert_ne hit]

theorem AcceptedSpec.refTarget (spec : AcceptedSpec entry performed)
    (data : DataOnly (transactionOf entry)) (name : String) :
    entry.next.refTarget name =
      if name = branchOf entry then
        ((snapshotsOf entry).getLast?.map (·.snapshotId)).or (entry.current.refTarget name)
      else entry.current.refTarget name := by
  rw [TableMetadata.refTarget, spec.effect.refs, refs_of_sends fun one member => spec.sends data member]
  have same : addedBy (updatesOf performed) = snapshotsOf entry := by
    rw [snapshotsOf, updatesSent, spec.prepared.updates]
  rw [same, branchOf]
  split
  · cases (snapshotsOf entry).getLast? <;> rfl
  · rfl

theorem AcceptedSpec.sequenced (spec : AcceptedSpec entry performed)
    (versioned : entry.current.formatVersion ≠ .v1) :
    Sequenced entry.current.lastSequenceNumber entry.next.lastSequenceNumber (snapshotsOf entry) := by
  obtain ⟨state, folded, same⟩ := bind_eq_ok.mp spec.applied
  have sequenced := foldlM_sequenced folded versioned
  injection same with same
  rwa [← same]

end OneCommit

/-! ### Runs -/

/-- The last snapshot accepted commits have added on a branch. -/
def lastOn : List (AcceptedCommit V) → String → Option Snapshot
  | [], _ => none
  | newest :: past, name =>
    if branchOf newest = name then (snapshotsOf newest).getLast?.or (lastOn past name)
    else lastOn past name

/-- The snapshots accepted on a branch, oldest first. -/
def snapshotsOn (state : TableState V) (name : String) : List Snapshot :=
  (state.accepted.reverse.filter fun entry => branchOf entry = name).flatMap snapshotsOf

/-- No accepted commit has lost a snapshot of its branch: the head it is applied to is the one it
was built on, and that is the snapshot the last commit on the branch has added, if any. -/
structure HeadsPreserved (state : TableState V) : Prop where
  builtOn : ∀ entry ∈ state.accepted, ∃ old,
    entry.proposal.base.currentSnapshot (transactionOf entry).branch = .ok old ∧
      entry.current.refTarget (branchOf entry) = old.map (·.snapshotId) ∧
      ∀ snapshot ∈ old, entry.current.snapshots.lookup snapshot.snapshotId = some snapshot
  follows : ∀ later entry past, state.accepted = later ++ entry :: past →
    ∀ snapshot ∈ lastOn past (branchOf entry),
      entry.proposal.base.currentSnapshot (transactionOf entry).branch = .ok (some snapshot)

/-- The sequence numbers accepted on a branch strictly increase. -/
def SequencesIncrease (state : TableState V) : Prop :=
  ∀ name, (snapshotsOn state name).Pairwise fun a b => a.sequenceNumber < b.sequenceNumber

section Runs

variable [PartitionValue V] {initial : TableMetadata} {accepted : List (AcceptedCommit V)}
  {snapshot : Snapshot}

/-- The snapshot a head names is stored under its id. -/
theorem lookup_of_currentSnapshot {metadata : TableMetadata} {branch : Option String}
    (keyed : KeyedById metadata) (read : metadata.currentSnapshot branch = .ok (some snapshot)) :
    metadata.snapshots.lookup snapshot.snapshotId = some snapshot := by
  obtain ⟨id, found⟩ := metadata.exists_lookup_of_currentSnapshot read _ rfl
  rwa [keyed id snapshot found]

theorem keyed_versions (history : TableHistory V initial accepted)
    (data : ∀ entry ∈ accepted, DataOnly (transactionOf entry)) (keyed : KeyedById initial) :
    ∀ version ∈ versions initial accepted, KeyedById version := by
  refine history.invariant KeyedById keyed fun entry member here => ?_
  obtain ⟨performed, spec⟩ := history.spec_of_mem member
  exact spec.keyed (data entry member) here

theorem keepsSnapshots_versions (history : TableHistory V initial accepted)
    (data : ∀ entry ∈ accepted, DataOnly (transactionOf entry))
    (fresh : ∀ entry ∈ accepted, FreshIds entry) :
    ∀ version ∈ versions initial accepted, KeepsSnapshots version (latest initial accepted) := by
  refine history.related KeepsSnapshots (fun _ _ _ found => found)
    (fun a b c one two id snapshot found => two id snapshot (one id snapshot found)) ?_
  intro entry member
  obtain ⟨performed, spec⟩ := history.spec_of_mem member
  exact spec.keepsSnapshots (data entry member) (fresh entry member)

/-- The latest metadata still has the head of a branch in any version before it. -/
theorem head_stored (history : TableHistory V initial accepted)
    (data : ∀ entry ∈ accepted, DataOnly (transactionOf entry))
    (fresh : ∀ entry ∈ accepted, FreshIds entry) (keyed : KeyedById initial) {base : TableMetadata}
    (known : base ∈ versions initial accepted) {branch : Option String}
    (read : base.currentSnapshot branch = .ok (some snapshot)) :
    (latest initial accepted).snapshots.lookup snapshot.snapshotId = some snapshot :=
  keepsSnapshots_versions history data fresh _ known _ _
    (lookup_of_currentSnapshot (keyed_versions history data keyed _ known) read)

/-- A branch is at a snapshot, and metadata has it. -/
def HeadIs (metadata : TableMetadata) (name : String) (snapshot : Snapshot) : Prop :=
  metadata.refTarget name = some snapshot.snapshotId ∧
    metadata.snapshots.lookup snapshot.snapshotId = some snapshot

omit [PartitionValue V] in
/-- A commit moves the head of its own branch and no other. -/
theorem AcceptedSpec.headIs {entry : AcceptedCommit V} {performed : List (Performed V)}
    {past : List (AcceptedCommit V)} {name : String} (spec : AcceptedSpec entry performed)
    (data : DataOnly (transactionOf entry)) (fresh : FreshIds entry)
    (before : lastOn past name = some snapshot → HeadIs entry.current name snapshot)
    (last : lastOn (entry :: past) name = some snapshot) : HeadIs entry.next name snapshot := by
  have target := spec.refTarget data name
  have kept := spec.keepsSnapshots data fresh
  rw [lastOn] at last
  by_cases hit : branchOf entry = name
  · rw [if_pos hit] at last
    rw [if_pos hit.symm] at target
    cases added : (snapshotsOf entry).getLast? with
    | some own =>
      rw [added] at last target
      obtain rfl := Option.some.inj last
      refine ⟨target, ?_⟩
      rw [spec.snapshots data]
      exact lookup_insertAll_of_mem fresh.1 (List.mem_of_getLast? added)
    | none =>
      rw [added] at last target
      obtain ⟨points, found⟩ := before last
      exact ⟨target.trans points, kept _ _ found⟩
  · rw [if_neg hit] at last
    rw [if_neg fun same => hit same.symm] at target
    obtain ⟨points, found⟩ := before last
    exact ⟨target.trans points, kept _ _ found⟩

/-- The head of a branch is what the last accepted commit on it has left. -/
theorem head_of_history (history : TableHistory V initial accepted)
    (data : ∀ entry ∈ accepted, DataOnly (transactionOf entry))
    (fresh : ∀ entry ∈ accepted, FreshIds entry) {name : String}
    (last : lastOn accepted name = some snapshot) :
    HeadIs (latest initial accepted) name snapshot := by
  induction history with
  | start => cases last
  | accept before known prepared applied ih =>
    obtain ⟨performed, spec⟩ := TableHistory.spec_of_mem
      (.accept before known prepared applied) List.mem_cons_self
    exact spec.headIs (data _ List.mem_cons_self) (fresh _ List.mem_cons_self)
      (ih (fun entry member => data entry (List.mem_cons_of_mem _ member))
        (fun entry member => fresh entry (List.mem_cons_of_mem _ member))) last

theorem formatVersion_versions (history : TableHistory V initial accepted) :
    ∀ version ∈ versions initial accepted, version.formatVersion = initial.formatVersion := by
  refine history.invariant (fun version => version.formatVersion = initial.formatVersion) rfl ?_
  intro entry member here
  obtain ⟨performed, spec⟩ := history.spec_of_mem member
  exact spec.effect.formatVersion.trans here

/-- In versions 2 and 3 the sequence numbers increase over all branches together. -/
theorem sequenced_history (history : TableHistory V initial accepted)
    (versioned : initial.formatVersion ≠ .v1) :
    (accepted.reverse.flatMap snapshotsOf).Pairwise
        (fun a b => a.sequenceNumber < b.sequenceNumber) ∧
      ∀ snapshot ∈ accepted.reverse.flatMap snapshotsOf,
        snapshot.sequenceNumber ≤ (latest initial accepted).lastSequenceNumber := by
  induction history with
  | start => simp
  | @accept past proposal environment next before known prepared applied ih =>
    obtain ⟨performed, spec⟩ := TableHistory.spec_of_mem
      (.accept before known prepared applied) List.mem_cons_self
    have same := formatVersion_versions before _ (latest_mem_versions initial past)
    have sequenced := spec.sequenced (by rwa [same])
    obtain ⟨increasing, below⟩ := ih
    rw [List.reverse_cons, List.flatMap_append, List.flatMap_singleton]
    refine ⟨List.pairwise_append.mpr ⟨increasing, sequenced.increasing, ?_⟩, ?_⟩
    · intro old earlier new added
      exact lt_of_le_of_lt (below old earlier) (sequenced.above new added)
    · intro snapshot member
      rcases List.mem_append.mp member with earlier | added
      · exact le_trans (below snapshot earlier) sequenced.advanced
      · exact sequenced.below snapshot added

end Runs

/-- In every run of data operations, with snapshot ids that are drawn fresh, each accepted commit is
applied to the very head it was built on; in a version 2 or 3 table the accepted sequence numbers
strictly increase on every branch. -/
theorem headsPreserved [PartitionValue V] (initial : TableMetadata) (store : Store V)
    (events : List (TableEvent V)) (keyed : KeyedById initial)
    (data : ∀ entry ∈ (runTable initial store events).accepted, DataOnly (transactionOf entry))
    (fresh : ∀ entry ∈ (runTable initial store events).accepted, FreshIds entry) :
    HeadsPreserved (runTable initial store events) ∧
      (initial.formatVersion ≠ .v1 → SequencesIncrease (runTable initial store events)) := by
  have history := runTable_history initial store events
  generalize runTable initial store events = state at history data fresh
  have built : ∀ later entry past, state.accepted = later ++ entry :: past → ∃ old,
      entry.proposal.base.currentSnapshot (transactionOf entry).branch = .ok old ∧
        entry.current.refTarget (branchOf entry) = old.map (·.snapshotId) ∧
        ∀ snapshot ∈ old, entry.current.snapshots.lookup snapshot.snapshotId = some snapshot := by
    intro later entry past split
    rw [split] at history data fresh
    obtain ⟨here, known, performed, spec⟩ := history.accepted_spec
    obtain ⟨old, read, target⟩ := spec.builtOn (data entry (by simp))
    refine ⟨old, read, target, ?_⟩
    rintro snapshot rfl
    have prior := history.prior
    have older := fun other member => data other
      (List.mem_append_right later (List.mem_cons_of_mem entry member))
    have drawn := fun other member => fresh other
      (List.mem_append_right later (List.mem_cons_of_mem entry member))
    rw [here]
    exact head_stored prior older drawn keyed known read
  refine ⟨⟨?_, ?_⟩, ?_⟩
  · intro entry member
    obtain ⟨later, past, split⟩ := List.append_of_mem member
    exact built later entry past split
  · intro later entry past split snapshot last
    obtain ⟨old, read, target, stored⟩ := built later entry past split
    rw [split] at history data fresh
    obtain ⟨here, -, -⟩ := history.accepted_spec
    have prior := history.prior
    obtain ⟨points, found⟩ := head_of_history prior
      (fun other member =>
        data other (List.mem_append_right later (List.mem_cons_of_mem entry member)))
      (fun other member =>
        fresh other (List.mem_append_right later (List.mem_cons_of_mem entry member)))
      last
    rw [here, points] at target
    cases old with
    | none => cases target
    | some old =>
      have same : snapshot.snapshotId = old.snapshotId := Option.some.inj target
      have held := stored old rfl
      rw [here, ← same, found] at held
      rw [read, ← Option.some.inj held]
  · intro versioned name
    have increasing := (sequenced_history history versioned).1
    exact increasing.sublist (List.filter_sublist.flatMap snapshotsOf)

/-! ### Version 1 -/

/-- The request of a client that appends one file. -/
def appendOne (branch : Option String) (snapshotId : Int) (uuid : String) :
    CommitRequest LongValue :=
  .single (.append branch [longFile uuid 1] [] none) snapshotId uuid

theorem longTable_keyed (formatVersion : FormatVersion) : KeyedById (longTable formatVersion) := by
  intro id snapshot found
  simp [longTable] at found

/-- Appends of three clients to two branches of a version 2 table, one of them prepared from stale
metadata and rejected. -/
theorem headsPreserved_appends :
    HeadsPreserved (runTable (longTable .v2) .empty
      [.prepare 0 (appendOne none 1 "a"), .prepare 0 (appendOne none 2 "b"), .send 0 1, .send 0 2,
        .prepare 0 (appendOne none 3 "c"), .send 0 3,
        .prepare 0 (appendOne (some "dev") 4 "d"), .send 0 4]) ∧
    SequencesIncrease (runTable (longTable .v2) .empty
      [.prepare 0 (appendOne none 1 "a"), .prepare 0 (appendOne none 2 "b"), .send 0 1, .send 0 2,
        .prepare 0 (appendOne none 3 "c"), .send 0 3,
        .prepare 0 (appendOne (some "dev") 4 "d"), .send 0 4]) :=
  (headsPreserved (longTable .v2) .empty _ (longTable_keyed .v2) (by decide +kernel)
    (by decide +kernel)).imp id
    fun increase => increase (by decide)

/-- In a version 1 table a commit to another branch, prepared from the first metadata, sets the
last sequence number back, and the next commit to `main` repeats a number. -/
theorem v1_sequence_repeats :
    ¬ SequencesIncrease (runTable (longTable .v1) .empty
      [.prepare 0 (appendOne none 1 "a"), .send 0 1, .prepare 0 (appendOne none 2 "b"), .send 0 2,
        .prepare 2 (appendOne (some "dev") 3 "c"), .send 0 3,
        .prepare 0 (appendOne none 4 "d"), .send 0 4]) := by
  intro increase
  exact absurd (increase "main") (by decide +kernel)

end IcebergRust
